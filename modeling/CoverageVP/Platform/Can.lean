import CoverageVP.Lib.Bytes
import CoverageVP.Lib.Sequences
import CoverageVP.Platform.CanIdentifier
import CoverageVP.Platform.MemoryMap

/-!
# The CAN controller

The controller gets bytes one after another. A byte is a command, or it belongs to the command before
it. What a command has read so far is kept from one byte to the next, apart from the state that says
which command it is. Frames that come in are stored in a free buffer between two bytes.
-/

namespace CoverageVP.Platform

open Lib

namespace Can

/-! ## Commands -/

/-- The command that the next byte belongs to. -/
inductive State
  | init | readRegister | writeRegister | bitmod
  | loadTX0 | loadTX1 | loadTX2
  | sendTX0 | sendTX1 | sendTX2 | sendALL
  | readRX0 | readRX1
  | getStatus
  deriving DecidableEq, Repr

def WRITE : BitVec 8 := 0x02#8
def READ : BitVec 8 := 0x03#8
def BITMOD : BitVec 8 := 0x05#8
def LOAD_TX0 : BitVec 8 := 0x40#8
def LOAD_TX1 : BitVec 8 := 0x42#8
def LOAD_TX2 : BitVec 8 := 0x44#8
def RTS_TX0 : BitVec 8 := 0x81#8
def RTS_TX1 : BitVec 8 := 0x82#8
def RTS_TX2 : BitVec 8 := 0x84#8
def RTS_ALL : BitVec 8 := 0x87#8
def READ_RX0 : BitVec 8 := 0x90#8
def READ_RX1 : BitVec 8 := 0x94#8
def READ_STATUS : BitVec 8 := 0xA0#8
def RESET : BitVec 8 := 0xC0#8

/-- The commands that go on to another state. -/
def commands : List (BitVec 8 × State) :=
  [(WRITE, .writeRegister), (READ, .readRegister), (BITMOD, .bitmod), (LOAD_TX0, .loadTX0),
    (LOAD_TX1, .loadTX1), (LOAD_TX2, .loadTX2), (RTS_TX0, .sendTX0), (RTS_TX1, .sendTX1),
    (RTS_TX2, .sendTX2), (RTS_ALL, .sendALL), (READ_RX0, .readRX0), (READ_RX1, .readRX1),
    (READ_STATUS, .getStatus), (RESET, .init)]

def TXB0CTRL : Nat := 0x30

/-- The last register. -/
def RXB1SIDH : Nat := 0x71

/-- The largest payload of a buffer. -/
def CANFD_MAX_DLEN : Nat := 64

/-- The largest payload of a frame. -/
def CAN_MAX_DLEN : Nat := 8

/-- A buffer: four bytes of an identifier, the length, and the payload. -/
abbrev McpFrame := Bytes

namespace McpFrame

variable (f : McpFrame)

def idField : IdField := ⟨f 0, f 1, f 2, f 3⟩

def length : BitVec 8 := f 4

/-- The place of the payload in a buffer. -/
def payloadOffset : Nat := 5

/-- The size of a buffer. -/
def rawSize : Nat := 5 + CANFD_MAX_DLEN

end McpFrame

/-- A frame that comes in, with the memory from its data on. -/
structure CanFrame where
  canId : BitVec 32
  canDlc : BitVec 8
  data : Bytes

/-- A frame that has been sent. -/
structure SentFrame where
  canId : BitVec 32
  canDlc : BitVec 8
  data : List (BitVec 8)
  deriving DecidableEq, Repr

/-! ## What a command has read -/

inductive ModReg.Stage
  | address | mask | data
  deriving DecidableEq, Repr

structure ModReg where
  stage : ModReg.Stage
  address : BitVec 8
  mask : BitVec 8
  data : BitVec 8
  deriving DecidableEq, Repr

inductive LoadTx.Stage
  | id | length | payload
  deriving DecidableEq, Repr

structure LoadTx where
  stage : LoadTx.Stage
  payloadPtr : BitVec 8
  deriving DecidableEq, Repr

end Can

open Can

/-- The registers and the buffers, the flags of the buffers that hold a frame, the frames that have been
sent, and what each command has read. -/
structure Can where
  state : State
  registers : Bytes
  txBuf : Nat → McpFrame
  rxBuf : Nat → McpFrame
  status : BitVec 8
  sent : List SentFrame
  readSelected : BitVec 16
  writeSelected : BitVec 16
  modReg : ModReg
  loadTx : LoadTx
  rxPtr : BitVec 8

namespace Can

/-- The state after construction. The registers and the buffers have any contents. -/
def initial (registers : Bytes) (txBuf rxBuf : Nat → McpFrame) : Can where
  state := .init
  registers := registers
  txBuf := txBuf
  rxBuf := rxBuf
  status := 0#8
  sent := []
  readSelected := -1#16
  writeSelected := -1#16
  modReg := ⟨.address, 0#8, 0#8, 0#8⟩
  loadTx := ⟨.id, 0#8⟩
  rxPtr := 0#8

/-- There is nothing outside of an array. -/
def within (idx size : Nat) : Except Fault Unit := check (idx < size) .undefined

variable (s : Can)

def register (idx : Nat) : Except Fault (BitVec 8) := do
  within idx (RXB1SIDH + 1)
  return s.registers idx

def setRegister (idx : Nat) (value : BitVec 8) : Except Fault Can := do
  within idx (RXB1SIDH + 1)
  return { s with registers := s.registers.write idx [value] }

/-- A byte of an array in a buffer for transmission is written. -/
def setTxBuf (no offset idx size : Nat) (value : BitVec 8) : Except Fault Can := do
  within no 3
  within idx size
  return { s with txBuf := fun n ↦ if n = no then (s.txBuf no).write (offset + idx) [value] else s.txBuf n }

/-! ## Bytes -/

/-- Other bytes are no commands, or commands that do nothing. -/
def command (byte : BitVec 8) : Can :=
  match commands.lookup byte with
  | some state => { s with state := state }
  | none => s

/-- The first byte selects a register. Then every zero reads a register and selects the next one. -/
def readRegister (byte : BitVec 8) : Except Fault (BitVec 8 × Can) :=
  if s.readSelected.toInt < 0 then return (0#8, { s with readSelected := byte.setWidth 16 })
  else if byte ≠ 0#8 then return (0#8, { s with readSelected := -1#16 }.command byte)
  else if (RXB1SIDH : Int) < s.readSelected.toInt then
    return (0#8, { s with readSelected := s.readSelected + 1#16 })
  else do
    let ret ← s.register s.readSelected.toNat
    return (ret, { s with readSelected := s.readSelected + 1#16 })

/-- A register that is too high stays selected, and the command goes on. -/
def writeRegister (byte : BitVec 8) : Except Fault (BitVec 8 × Can) :=
  if s.writeSelected.toInt < 0 then return (0#8, { s with writeSelected := byte.setWidth 16 })
  else if (RXB1SIDH : Int) < s.writeSelected.toInt then return (0#8, s)
  else do
    let s ← s.setRegister s.writeSelected.toNat byte
    return (0#8, { s with writeSelected := -1#16, state := .init })

/-- The address of a register is not checked, and the data is not masked. -/
def modifyRegister (byte : BitVec 8) : Except Fault (BitVec 8 × Can) :=
  match s.modReg.stage with
  | .address => return (0#8, { s with modReg := { s.modReg with address := byte, stage := .mask } })
  | .mask => return (0#8, { s with modReg := { s.modReg with mask := byte, stage := .data } })
  | .data => do
    let address := s.modReg.address.toNat
    let mask := s.modReg.mask
    let s := { s with modReg := { s.modReg with data := byte, stage := .address }, state := .init }
    let old ← s.register address
    let s ← s.setRegister address (old &&& ~~~mask)
    let old ← s.register address
    let s ← s.setRegister address (old ||| byte)
    return (0#8, s)

/-- The payload ends at the length of the buffer, which may be zero. -/
def loadTxBuf (no : Nat) (byte : BitVec 8) : Except Fault (BitVec 8 × Can) :=
  match s.loadTx.stage with
  | .id => do
    let s ← s.setTxBuf no 0 s.loadTx.payloadPtr.toNat 4 byte
    let ptr := s.loadTx.payloadPtr + 1#8
    return (0#8, { s with loadTx := if ptr = 4#8 then ⟨.length, 0#8⟩ else ⟨.id, ptr⟩ })
  | .length => do
    let s ← s.setTxBuf no 4 0 1 byte
    return (0#8, { s with loadTx := { s.loadTx with stage := .payload } })
  | .payload => do
    let s ← s.setTxBuf no McpFrame.payloadOffset s.loadTx.payloadPtr.toNat CANFD_MAX_DLEN byte
    let ptr := s.loadTx.payloadPtr + 1#8
    if ptr = (s.txBuf no).length then return (0#8, { s with loadTx := ⟨.id, 0#8⟩, state := .init })
    else return (0#8, { s with loadTx := { s.loadTx with payloadPtr := ptr } })

/-- The number for all buffers is three, but four is the one that is replaced. -/
def sendTxBuf (no : Nat) : Except Fault (BitVec 8 × Can) := do
  let no := if no = 4 then 0 else no
  within no 3
  let length := (s.txBuf no).length
  -- the payload is copied to a frame that has room for eight bytes
  check (length.toNat ≤ CAN_MAX_DLEN) .undefined
  check (length.toNat ≤ CANFD_MAX_DLEN) .undefined
  let payload := (s.txBuf no).read McpFrame.payloadOffset length.toNat
  let frame : SentFrame := ⟨(mcp2515BufToId (s.txBuf no).idField).1, length,
    payload ++ List.replicate (CAN_MAX_DLEN - length.toNat) 0#8⟩
  let s ← { s with sent := s.sent ++ [frame] }.setRegister TXB0CTRL 0#8
  return (0#8, { s with state := .readRegister })

def readRxBuf (no : Nat) : Except Fault (BitVec 8 × Can) := do
  within no 2
  within s.rxPtr.toNat McpFrame.rawSize
  let ret := s.rxBuf no s.rxPtr.toNat
  let ptr := s.rxPtr + 1#8
  if (s.rxBuf no).length.toNat + 4 < ptr.toNat then
    return (ret, { s with rxPtr := 0#8, state := .init, status := s.status &&& ~~~(1#8 <<< no) })
  else return (ret, { s with rxPtr := ptr })

def write (byte : BitVec 8) : Except Fault (BitVec 8 × Can) :=
  match s.state with
  | .init => return (0#8, s.command byte)
  | .readRegister => s.readRegister byte
  | .writeRegister => s.writeRegister byte
  | .bitmod => s.modifyRegister byte
  | .loadTX0 => s.loadTxBuf 0 byte
  | .loadTX1 => s.loadTxBuf 1 byte
  | .loadTX2 => s.loadTxBuf 2 byte
  | .sendTX0 => s.sendTxBuf 0
  | .sendTX1 => s.sendTxBuf 1
  | .sendTX2 => s.sendTxBuf 2
  | .sendALL => s.sendTxBuf 3
  | .readRX0 => s.readRxBuf 0
  | .readRX1 => s.readRxBuf 1
  | .getStatus => return (s.status, { s with state := .init })

/-- A buffer that holds a frame. The identifier is stored in the standard format. -/
def received (frame : CanFrame) : Except Fault McpFrame := do
  let id := mcp2515IdToBuf (frame.canId.setWidth 64) false
  check (frame.canDlc.toNat ≤ CANFD_MAX_DLEN) .undefined
  return ((Bytes.write (fun _ ↦ 0#8) 0 [id.sidh, id.sidl, id.eid8, id.eid0]).write 4
    [frame.canDlc]).write McpFrame.payloadOffset (frame.data.read 0 frame.canDlc.toNat)

/-- The frame is stored in the first free buffer, or dropped. -/
def enqueueIncomingCanFrame (frame : CanFrame) : Except Fault Can :=
  if s.status &&& 0b11#8 = 0b11#8 then return s
  else do
    let i := if s.status &&& 1#8 = 0#8 then 0 else 1
    let buffer ← received frame
    return { s with
      rxBuf := fun n ↦ if n = i then buffer else s.rxBuf n
      status := s.status ||| 1#8 <<< i }

/-- A byte from the bus, or a frame that comes in. -/
inductive Event
  | spi (byte : BitVec 8)
  | incoming (frame : CanFrame)

def step : Event → Except Fault Can
  | .spi byte => do
    let (_, s) ← s.write byte
    return s
  | .incoming frame => s.enqueueIncomingCanFrame frame

variable {s}

theorem step_spi {byte ret : BitVec 8} {s' : Can} (h : s.write byte = .ok (ret, s')) :
    s.step (.spi byte) = .ok s' := by
  rw [step, h]
  rfl

theorem step_spi_error {byte : BitVec 8} {e : Fault} (h : s.write byte = .error e) :
    s.step (.spi byte) = .error e := by
  rw [step, h]
  rfl

theorem setRegister_of_le {idx : Nat} (h : idx ≤ RXB1SIDH) (value : BitVec 8) :
    s.setRegister idx value = .ok { s with registers := s.registers.write idx [value] } := by
  rw [setRegister, within, check_of (Nat.lt_succ_of_le h)]
  rfl

theorem register_of_le {idx : Nat} (h : idx ≤ RXB1SIDH) : s.register idx = .ok (s.registers idx) := by
  rw [register, within, check_of (Nat.lt_succ_of_le h)]
  rfl

theorem registers_write_write (m : Bytes) (a : Nat) (x y : BitVec 8) :
    (m.write a [x]).write a [y] = m.write a [y] := by
  funext b
  rw [Bytes.write_singleton, Bytes.write_singleton, Bytes.write_singleton]
  split <;> rfl

theorem modifyRegister_data (hs : s.modReg.stage = .data) (byte : BitVec 8) :
    s.modifyRegister byte = if s.modReg.address.toNat ≤ RXB1SIDH then
      .ok (0#8, { s with
        registers := s.registers.write s.modReg.address.toNat
          [(s.registers s.modReg.address.toNat &&& ~~~s.modReg.mask) ||| byte]
        modReg := ⟨.address, s.modReg.address, s.modReg.mask, byte⟩
        state := .init })
      else .error .undefined := by
  unfold modifyRegister register setRegister within
  rw [hs]
  dsimp only
  by_cases haddress : s.modReg.address.toNat ≤ RXB1SIDH
  · have hself : ∀ x, s.registers.write s.modReg.address.toNat [x] s.modReg.address.toNat = x := by
      intro x
      rw [Bytes.write_singleton, if_pos rfl]
    rw [if_pos haddress, check_of (Nat.lt_succ_of_le haddress)]
    refine congrArg (fun registers ↦ Except.ok (0#8, { s with
      registers := registers
      modReg := ⟨.address, s.modReg.address, s.modReg.mask, byte⟩
      state := .init })) ?_
    rw [registers_write_write]
    dsimp only
    rw [hself]
  · have hout : ¬ s.modReg.address.toNat < RXB1SIDH + 1 :=
      fun hlt ↦ haddress (Nat.le_of_lt_succ hlt)
    rw [if_neg haddress, check_of_not hout]
    rfl

end Can

end CoverageVP.Platform
