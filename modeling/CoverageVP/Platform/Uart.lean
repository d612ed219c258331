import CoverageVP.Lib.Bytes
import CoverageVP.Lib.Sequences

/-!
# The serial interface

Three threads share two queues: the receiver puts the bytes that it gets from the host into one of them,
the bus reads and writes registers, by which it takes bytes out of this queue and puts bytes into the
other one, and the transmitter takes bytes out of that one. Each queue has a lock and a semaphore. A
thread takes one step at a time: it waits for a semaphore, locks, accesses a queue, unlocks, posts, or
notifies the method that looks at the interrupts.
-/

namespace CoverageVP.Platform

open Lib

/-- The bytes of a register. -/
def registerBytes (n : BitVec 32) : Bytes := fun i ↦ n.extractLsb' (8 * i) 8

namespace Uart

inductive Register
  | txdata | rxdata | txctrl | rxctrl | ie | ip | div
  deriving DecidableEq, Repr

/-- The number of entries of a queue. -/
def fifoDepth : Nat := 8

def TXWM : BitVec 32 := 1#32

def RXWM : BitVec 32 := 2#32

def FULL : BitVec 32 := 0x80000000#32

/-- The threshold in a control register. -/
def ctrlCnt (reg : BitVec 32) : Nat := reg.toNat >>> 16

/-! ## Accesses -/

/-- A read within a register: the place and the number of the bytes that are read. -/
structure Read where
  off : Nat
  len : Nat
  fits : len + off ≤ 4
  deriving DecidableEq, Repr

/-- What a read returns: the addressed bytes of the register. -/
def Read.data (r : Read) (value : BitVec 32) : List (BitVec 8) := (registerBytes value).read r.off r.len

/-- A write within a register: the bytes that are written, and those that are stored after them. -/
structure Write where
  reg : Register
  off : Nat
  data : List (BitVec 8)
  after : List (BitVec 8)
  fits : data.length + off ≤ 4
  deriving DecidableEq, Repr

namespace Write

variable (w : Write)

/-- The word at the start of the bytes that are written, whatever their number is. -/
def nv : BitVec 32 := (Bytes.write (fun _ ↦ 0#8) 0 (w.data ++ w.after)).word 32 0

/-- The register after the write. -/
def value (old : BitVec 32) : BitVec 32 :=
  ((registerBytes old).write w.off w.data).word 32 0

end Write

/-- A hart reads bytes of a register, or writes some of them. -/
inductive Request
  | read (reg : Register) (r : Read)
  | write (w : Write)

/-- A read of `rxdata`: its access, the register, and the bytes that it returned. -/
structure Reading where
  read : Read
  value : BitVec 32
  data : List (BitVec 8)
  deriving DecidableEq, Repr

/-- A write of `txdata` that was put into the queue, and the byte that was put there. -/
structure Writing where
  write : Write
  byte : BitVec 8
  deriving DecidableEq, Repr

/-! ## Threads -/

inductive Thread
  | receive | bus | transmit
  deriving DecidableEq, Repr

/-- The next step of the receiver. -/
inductive Receive
  | idle
  | waiting (data : BitVec 8)
  | locking (data : BitVec 8)
  | pushing (data : BitVec 8)
  | unlocking
  | notifying
  deriving DecidableEq, Repr

/-- The next step of the transmitter. -/
inductive Transmit
  | waiting
  | locking
  | popping
  | unlocking (data : BitVec 8)
  | notifying (data : BitVec 8)
  | writing (data : BitVec 8)
  deriving DecidableEq, Repr

/-- The next step of the bus: of a read of the three registers that look at the queues, of the access to
the register itself, of a write that is to be transmitted, or of the method for the interrupts. -/
inductive Bus
  | idle
  | txdataLocking (r : Read) | txdataReading (r : Read) | txdataUnlocking (r : Read)
  | rxdataLocking (r : Read) | rxdataPopping (r : Read) | rxdataPosting (r : Read)
  | rxdataUnlocking (r : Read)
  | ipTxLocking (r : Read) | ipTxReading (r : Read) | ipTxUnlocking (r : Read) (ret : BitVec 32)
  | ipRxLocking (r : Read) (ret : BitVec 32) | ipRxReading (r : Read) (ret : BitVec 32)
  | ipRxUnlocking (r : Read) (ret : BitVec 32)
  | readCalling (reg : Register) (r : Read)
  | writeCalling (w : Write) (notify : Bool)
  | notifying (w : Write)
  | pushLocking (w : Write) | pushChecking (w : Write) | pushing (w : Write)
  | pushUnlocking (pushed : Bool) | posting
  | irqRx | irqRxLocking | irqRxReading | irqRxUnlocking (trigger : Bool)
  | irqTx (trigger : Bool) | irqTxLocking (trigger : Bool) | irqTxReading (trigger : Bool)
  | irqTxUnlocking (trigger : Bool) | irqTriggering (trigger : Bool)
  deriving DecidableEq, Repr

end Uart

open Uart

/-- The registers, the queues with their semaphores and locks, the event of the method, the threads, and
what has happened: the bytes that the receiver was given, the reads of `rxdata`, the writes of `txdata`
while the queue had room, the bytes that were transmitted, and the numbers of notifications and of
interrupts. -/
structure Uart where
  regs : Register → BitVec 32
  txFifo : List (BitVec 8)
  rxFifo : List (BitVec 8)
  txfull : Nat
  rxempty : Nat
  txmtx : Option Thread
  rcvmtx : Option Thread
  asyncEvent : Bool
  receive : Receive
  bus : Bus
  transmit : Transmit
  pushed : List (BitVec 8)
  reads : List Reading
  accepted : List Writing
  transmitted : List (BitVec 8)
  notifications : Nat
  triggers : Nat

namespace Uart

def initial : Uart where
  regs := fun _ ↦ 0#32
  txFifo := []
  rxFifo := []
  txfull := 0
  rxempty := fifoDepth
  txmtx := none
  rcvmtx := none
  asyncEvent := false
  receive := .idle
  bus := .idle
  transmit := .waiting
  pushed := []
  reads := []
  accepted := []
  transmitted := []
  notifications := 0
  triggers := 0

/-- Why a thread does not take a step: it has to wait, or its step is undefined. -/
inductive Stop
  | blocked | undefined
  deriving DecidableEq, Repr

/-- The threads take a step, the receiver is given a byte, a hart accesses a register, or the method for
the interrupts starts. -/
inductive Move
  | receive | bus | transmit
  | rxpush (data : BitVec 8)
  | request (r : Request)
  | interrupt

variable (s : Uart)

def setReg (reg : Register) (value : BitVec 32) : Uart :=
  { s with regs := fun r ↦ if r = reg then value else s.regs r }

def lockTx (t : Thread) : Except Stop Uart :=
  if s.txmtx = none then .ok { s with txmtx := some t } else .error .blocked

def lockRcv (t : Thread) : Except Stop Uart :=
  if s.rcvmtx = none then .ok { s with rcvmtx := some t } else .error .blocked

def notify : Uart := { s with asyncEvent := true, notifications := s.notifications + 1 }

/-- The byte that is to be transmitted. -/
def txByte : BitVec 8 := (s.regs .txdata).setWidth 8

/-- The receive queue is above its threshold. -/
def rxAbove : Bool := ctrlCnt (s.regs .rxctrl) < s.rxFifo.length

/-- The transmit queue is below its threshold. -/
def txBelow : Bool := s.txFifo.length < ctrlCnt (s.regs .txctrl)

/-- A write lowers a threshold, as far as the word of the access tells. -/
def lowers (w : Write) : Bool :=
  (w.reg = .txctrl || w.reg = .rxctrl) && ctrlCnt w.nv < ctrlCnt (s.regs w.reg)

/-! ## Steps -/

def receiveStep : Except Stop Uart :=
  match s.receive with
  | .idle => .error .blocked
  | .waiting data =>
    if s.rxempty = 0 then .error .blocked
    else .ok { s with rxempty := s.rxempty - 1, receive := .locking data }
  | .locking data => do
    let s ← s.lockRcv .receive
    return { s with receive := .pushing data }
  | .pushing data => .ok { s with rxFifo := s.rxFifo ++ [data], receive := .unlocking }
  | .unlocking => .ok { s with rcvmtx := none, receive := .notifying }
  | .notifying => .ok { s.notify with receive := .idle }

/-- There is nothing to take out of an empty queue. -/
def transmitStep : Except Stop Uart :=
  match s.transmit with
  | .waiting =>
    if s.txfull = 0 then .error .blocked
    else .ok { s with txfull := s.txfull - 1, transmit := .locking }
  | .locking => do
    let s ← s.lockTx .transmit
    return { s with transmit := .popping }
  | .popping =>
    match s.txFifo with
    | [] => .error .undefined
    | data :: rest => .ok { s with txFifo := rest, transmit := .unlocking data }
  | .unlocking data => .ok { s with txmtx := none, transmit := .notifying data }
  | .notifying data => .ok { s.notify with transmit := .writing data }
  | .writing data =>
    .ok { s with transmitted := s.transmitted ++ [data], transmit := .waiting }

def busStep : Except Stop Uart :=
  match s.bus with
  | .idle => .error .blocked
  -- a read of `txdata`
  | .txdataLocking r => do
    let s ← s.lockTx .bus
    return { s with bus := .txdataReading r }
  | .txdataReading r =>
    .ok { s.setReg .txdata (if fifoDepth ≤ s.txFifo.length then FULL else 0#32) with
      bus := .txdataUnlocking r }
  | .txdataUnlocking r => .ok { s with txmtx := none, bus := .readCalling .txdata r }
  -- a read of `rxdata`
  | .rxdataLocking r => do
    let s ← s.lockRcv .bus
    return { s with bus := .rxdataPopping r }
  | .rxdataPopping r =>
    match s.rxFifo with
    | [] => .ok { s.setReg .rxdata FULL with bus := .rxdataUnlocking r }
    | data :: rest =>
      .ok { s.setReg .rxdata (data.setWidth 32) with rxFifo := rest, bus := .rxdataPosting r }
  | .rxdataPosting r => .ok { s with rxempty := s.rxempty + 1, bus := .rxdataUnlocking r }
  | .rxdataUnlocking r => .ok { s with rcvmtx := none, bus := .readCalling .rxdata r }
  -- a read of `ip`
  | .ipTxLocking r => do
    let s ← s.lockTx .bus
    return { s with bus := .ipTxReading r }
  | .ipTxReading r => .ok { s with bus := .ipTxUnlocking r (if s.txBelow then TXWM else 0#32) }
  | .ipTxUnlocking r ret => .ok { s with txmtx := none, bus := .ipRxLocking r ret }
  | .ipRxLocking r ret => do
    let s ← s.lockRcv .bus
    return { s with bus := .ipRxReading r ret }
  | .ipRxReading r ret =>
    .ok { s with bus := .ipRxUnlocking r (if s.rxAbove then ret ||| RXWM else ret) }
  | .ipRxUnlocking r ret => .ok { s.setReg .ip ret with rcvmtx := none, bus := .readCalling .ip r }
  -- the access itself
  | .readCalling reg r =>
    .ok { s with
      reads := if reg = .rxdata then s.reads ++ [⟨r, s.regs reg, r.data (s.regs reg)⟩] else s.reads
      bus := .idle }
  | .writeCalling w notify =>
    .ok { s.setReg w.reg (w.value (s.regs w.reg)) with
      bus := if notify || w.reg = .ie then .notifying w
        else if w.reg = .txdata then .pushLocking w else .idle }
  | .notifying w => .ok { s.notify with bus := if w.reg = .txdata then .pushLocking w else .idle }
  -- a byte that is to be transmitted, which is ignored if the queue is full
  | .pushLocking w => do
    let s ← s.lockTx .bus
    return { s with bus := .pushChecking w }
  | .pushChecking w =>
    if fifoDepth ≤ s.txFifo.length then .ok { s with bus := .pushUnlocking false }
    else .ok { s with accepted := s.accepted ++ [⟨w, s.txByte⟩], bus := .pushing w }
  | .pushing _ => .ok { s with txFifo := s.txFifo ++ [s.txByte], bus := .pushUnlocking true }
  | .pushUnlocking pushed => .ok { s with txmtx := none, bus := if pushed then .posting else .idle }
  | .posting => .ok { s with txfull := s.txfull + 1, bus := .idle }
  -- the method for the interrupts
  | .irqRx =>
    .ok { s with bus := if s.regs .ie &&& RXWM ≠ 0#32 then .irqRxLocking else .irqTx false }
  | .irqRxLocking => do
    let s ← s.lockRcv .bus
    return { s with bus := .irqRxReading }
  | .irqRxReading => .ok { s with bus := .irqRxUnlocking s.rxAbove }
  | .irqRxUnlocking trigger => .ok { s with rcvmtx := none, bus := .irqTx trigger }
  | .irqTx trigger =>
    .ok { s with
      bus := if s.regs .ie &&& TXWM ≠ 0#32 then .irqTxLocking trigger else .irqTriggering trigger }
  | .irqTxLocking trigger => do
    let s ← s.lockTx .bus
    return { s with bus := .irqTxReading trigger }
  | .irqTxReading trigger => .ok { s with bus := .irqTxUnlocking (trigger || s.txBelow) }
  | .irqTxUnlocking trigger => .ok { s with txmtx := none, bus := .irqTriggering trigger }
  | .irqTriggering trigger =>
    .ok { s with triggers := if trigger then s.triggers + 1 else s.triggers, bus := .idle }

/-- The first step of an access. -/
def access : Request → Bus
  | .read .txdata r => .txdataLocking r
  | .read .rxdata r => .rxdataLocking r
  | .read .ip r => .ipTxLocking r
  | .read reg r => .readCalling reg r
  | .write w => .writeCalling w (s.lowers w)

def step (s : Uart) : Move → Except Stop Uart
  | .receive => s.receiveStep
  | .bus => s.busStep
  | .transmit => s.transmitStep
  | .rxpush data =>
    if s.receive = .idle then .ok { s with pushed := s.pushed ++ [data], receive := .waiting data }
    else .error .blocked
  | .request r => if s.bus = .idle then .ok { s with bus := s.access r } else .error .blocked
  | .interrupt =>
    if s.bus = .idle ∧ s.asyncEvent = true then .ok { s with asyncEvent := false, bus := .irqRx }
    else .error .blocked

end Uart

end CoverageVP.Platform
