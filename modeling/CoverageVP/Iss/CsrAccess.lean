import CoverageVP.Iss.State

/-!
# CSR accesses of the guest

The privilege that an address requires is encoded in the address. A read or write of an address that
is not special goes to the physical register it is mapped to.
-/

namespace CoverageVP.Iss

open Csr

/-- The lowest privilege level that may access an address. -/
def csrPrivilege (addr : Nat) : Nat := (0x300 &&& addr) >>> 8

def csrReadonly (addr : Nat) : Bool := (0xC00 &&& addr) >>> 10 = 3

/-- A write of a read-only register, or an access without the privilege or without the mode. -/
def State.csrAccessInvalid (s : State) (addr : Nat) (isWrite : Bool) : Bool :=
  (isWrite && csrReadonly addr) || s.prv < csrPrivilege addr ||
    (csrPrivilege addr = SupervisorMode && !s.csrs.hasSupervisorModeExtension) ||
    (csrPrivilege addr = UserMode && !s.csrs.hasUserModeExtension)

def isInvalidCsrAccess (addr : Nat) (isWrite : Bool) : IssM Bool := do
  let s ← get
  raiseIllegalInstructionIf
    ((addr = FFLAGS_ADDR ∨ addr = FRM_ADDR ∨ addr = FCSR_ADDR) ∧ s.csrs.hasFExtension = false)
  return s.csrAccessInvalid addr isWrite

/-- Bit `cnt` of a counter enable register. -/
def CsrTable.counterEnabled (csrs : CsrTable) (r : CsrReg) (cnt : Nat) : Bool :=
  (csrs r).getLsbD cnt

/-- The counters are visible to a lower mode when the enable registers of the modes above allow
it. -/
def validateCsrCounterReadAccessRights (addr : Nat) : IssM Unit := do
  let s ← get
  let cnt := addr &&& 0x1F
  raiseIllegalInstructionIf
    (((0xC00 ≤ addr ∧ addr ≤ 0xC1F) ∨ (0xC80 ≤ addr ∧ addr ≤ 0xC9F)) ∧
      ((s.prv = SupervisorMode ∧ s.csrs.counterEnabled .mcounteren cnt = false) ∨
        (s.prv = UserMode ∧ (s.csrs.counterEnabled .mcounteren cnt = false ∨
          s.csrs.counterEnabled .scounteren cnt = false))))

def defaultRead32 (addr : Nat) : IssM (BitVec 32) :=
  match registerAt addr with
  | some r => do return (← get).csrs r
  | none => raiseIllegalInstruction

def defaultWrite32 (addr : Nat) (value : BitVec 32) : IssM Unit :=
  match registerAt addr with
  | some r => modify (·.setCsr r value)
  | none => raiseIllegalInstruction

/-- The clock is read into the time register. -/
def updateTime (env : Env) : IssM Unit :=
  modify fun s ↦
    { s with
      csrs := s.csrs.set64 .time .timeh (env.mtime s.mtimeReads)
      mtimeReads := s.mtimeReads + 1 }

def updateCycle : IssM Unit :=
  modify fun s ↦
    { s with csrs := s.csrs.set64 .cycle .cycleh (BitVec.ofNat 64 s.cycleCounter) }

def readCsr (r : CsrReg) : IssM (BitVec 32) := do return (← get).csrs r

def getCsrValue (env : Env) (addr : Nat) : IssM (BitVec 32) := do
  validateCsrCounterReadAccessRights addr
  match readMask addr with
  | some (r, mask) => do return (← readCsr r) &&& mask
  | none =>
    match addr with
    | TIME_ADDR | MTIME_ADDR => do
      updateTime env
      readCsr .time
    | TIMEH_ADDR | MTIMEH_ADDR => do
      updateTime env
      readCsr .timeh
    | MCYCLE_ADDR => do
      updateCycle
      readCsr .cycle
    | MCYCLEH_ADDR => do
      updateCycle
      readCsr .cycleh
    | MINSTRET_ADDR => readCsr .instret
    | MINSTRETH_ADDR => readCsr .instreth
    | SATP_ADDR => do
      let s ← get
      raiseIllegalInstructionIf (s.csrs.mstatusTvm = 1#1)
      defaultRead32 addr
    | FFLAGS_ADDR => do return (← get).csrs.fcsrFflags.setWidth 32
    | FRM_ADDR => do return (← get).csrs.fcsrFrm.setWidth 32
    | TSELECT_ADDR => return 1#32
    | _ => if isDebug addr || isHpmCounter addr then return 0#32 else defaultRead32 addr

/-- Only the bits under the mask are written. -/
def maskedWrite (old mask value : BitVec 32) : BitVec 32 := (old &&& ~~~mask) ||| (value &&& mask)

def writeCsr (r : CsrReg) (mask value : BitVec 32) : IssM Unit :=
  modify fun s ↦ s.setCsr r (maskedWrite (s.csrs r) mask value)

def setCsrValue (addr : Nat) (value : BitVec 32) : IssM Unit := do
  let s ← get
  match writeMask s.pcAlignmentMask addr with
  | some (r, mask) => writeCsr r mask value
  | none =>
    match addr with
    | MISA_ADDR => return
    | SATP_ADDR => do
      raiseIllegalInstructionIf (s.csrs.mstatusTvm = 1#1)
      writeCsr .satp SATP_MASK value
    | FFLAGS_ADDR =>
      modify fun s ↦ s.setCsr .fcsr (setField (s.csrs .fcsr) 0 (value.setWidth 5))
    | FRM_ADDR => modify fun s ↦ s.setCsr .fcsr (setField (s.csrs .fcsr) 5 (value.setWidth 3))
    | _ => if isDebug addr || isHpmCounter addr then return else defaultWrite32 addr value

/-! ## The CSR instructions -/

/-- The old value is written to the destination, unless that is `x0`. -/
def writeOldValue (old : BitVec 32) : IssM Unit := do
  let s ← get
  if s.rd ≠ RegFile.zero then modify (·.writeReg s.rd (constant old)) else pure ()

/-- The instructions that write their operand. The register is read only if it is needed. -/
def csrReadWrite (env : Env) (value : BitVec 32) : IssM Unit := do
  let s ← get
  let invalid ← isInvalidCsrAccess s.instr.csr.toNat true
  if invalid then raiseIllegalInstruction
  else if s.rd ≠ RegFile.zero then do
    let old ← getCsrValue env s.instr.csr.toNat
    writeOldValue old
    setCsrValue s.instr.csr.toNat value
  else setCsrValue s.instr.csr.toNat value

/-- The instructions that set or clear bits. The register is written only if the operand field is
not zero. -/
def csrReadModify (env : Env) (write : Bool) (update : BitVec 32 → BitVec 32) : IssM Unit := do
  let s ← get
  let invalid ← isInvalidCsrAccess s.instr.csr.toNat write
  if invalid then raiseIllegalInstruction
  else do
    let old ← getCsrValue env s.instr.csr.toNat
    writeOldValue old
    if write then setCsrValue s.instr.csr.toNat (update old) else pure ()

end CoverageVP.Iss
