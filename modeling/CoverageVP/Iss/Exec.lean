import CoverageVP.Iss.Coverage
import CoverageVP.Iss.CsrAccess
import CoverageVP.Iss.Syscall

/-!
# Execution of one instruction

An instruction is fetched and decoded, its operands are classified for the coverage, it is executed,
and its address is counted. The program counter is advanced before the execution; a trap undoes
that.
-/

namespace CoverageVP.Iss

open Clover Instr

/-! ## Fetch and decode -/

/-- A failed fetch leaves no instruction behind. -/
def forgetInstr (e : Thrown) : IssM (BitVec 32) :=
  match e with
  | .trap reason mtval => do
    modify fun s ↦ { s with op := .UNDEF, instr := 0#32 }
    raiseTrap reason mtval
  | .host error => hostError error

def fetch : IssM Unit := do
  let s ← get
  ensure .alignedFetch (s.pc &&& ~~~s.pcAlignmentMask = 0#32)
  let word ← tryCatch (loadInstr s.pc) forgetInstr
  modify fun s ↦ { s with instr := word }

def decodeUncompressed : IssM Unit :=
  modify fun s ↦ { s with op := decodeNormal .RV32 s.instr, pc := s.pc + 4#32 }

def decodeExpanded (op : Opcode) (instr : Instruction) : IssM Unit := do
  modify fun s ↦ { s with op := op, instr := instr, pc := s.pc + 2#32 }
  let s ← get
  raiseIllegalInstructionIf (op ≠ .UNDEF ∧ s.csrs.hasCExtension = false)

def decode : IssM Unit := do
  let s ← get
  if s.instr.isCompressed then
    match decodeAndExpandCompressed s.instr .RV32 with
    | some (op, instr) => decodeExpanded op instr
    | none => hostError (.runtimeError "compressed instruction expected, but uncompressed found")
  else decodeUncompressed

/-- The registers that the format of an instruction reads. -/
def State.operands (s : State) : Format → List (BitVec 5)
  | .B | .S | .R => [s.rs1, s.rs2]
  | .I => [s.rs1]
  | _ => []

def classifyOperands : IssM (Bool × Bool) := do
  let s ← get
  match s.coverage with
  | none => return (false, false)
  | some _ =>
    if getType s.op = .R4 then hostError (.string "Opcode::Type::R4 not supported yet")
    else
      let rops := s.operands (getType s.op)
      return (rops.any fun r ↦ (s.regs r).tainted, rops.any fun r ↦ (s.regs r).symbolic.isSome)

namespace State

variable (s : State)

def iImm : ConcolicValue := (constant s.instr.iImm).sext 32
def sImm : ConcolicValue := (constant s.instr.sImm).sext 32
def uImm : ConcolicValue := constant s.instr.uImm
def shamtImm : ConcolicValue := constant s.instr.shamt

/-- The value that an instruction without other effects writes to its destination. -/
def registerResult : Opcode → Option ConcolicValue
  | .ADDI => some ((s.regs s.rs1).add s.iImm)
  | .SLTI => some ((s.regs s.rs1).slt s.iImm)
  | .SLTIU => some ((s.regs s.rs1).ult s.iImm)
  | .XORI => some ((s.regs s.rs1).bxor s.iImm)
  | .ORI => some ((s.regs s.rs1).bor s.iImm)
  | .ANDI => some ((s.regs s.rs1).band s.iImm)
  | .ADD => some ((s.regs s.rs1).add (s.regs s.rs2))
  | .SUB => some ((s.regs s.rs1).sub (s.regs s.rs2))
  | .SLL => some ((s.regs s.rs1).lshl (s.regs.shamt s.rs2))
  | .SLT => some ((s.regs s.rs1).slt (s.regs s.rs2))
  | .SLTU => some ((s.regs s.rs1).ult (s.regs s.rs2))
  | .SRL => some ((s.regs s.rs1).lshr (s.regs.shamt s.rs2))
  | .SRA => some ((s.regs s.rs1).ashr (s.regs.shamt s.rs2))
  | .XOR => some ((s.regs s.rs1).bxor (s.regs s.rs2))
  | .OR => some ((s.regs s.rs1).bor (s.regs s.rs2))
  | .AND => some ((s.regs s.rs1).band (s.regs s.rs2))
  | .SLLI => some ((s.regs s.rs1).lshl s.shamtImm)
  | .SRLI => some ((s.regs s.rs1).lshr s.shamtImm)
  | .SRAI => some ((s.regs s.rs1).ashr s.shamtImm)
  | .LUI => some s.uImm
  | .AUIPC => some ((constant s.lastPc).add s.uImm)
  | _ => none

/-- The condition of a conditional branch. -/
def branchResult : Opcode → Option ConcolicValue
  | .BEQ => some ((s.regs s.rs1).eq (s.regs s.rs2))
  | .BNE => some ((s.regs s.rs1).ne (s.regs s.rs2))
  | .BLT => some ((s.regs s.rs1).slt (s.regs s.rs2))
  | .BGE => some ((s.regs s.rs1).sge (s.regs s.rs2))
  | .BLTU => some ((s.regs s.rs1).ult (s.regs s.rs2))
  | .BGEU => some ((s.regs s.rs1).uge (s.regs s.rs2))
  | _ => none

end State

/-! ## Jumps and branches -/

def trapCheckPcAlignment : IssM Unit := do
  let s ← get
  ensure .evenTarget (s.pc &&& 1#32 = 0#32)
  raiseTrapIf (s.pc &&& 3#32 ≠ 0#32 ∧ s.csrs.hasCExtension = false) .INSTR_ADDR_MISALIGNED
    (s.pc.setWidth 64)

def jump (target : BitVec 32) : IssM Unit := do
  modify fun s ↦ { s with pc := target }
  trapCheckPcAlignment

/-- The address of the next instruction is linked after the jump has been checked. -/
def jumpAndLink (target : BitVec 32) : IssM Unit := do
  let s ← get
  jump target
  modify (·.writeReg s.rd (constant s.pc))

def trackAndTraceBranch (cond : Bool) (res : ConcolicValue) : IssM Unit :=
  match res.symbolic with
  | some e => modify fun s ↦ { s with tracer := s.tracer ++ [(cond, e)] }
  | none => pure ()

/-- The outcome of a condition is that of its concrete part. -/
def evalCondition (res : ConcolicValue) : Bool := res.concrete = .ofBool true

def jumpIf (cond : Bool) (target : BitVec 32) : IssM Unit :=
  if cond then jump target else pure ()

def execBranch (res : ConcolicValue) : IssM Unit := do
  let s ← get
  jumpIf (evalCondition res) (s.lastPc + s.instr.bImm)
  trackAndTraceBranch (evalCondition res) res

def trapCheckAddrAlignment (alignment : Nat) (reason : ExceptionCode) (addr : ConcolicValue) :
    IssM Unit :=
  raiseTrapIf ((getValue addr).toNat % alignment ≠ 0) reason ((getValue addr).setWidth 64)

/-- A value loaded from a symbolic address is tainted. The result says whether it was. -/
def taintLoaded (addr : ConcolicValue) : IssM Bool :=
  if addr.symbolic.isSome then do
    modify fun s ↦ { s with regs := s.regs.taint s.rd }
    return true
  else return false

def execLoad (alignment : Nat) (load : ConcolicValue → IssM ConcolicValue) : IssM Bool := do
  let s ← get
  let addr := (s.regs s.rs1).add s.iImm
  trapCheckAddrAlignment alignment .LOAD_ADDR_MISALIGNED addr
  let value ← load addr
  modify (·.writeReg s.rd value)
  taintLoaded addr

def execStore (alignment : Nat) (store : ConcolicValue → ConcolicValue → IssM Unit) :
    IssM Unit := do
  let s ← get
  let addr := (s.regs s.rs1).add s.sImm
  trapCheckAddrAlignment alignment .STORE_AMO_ADDR_MISALIGNED addr
  store addr (s.regs s.rs2)

def unknownPrivilegeLevel (prv : Nat) : HostError :=
  .runtimeError ("unknown privilege level " ++ toString prv)

def raiseEcall : IssM Unit := do
  let s ← get
  if s.prv = MachineMode then raiseTrap .ECALL_M_MODE (s.lastPc.setWidth 64)
  else if s.prv = SupervisorMode then raiseTrap .ECALL_S_MODE (s.lastPc.setWidth 64)
  else if s.prv = UserMode then raiseTrap .ECALL_U_MODE (s.lastPc.setWidth 64)
  else hostError (unknownPrivilegeLevel s.prv)

def execEcall (env : Env) : IssM Unit := do
  let s ← get
  match s.sys with
  | some sys => if getValue (s.regs RegFile.a7) ≠ 0#32 then executeSyscall env sys else raiseEcall
  | none => raiseEcall

def execEbreak : IssM Unit := modify fun s ↦ { s with status := .HitBreakpoint }

def releaseLrScReservation : IssM Unit := modify fun s ↦ { s with lrScCounter := 0 }

/-- Waiting for an interrupt takes time only. -/
def execWfi : IssM Unit := do
  releaseLrScReservation
  let s ← get
  raiseIllegalInstructionIf (s.prv = SupervisorMode ∧ s.csrs.mstatusTw = 1#1)
  raiseIllegalInstructionIf (s.prv = UserMode ∧ s.csrs.hasSupervisorModeExtension = true)

namespace CsrTable

variable (csrs : CsrTable)

/-- The previous mode of a return is reset to the least privileged one. -/
def leastMode (other : BitVec 2) : BitVec 2 := if csrs.hasUserModeExtension then 0#2 else other

def returnMachine : CsrTable :=
  ((csrs.setMstatus 3 csrs.mstatusMpie).setMstatus 7 1#1).setMstatus 11 (csrs.leastMode 3#2)

def returnSupervisor : CsrTable :=
  ((csrs.setMstatus 1 csrs.mstatusSpie).setMstatus 5 1#1).setMstatus 8
    ((csrs.leastMode 1#2).setWidth 1)

def returnUser : CsrTable := (csrs.setMstatus 0 csrs.mstatusUpie).setMstatus 4 1#1

end CsrTable

def returnFromTrapHandler (returnMode : Nat) : IssM Unit :=
  if returnMode = MachineMode then
    modify fun s ↦ { s with
      prv := s.csrs.mstatusMpp.toNat, csrs := s.csrs.returnMachine, pc := s.csrs .mepc }
  else if returnMode = SupervisorMode then
    modify fun s ↦ { s with
      prv := s.csrs.mstatusSpp.toNat, csrs := s.csrs.returnSupervisor, pc := s.csrs .sepc }
  else if returnMode = UserMode then
    modify fun s ↦ { s with prv := UserMode, csrs := s.csrs.returnUser, pc := s.csrs .uepc }
  else hostError (unknownPrivilegeLevel returnMode)

/-! ## The instructions -/

/-- The CSR instructions with the operand they write, set or clear. -/
def execCsr (env : Env) (op : Opcode) : IssM Unit := do
  let s ← get
  let rs1 := getValue (s.regs s.rs1)
  let zimm := s.instr.zimm
  match op with
  | .CSRRW => csrReadWrite env rs1
  | .CSRRS => csrReadModify env (s.rs1 ≠ RegFile.zero) (· ||| rs1)
  | .CSRRC => csrReadModify env (s.rs1 ≠ RegFile.zero) (· &&& ~~~rs1)
  | .CSRRWI => csrReadWrite env zimm
  | .CSRRSI => csrReadModify env (zimm ≠ 0#32) (· ||| zimm)
  | _ => csrReadModify env (zimm ≠ 0#32) (· &&& ~~~zimm)

/-- The instructions that do not compute a register or a condition. The result says whether the
concrete part of a symbolic value was used as the address of a load. -/
def executeOther (env : Env) (op : Opcode) : IssM Bool :=
  match op with
  | .UNDEF => raiseIllegalInstruction
  | .JAL => do
    let s ← get
    jumpAndLink (s.lastPc + s.instr.jImm)
    return false
  | .JALR => do
    let s ← get
    jumpAndLink ((getValue (s.regs s.rs1) + s.instr.iImm) &&& ~~~1#32)
    return false
  | .SB => do
    execStore 1 storeByte
    return false
  | .SH => do
    execStore 2 storeHalf
    return false
  | .SW => do
    execStore 4 storeWord
    return false
  | .LB => execLoad 1 loadByte
  | .LH => execLoad 2 loadHalf
  | .LW => execLoad 4 loadWord
  | .LBU => execLoad 1 loadUbyte
  | .LHU => execLoad 2 loadUhalf
  | .FENCE | .FENCE_I => return false
  | .ECALL => do
    execEcall env
    return false
  | .EBREAK => do
    execEbreak
    return false
  | .CSRRW | .CSRRS | .CSRRC | .CSRRWI | .CSRRSI | .CSRRCI => do
    execCsr env op
    return false
  | .WFI => do
    execWfi
    return false
  | .MRET => do
    returnFromTrapHandler MachineMode
    return false
  | _ => hostError (.runtimeError "unknown opcode")

def execute (env : Env) : IssM Bool := do
  let s ← get
  match s.registerResult s.op with
  | some value => do
    modify (·.writeReg s.rd value)
    return false
  | none =>
    match s.branchResult s.op with
    | some res => do
      execBranch res
      return false
    | none => executeOther env s.op

def execStep (env : Env) : IssM Unit := do
  fetch
  decode
  let flags ← classifyOperands
  let init ← execute env
  cover env ⟨flags.1, flags.2, init⟩

end CoverageVP.Iss
