import CoverageVP.Iss.Exec

/-!
# Steps and runs

A step executes one instruction and then takes a pending interrupt; a trap of the instruction is
taken instead. Only traps are caught: an exception of the host ends the simulation. Runs interleave
steps with changes of the interrupt lines.
-/

namespace CoverageVP.Iss

open Lib Clover Instr

/-! ## Traps -/

namespace CsrTable

variable (csrs : CsrTable)

def setCause (r : CsrReg) (interrupt : BitVec 1) (code : Nat) : CsrTable :=
  csrs.set r (setField (setField (csrs r) 31 interrupt) 0 (BitVec.ofNat 31 code))

/-- The trap registers of a mode. -/
def causeReg (mode : Nat) : CsrReg :=
  if mode = MachineMode then .mcause else if mode = SupervisorMode then .scause else .ucause

def tvalReg (mode : Nat) : CsrReg :=
  if mode = MachineMode then .mtval else if mode = SupervisorMode then .stval else .utval

def epcReg (mode : Nat) : CsrReg :=
  if mode = MachineMode then .mepc else if mode = SupervisorMode then .sepc else .uepc

def tvecReg (mode : Nat) : CsrReg :=
  if mode = MachineMode then .mtvec else if mode = SupervisorMode then .stvec else .utvec

section TrapRegisters

variable {m s u r : CsrReg}

theorem modeReg_ne (h : r ≠ m ∧ r ≠ s ∧ r ≠ u) (mode : Nat) :
    (if mode = MachineMode then m else if mode = SupervisorMode then s else u) ≠ r := by
  split
  · exact h.1.symm
  split
  · exact h.2.1.symm
  · exact h.2.2.symm

theorem causeReg_ne (h : r ≠ .mcause ∧ r ≠ .scause ∧ r ≠ .ucause) (mode : Nat) :
    causeReg mode ≠ r :=
  modeReg_ne h mode

theorem tvalReg_ne (h : r ≠ .mtval ∧ r ≠ .stval ∧ r ≠ .utval) (mode : Nat) : tvalReg mode ≠ r :=
  modeReg_ne h mode

theorem epcReg_ne (h : r ≠ .mepc ∧ r ≠ .sepc ∧ r ≠ .uepc) (mode : Nat) : epcReg mode ≠ r :=
  modeReg_ne h mode

theorem tvecReg_ne (h : r ≠ .mtvec ∧ r ≠ .stvec ∧ r ≠ .utvec) (mode : Nat) : tvecReg mode ≠ r :=
  modeReg_ne h mode

end TrapRegisters

/-- The interrupt enable bit of a mode is saved and cleared, and the previous mode is recorded. -/
def enterMachine (pp : Nat) : CsrTable :=
  ((csrs.setMstatus 7 csrs.mstatusMie).setMstatus 3 0#1).setMstatus 11 (BitVec.ofNat 2 pp)

def enterSupervisor (pp : Nat) : CsrTable :=
  ((csrs.setMstatus 5 csrs.mstatusSie).setMstatus 1 0#1).setMstatus 8 (BitVec.ofNat 1 pp)

def enterUser : CsrTable := (csrs.setMstatus 4 csrs.mstatusUie).setMstatus 0 0#1

/-- The mode that takes a trap. -/
def trapTarget (prv : Nat) (reason : ExceptionCode) : Nat :=
  if prv = MachineMode ∨ (csrs .medeleg).getLsbD reason.toNat = false then MachineMode
  else if prv = SupervisorMode ∨ (csrs .sedeleg).getLsbD reason.toNat = false then SupervisorMode
  else UserMode

end CsrTable

/-- The value of a trap has to fit into its register. -/
def recordTrap (mode : Nat) (reason : ExceptionCode) (mtval : BitVec 64) : IssM Unit := do
  modify fun s ↦ { s with csrs := s.csrs.setCause (CsrTable.causeReg mode) 0#1 reason.toNat }
  if 2 ^ 32 ≤ mtval.toNat then hostError .badLexicalCast
  else modify (·.setCsr (CsrTable.tvalReg mode) (mtval.setWidth 32))

def prepareTrap (reason : ExceptionCode) (mtval : BitVec 64) : IssM Nat := do
  modify fun s ↦ { s with pc := s.lastPc }
  let s ← get
  let target := s.csrs.trapTarget s.prv reason
  ensure .userTrap (target = UserMode → s.prv = UserMode)
  recordTrap target reason mtval
  return target

/-- The handler's address; interrupts may have one each. -/
def CsrTable.handlerAddress (csrs : CsrTable) (mode : Nat) : BitVec 32 :=
  let base := csrs.baseAddress (tvecReg mode)
  if csrs.causeInterrupt (causeReg mode) = 1#1 ∧ csrs.vectorMode (tvecReg mode) = Vectored then
    base + 4#32 * (csrs.causeExceptionCode (causeReg mode)).setWidth 32
  else base

/-- The control and status registers after the entry into a mode. -/
def CsrTable.enter (csrs : CsrTable) (mode pp : Nat) (epc : BitVec 32) : CsrTable :=
  let csrs := csrs.set (epcReg mode) epc
  if mode = MachineMode then csrs.enterMachine pp
  else if mode = SupervisorMode then csrs.enterSupervisor pp
  else csrs.enterUser

def switchToTrapHandler (targetMode : Nat) : IssM Unit := do
  releaseLrScReservation
  if targetMode = MachineMode ∨ targetMode = SupervisorMode ∨ targetMode = UserMode then
    modify fun s ↦
      { s with
        prv := targetMode
        csrs := s.csrs.enter targetMode s.prv s.pc
        pc := s.csrs.handlerAddress targetMode }
  else do
    modify fun s ↦ { s with prv := targetMode }
    hostError (unknownPrivilegeLevel targetMode)

/-- The pending and enabled interrupts and the mode that takes them. -/
def State.computePendingInterrupts (s : State) : Option (Nat × BitVec 32) :=
  let pending := s.csrs .mie &&& s.csrs .mip
  let mPending := pending &&& ~~~s.csrs .mideleg
  let sPending := pending &&& s.csrs .mideleg &&& ~~~s.csrs .sideleg
  let uPending := pending &&& s.csrs .mideleg &&& s.csrs .sideleg
  if pending = 0#32 then none
  else if mPending ≠ 0#32 ∧
      (s.prv < MachineMode ∨ (s.prv = MachineMode ∧ s.csrs.mstatusMie = 1#1)) then
    some (MachineMode, mPending)
  else if sPending ≠ 0#32 ∧
      (s.prv < SupervisorMode ∨ (s.prv = SupervisorMode ∧ s.csrs.mstatusSie = 1#1)) then
    some (SupervisorMode, sPending)
  else if uPending ≠ 0#32 ∧ s.prv = UserMode ∧ s.csrs.mstatusUie = 1#1 then
    some (UserMode, uPending)
  else none

/-- The interrupts in the order of their priority: external, software and timer interrupts of each
mode. The code of an interrupt is the position of its bit. -/
def interruptPriority : List Nat := [11, 3, 7, 9, 1, 5, 8, 0, 4]

def prepareInterrupt (targetMode : Nat) (pending : BitVec 32) : IssM Unit :=
  match interruptPriority.find? fun code ↦ pending.getLsbD code with
  | none => hostError (.runtimeError "some pending interrupt must be available here")
  | some code =>
    if targetMode = MachineMode ∨ targetMode = SupervisorMode ∨ targetMode = UserMode then
      modify fun s ↦
        { s with csrs := s.csrs.setCause (CsrTable.causeReg targetMode) 1#1 code }
    else hostError (unknownPrivilegeLevel targetMode)

def takePendingInterrupt : IssM Unit := do
  let s ← get
  match s.computePendingInterrupts with
  | none => pure ()
  | some (targetMode, pending) => do
    prepareInterrupt targetMode pending
    switchToTrapHandler targetMode

/-! ## Steps -/

/-- The cycles of an instruction. -/
def instrCycles : Opcode → Nat
  | .LB | .LBU | .LH | .LHU | .LW | .SB | .SH | .SW => 4
  | .MUL | .MULH | .MULHU | .MULHSU | .DIV | .DIVU | .REM | .REMU => 8
  | _ => 1

def State.updatePerformance (s : State) : State :=
  { s with
    csrs :=
      if (s.csrs .mcountinhibit).getLsbD 2 then s.csrs
      else s.csrs.set64 .instret .instreth (s.csrs.get64 .instret .instreth + 1#64)
    lrScCounter := s.lrScCounter - 1
    cycleCounter :=
      if (s.csrs .mcountinhibit).getLsbD 0 then s.cycleCounter
      else s.cycleCounter + instrCycles s.op }

/-- A trap is taken; every other exception is passed on. -/
def takeTrap (e : Thrown) : IssM Unit :=
  match e with
  | .trap reason mtval => do
    let target ← prepareTrap reason mtval
    switchToTrapHandler target
  | .host error => hostError error

/-- The end of a step: `x0` is reset, and a request to stop is obeyed. -/
def State.finishStep (s : State) : State :=
  { s.writeReg RegFile.zero (constant 0#32) with
    status := if s.shallExit then .Terminated else s.status }

/-- The address of the instruction is kept for traps and relative jumps. -/
def State.started (s : State) : State := { s with lastPc := s.pc }

/-- A step around the execution of its instruction. -/
def stepWith (exec : IssM Unit) : IssM Unit := do
  let s ← get
  ensure .zeroRegister (getValue (s.regs RegFile.zero) = 0#32)
  if s.debugMode ∧ s.breakpoints s.pc then modify fun s ↦ { s with status := .HitBreakpoint }
  else do
    modify (·.started)
    tryCatch (do exec; takePendingInterrupt) takeTrap
    modify fun s ↦ s.finishStep.updatePerformance

def runStep (env : Env) : IssM Unit := stepWith (execStep env)

def runSteps (env : Env) : Nat → IssM Unit
  | 0 => pure ()
  | n + 1 => do
    runStep env
    runSteps env n

/-! ## Runs -/

/-- A change of an interrupt line of the core. -/
inductive Irq
  | timer (status : Bool)
  | software (status : Bool)
  | external (level : Nat) (status : Bool)
  deriving DecidableEq, Repr

def Irq.bit : Irq → Option Nat
  | timer _ => some 7
  | software _ => some 3
  | external level _ =>
    if level = UserMode then some 8
    else if level = SupervisorMode then some 9
    else if level = MachineMode then some 11
    else none

def Irq.status : Irq → Bool
  | timer status | software status | external _ status => status

def State.interrupt (s : State) (irq : Irq) : State :=
  match irq.bit with
  | some bit => s.setCsr .mip (setField (s.csrs .mip) bit (BitVec.ofBool irq.status))
  | none => s

/-- The control and status registers after construction. -/
def CsrTable.initial (hartId : BitVec 32) (useEBaseIsa : Bool) : CsrTable := fun r ↦
  match r with
  | .mhartid => hartId
  | .misa => if useEBaseIsa then (misaDefault &&& ~~~0x100#32) ||| 0x10#32 else misaDefault
  | _ => 0#32

def Mmu.flush (mmu : Mmu) : Mmu :=
  { mmu with tlb := fun _ _ _ ↦ ⟨BitVec.allOnes 64, BitVec.allOnes 64⟩ }

/-- The state in which a core starts: constant registers and memory, and an even entry point. -/
structure State.Initial (s : State) : Prop where
  regs : ∀ i, ∃ value, s.regs i = constant value
  zero : s.regs RegFile.zero = constant 0#32
  pc : s.pc &&& 1#32 = 0#32
  csrs : ∃ hartId useEBaseIsa, s.csrs = CsrTable.initial hartId useEBaseIsa
  prv : s.prv = MachineMode
  mem : ∀ a byte, s.mem.data a = some byte → ∃ value, byte = Solver.BVC none (.uint8 value)
  mmu : ∀ mmu, s.mmu = some mmu → mmu = mmu.flush
  status : s.status = .Runnable
  tracer : s.tracer = []

/-- A memory with a program at address zero. -/
def bootMemory (program : List (BitVec 8)) : ConcolicMemory where
  data := fun a ↦ program[a.toNat]?.map fun b ↦ Solver.BVC none (.uint8 b)
  width_data := by
    intro a byte h
    obtain ⟨b, -, rfl⟩ := Option.map_eq_some_iff.mp h
    rfl

/-- The bytes of a program of uncompressed instructions. -/
def assemble (words : List Instruction) : List (BitVec 8) :=
  words.flatMap fun word ↦ (List.range 4).map fun i ↦ word.extractLsb' (8 * i) 8

/-- `li a7, 95; li a0, 5; ecall`, which makes `x5` symbolic -/
def makeSymbolic : List Instruction := [0x05f00893#32, 0x00500513#32, 0x00000073#32]

/-- A core out of reset with a program at address zero. -/
def bootState (program : List (BitVec 8)) : State where
  regs := ⟨fun _ ↦ constant 0#32, fun _ ↦ rfl⟩
  pc := 0#32
  lastPc := 0#32
  csrs := CsrTable.initial 0#32 false
  prv := MachineMode
  instr := 0#32
  op := .UNDEF
  status := .Runnable
  shallExit := false
  lrScCounter := 0
  debugMode := false
  breakpoints := fun _ ↦ false
  cycleCounter := 0
  mem := bootMemory program
  memSize := 4096
  mmu := none
  sys := none
  coverage := some ⟨[], ∅⟩
  tracer := []
  mtimeReads := 0
  hostCalls := 0

theorem bootState_initial (program : List (BitVec 8)) : (bootState program).Initial where
  regs := fun _ ↦ ⟨0#32, rfl⟩
  zero := rfl
  pc := BitVec.zero_and
  csrs := ⟨0#32, false, rfl⟩
  prv := rfl
  mem := by
    intro a byte h
    obtain ⟨b, -, hb⟩ := Option.map_eq_some_iff.mp h
    exact ⟨b, hb.symm⟩
  mmu := by
    intro mmu h
    cases h
  status := rfl
  tracer := rfl

/-- The same with a handler for system calls. -/
def bootSystem (program : List (BitVec 8)) : State :=
  { bootState program with sys := some ⟨0#64, 0#64, false⟩ }

theorem bootSystem_initial (program : List (BitVec 8)) : (bootSystem program).Initial :=
  { bootState_initial program with }

/-- An environment without debug information in which nothing happens. -/
def bootEnv : Env where
  inputs := fun _ ↦ 0#_
  mtime := fun _ ↦ 0#64
  hostResult := fun _ ↦ 0
  getSources := fun _ ↦ []

/-- The states of the runs of a core. -/
inductive Reachable (env : Env) : State → Prop
  | init {s : State} : s.Initial → Reachable env s
  | step {s s' : State} : Reachable env s → runStep env s = .ok () s' → Reachable env s'
  | irq {s : State} (irq : Irq) : Reachable env s → Reachable env (s.interrupt irq)

theorem Reachable.run {env : Env} {s s' : State} {n : Nat} (h : Reachable env s)
    (hrun : runSteps env n s = .ok () s') : Reachable env s' := by
  induction n generalizing s with
  | zero =>
    cases hrun
    exact h
  | succ n ih =>
    change EStateM.bind (runStep env) (fun _ ↦ runSteps env n) s = .ok () s' at hrun
    unfold EStateM.bind at hrun
    cases hstep : runStep env s with
    | ok a s₁ =>
      rw [hstep] at hrun
      exact ih (h.step hstep) hrun
    | error e s₁ =>
      rw [hstep] at hrun
      cases hrun

end CoverageVP.Iss
