import CoverageVP.Iss.BaseExecution
import CoverageVP.Iss.Fetches
import CoverageVP.Iss.OperandFlags
import CoverageVP.Iss.PreciseTraps

/-!
# The refinement of RV32I

A step of the core against the instruction set. On a state that does not translate addresses and has
no interrupt to take, a word of RV32I changes the concrete registers, the program counter and the
memory as prescribed, or its misaligned address is reported by a trap, unless an exception of the host
ends the step: of the coverage, or of the assertion on traps that user mode takes.
-/

namespace CoverageVP.Iss

open Lib Clover Instr

/-- A state that executes an instruction of RV32I next. Addresses are not translated, no interrupt is
pending and enabled, and what the instruction accesses is in the memory. -/
structure State.RunsInstr (s : State) (i : Rv32i.Instr) : Prop where
  zero : getValue (s.regs RegFile.zero) = 0#32
  pc : s.pc &&& ~~~s.pcAlignmentMask = 0#32
  running : ¬ (s.debugMode ∧ s.breakpoints s.pc)
  untranslated : ∀ type, s.Untranslated type
  pending : s.computePendingInterrupts = none
  inMemory : s.pc.toNat + 4 ≤ s.memSize
  instr : Rv32i.decode (s.machine.word s.pc) = some i
  access : ∀ addr n, s.machine.access i = some (addr, n) → addr.toNat + n ≤ s.memSize

/-- The step does what the instruction prescribes. A misaligned address leaves the registers and the
memory as they are and is reported to the handler of the exception. -/
def StepRefines (env : Env) (s : State) (i : Rv32i.Instr) : Prop :=
  match s.machine.execute s.ialign i with
  | .ok m => ∃ s', runStep env s = .ok () s' ∧ s'.machine = m
  | .error f => ∃ s', runStep env s = .ok () s' ∧ s'.machine.regs = s.machine.regs ∧
      s'.machine.mem = s.machine.mem ∧
      TrapReported s (exceptionCode f.cause) (f.addr.setWidth 64) s'

/-- No exception of the host ends the step: an instruction that retires is known to the coverage, and
user mode takes traps of its own only. -/
def State.Unhindered (env : Env) (s : State) (i : Rv32i.Instr) : Prop :=
  match s.machine.execute s.ialign i with
  | .ok _ => ∃ cov, s.coverage = some cov ∧ cov.Knows (env.getSources (s.pc.setWidth 64))
  | .error f =>
    s.csrs.trapTarget s.prv (exceptionCode f.cause) = UserMode → s.prv = UserMode

/-! ## The front end -/

theorem even_of_aligned {s : State} (h : s.pc &&& ~~~s.pcAlignmentMask = 0#32) :
    s.pc &&& 1#32 = 0#32 := by
  rw [State.pcAlignmentMask, CsrTable.pcAlignmentMask] at h
  split at h
  · rwa [BitVec.not_not] at h
  · rw [BitVec.not_not, aligned_iff] at h
    rw [even_iff]
    omega

theorem implemented_of_encodes {w : Instruction} {i : Rv32i.Instr} {op : Opcode}
    (h : Encodes w i op) : implemented op = true := by
  cases h with
  | branch op => cases op <;> rfl
  | load op => cases op <;> rfl
  | store op => cases op <;> rfl
  | opImm op _ => cases op <;> rfl
  | shiftImm op _ _ => cases op <;> rfl
  | op op =>
    cases op with
    | imm op => cases op <;> rfl
    | sub => rfl
  | lui | auipc | jal | jalr | fence | fenceI => rfl

/-- After the step, `x0` is zero in both. -/
theorem State.Reflects.machine_eq {s : State} {m : Rv32i.Machine} (h : s.Reflects m)
    (hzero : m.regs 0#5 = 0#32) : s.finishStep.updatePerformance.machine = m := by
  have hregs : (fun j ↦ getValue (s.regs.write RegFile.zero (constant 0#32) j)) = m.regs := by
    funext j
    rw [getValue_write _ _ _ (computes_of_concrete (concrete_constant _)).width]
    split
    case isTrue hj => rw [hj, getValue_constant, RegFile.zero, hzero]
    case isFalse hj => exact h.regs j hj
  calc s.finishStep.updatePerformance.machine
      = ⟨fun j ↦ getValue (s.regs.write RegFile.zero (constant 0#32) j), s.pc,
          s.mem.concreteByte⟩ := rfl
    _ = m := by rw [hregs, h.pc, h.mem]

section Step

variable {s : State} {i : Rv32i.Instr} (hs : s.RunsInstr i)

/-- The state in which the instruction is executed. -/
def State.executing (s : State) : State :=
  { s.started with
    instr := s.machine.word s.pc
    op := decodeNormal .RV32 (s.machine.word s.pc)
    pc := s.pc + 4#32 }

include hs

theorem State.RunsInstr.triple_fetch :
    Triple (· = s.started) fetch
      (fun _ s' ↦ s' = { s.started with instr := s.machine.word s.pc }) fun _ _ ↦ False := by
  have huntranslated : s.started.Untranslated .FETCH := hs.untranslated .FETCH
  have hword : s.machine.word s.pc = wordAt s.mem s.pc := word_before s s.pc
  have hload : loadInstr s.pc s.started = .ok (s.machine.word s.pc) s.started := by
    rw [loadInstr_of_v2p (v2p_of_untranslated huntranslated _), setWidth_setWidth_word,
      BitVec.toNat_setWidth_of_le (by decide), hword]
    exact if_pos hs.inMemory
  refine (Iss.triple_fetch s.started).conseq (fun _ h ↦ h) ?_ ?_
  · rintro _ s' ⟨-, s₁, hok, hs'⟩
    obtain ⟨hinstr, rfl⟩ := EStateM.Result.ok.inj (hload.symm.trans hok)
    rw [hs', hinstr]
  · rintro e s' (⟨hpc, -, -⟩ | ⟨s₁, herror, -⟩)
    · exact hpc hs.pc
    · cases hload.symm.trans herror

theorem State.RunsInstr.triple_decode :
    Triple (· = { s.started with instr := s.machine.word s.pc }) decode
      (fun _ s' ↦ s' = s.executing) fun _ _ ↦ False := by
  have huncompressed := isCompressed_of_decode hs.instr
  refine Triple.read_bind fun s' hs' ↦ ?_
  rw [hs']
  dsimp only
  rw [huncompressed, if_neg Bool.false_ne_true]
  exact Triple.update fun s' hs' ↦ by rw [hs']; rfl

theorem State.RunsInstr.triple_classifyOperands :
    Triple (· = s.executing) classifyOperands (fun _ s' ↦ s' = s.executing) fun _ _ ↦ False := by
  have hop : implemented s.executing.op = true := implemented_of_encodes (encodes_of_decode hs.instr)
  refine Triple.read_bind fun s' hs' ↦ ?_
  rw [hs']
  split
  case h_1 => exact Triple.ret fun _ h ↦ h
  case h_2 => exact Triple.ite (fun hR4 ↦ absurd hR4 (getType_ne_R4 hop)) fun _ ↦ Triple.ret fun _ h ↦ h

/-- Up to the coverage, the step does what the instruction prescribes. -/
theorem State.RunsInstr.performs_coverArguments (env : Env) :
    Triple (· = s.started) (coverArguments env) (fun _ ↦ Retires s.executing i)
      (Faults s.executing i) := by
  have hperforms : Performs s.executing i (execute env) :=
    performs_execute env (encodes_of_decode hs.instr) (even_of_aligned hs.pc) rfl
      (hs.untranslated .STORE) hs.access
  refine Triple.bind (hs.triple_fetch.conseq (fun _ h ↦ h) (fun _ _ h ↦ h) fun _ _ h ↦ h.elim)
    fun _ ↦ Triple.bind (hs.triple_decode.conseq (fun _ h ↦ h) (fun _ _ h ↦ h) fun _ _ h ↦ h.elim)
    fun _ ↦ Triple.bind (hs.triple_classifyOperands.conseq (fun _ h ↦ h) (fun _ _ h ↦ h)
      fun _ _ h ↦ h.elim) fun flags ↦ ?_
  exact Triple.bind hperforms fun init ↦ Triple.ret fun _ h ↦ h

/-! ## Steps -/

/-- A step around what its instruction does. -/
theorem State.RunsInstr.runStep_eq (env : Env) :
    runStep env s = (do
      tryCatch (do execStep env; takePendingInterrupt) takeTrap
      modify fun s ↦ s.finishStep.updatePerformance : IssM Unit) s.started := by
  have hrun : runStep env s = ((do
      ensure .zeroRegister (getValue (s.regs RegFile.zero) = 0#32)
      if s.debugMode ∧ s.breakpoints s.pc then
        modify fun s ↦ { s with status := .HitBreakpoint }
      else do
        modify (·.started)
        tryCatch (do execStep env; takePendingInterrupt) takeTrap
        modify fun s ↦ s.finishStep.updatePerformance : IssM Unit)) s := rfl
  rw [hrun, ensure, if_pos hs.zero, if_neg hs.running]
  rfl

theorem State.RunsInstr.runStep_of_ok {env : Env} {s₁ : State}
    (h : execStep env s.started = .ok () s₁) (hpending : s₁.computePendingInterrupts = none) :
    runStep env s = .ok () s₁.finishStep.updatePerformance := by
  have hinterrupt : takePendingInterrupt s₁ = .ok () s₁ := by
    rw [takePendingInterrupt, Lib.get_bind, hpending]
    rfl
  have hexec : (do execStep env; takePendingInterrupt : IssM Unit) s.started = .ok () s₁ := (bind_of_ok h _).trans hinterrupt
  have hcatch : tryCatch (do execStep env; takePendingInterrupt) takeTrap s.started = .ok () s₁ := by
    change EStateM.tryCatch (do execStep env; takePendingInterrupt) takeTrap s.started = _
    rw [EStateM.tryCatch, hexec]
  rw [hs.runStep_eq, bind_of_ok hcatch]
  rfl

theorem State.RunsInstr.runStep_of_error {env : Env} {s₁ : State} {e : Thrown}
    (h : execStep env s.started = .error e s₁) :
    runStep env s =
      (do takeTrap e; modify fun s ↦ s.finishStep.updatePerformance : IssM Unit) s₁ := by
  have hexec : (do execStep env; takePendingInterrupt : IssM Unit) s.started = .error e s₁ := bind_of_error h _
  have hcatch : tryCatch (do execStep env; takePendingInterrupt) takeTrap s.started = takeTrap e s₁ := by
    change EStateM.tryCatch (do execStep env; takePendingInterrupt) takeTrap s.started = _
    rw [EStateM.tryCatch, hexec]
    rfl
  rw [hs.runStep_eq]
  change EStateM.bind _ _ s.started = EStateM.bind _ _ s₁
  rw [EStateM.bind, hcatch]
  rfl

theorem State.RunsInstr.runStep_of_host {env : Env} {s₁ : State} {error : HostError}
    (h : execStep env s.started = .error (.host error) s₁) :
    runStep env s = .error (.host error) s₁ := by
  rw [hs.runStep_of_error h]
  rfl

/-- An instruction that retires. -/
theorem State.RunsInstr.refines_iff_of_ok (env : Env) {m : Rv32i.Machine}
    (hm : s.machine.execute s.ialign i = .ok m) :
    (∃ s', runStep env s = .ok () s' ∧ s'.machine = m) ↔
      ∃ cov, s.coverage = some cov ∧ cov.Knows (env.getSources (s.pc.setWidth 64)) := by
  have harguments := hs.performs_coverArguments env s.started rfl
  cases hrun : coverArguments env s.started with
  | error e s₁ =>
    rw [hrun] at harguments
    obtain ⟨-, -, -, f, hf, -⟩ := harguments
    cases hm.symm.trans hf
  | ok flags s₁ =>
    rw [hrun] at harguments
    obtain ⟨hkept, m', hm', hreflects⟩ := harguments
    obtain rfl : m = m' := by
      cases hm.symm.trans hm'
      rfl
    have hexec : execStep env s.started = cover env flags s₁ := by
      rw [execStep_eq_cover]
      exact bind_of_ok hrun _
    have hcover := exists_cover_iff env flags s₁
    rw [hkept.coverage, hkept.lastPc] at hcover
    refine Iff.trans ?_ hcover
    constructor
    · rintro ⟨s', hok, -⟩
      cases hresult : cover env flags s₁ with
      | ok _ s₂ => exact ⟨s₂, rfl⟩
      | error e s₂ =>
        cases e with
        | trap reason mtval =>
          exact absurd rfl ((noTrap_cover env flags).of_error trivial hresult reason mtval)
        | host error => cases (hs.runStep_of_host (hexec.trans hresult)).symm.trans hok
    · rintro ⟨s₂, hok⟩
      have hcounted : s₂.Reflects m ∧ s₂.csrs = s.csrs ∧ s₂.prv = s.prv :=
        (keeps_cover (I := fun s' ↦ s'.Reflects m ∧ s'.csrs = s.csrs ∧ s'.prv = s.prv)
          (fun _ _ h ↦ ⟨⟨h.1.regs, h.1.pc, h.1.mem⟩, h.2⟩) env flags).of_ok
          ⟨hreflects, hkept.csrs, hkept.prv⟩ hok
      have hpending : s₂.computePendingInterrupts = none := by
        rw [State.computePendingInterrupts, hcounted.2.1, hcounted.2.2]
        exact hs.pending
      exact ⟨_, hs.runStep_of_ok (hexec.trans hok) hpending,
        hcounted.1.machine_eq ((Rv32i.Machine.regs_zero_of_execute _ hm).trans hs.zero)⟩

/-- An instruction with a misaligned address. -/
theorem State.RunsInstr.refines_iff_of_error (env : Env) {f : Rv32i.Fault}
    (hf : s.machine.execute s.ialign i = .error f) :
    (∃ s', runStep env s = .ok () s' ∧ s'.machine.regs = s.machine.regs ∧
      s'.machine.mem = s.machine.mem ∧
      TrapReported s (exceptionCode f.cause) (f.addr.setWidth 64) s') ↔
      (s.csrs.trapTarget s.prv (exceptionCode f.cause) = UserMode → s.prv = UserMode) := by
  have hmtval : (f.addr.setWidth 64).toNat < 2 ^ 32 := by
    rw [BitVec.toNat_setWidth_of_le (by decide)]
    exact f.addr.isLt
  have harguments := hs.performs_coverArguments env s.started rfl
  cases hrun : coverArguments env s.started with
  | ok flags s₁ =>
    rw [hrun] at harguments
    obtain ⟨-, m, hm, -⟩ := harguments
    cases hf.symm.trans hm
  | error e s₁ =>
    rw [hrun] at harguments
    obtain ⟨hkept, hregs, hmem, f', hf', rfl⟩ := harguments
    obtain rfl : f = f' := by
      cases hf.symm.trans hf'
      rfl
    have hexec : execStep env s.started =
        .error (.trap (exceptionCode f.cause) (f.addr.setWidth 64)) s₁ := by
      rw [execStep_eq_cover]
      exact bind_of_error hrun _
    have hsame : (s₁.csrs.trapTarget s₁.prv (exceptionCode f.cause) = UserMode →
        s₁.prv = UserMode) ↔
        (s.csrs.trapTarget s.prv (exceptionCode f.cause) = UserMode → s.prv = UserMode) := by
      rw [hkept.csrs, hkept.prv]
      rfl
    rw [← hsame]
    constructor
    · rintro ⟨s', hok, -⟩
      by_contra huser
      rw [hs.runStep_of_error hexec] at hok
      obtain ⟨_, s₂, htaken, -⟩ := exists_ok_of_bind_eq_ok hok
      exact (triple_takeTrap_userTrap huser).of_ok rfl htaken
    · intro huser
      obtain ⟨_, s₂, htaken, hs₂⟩ := (triple_takeTrap_trapped huser hmtval).exists_ok rfl
      have hok : runStep env s = .ok () s₂.finishStep.updatePerformance := by
        rw [hs.runStep_of_error hexec]
        exact bind_of_ok htaken _
      have huntouched : Untouched s.started s₁ := by
        refine ⟨hregs, fun r _ ↦ ?_, hkept.prv, hkept.lastPc, hkept.sys⟩
        rw [hkept.csrs]
        rfl
      have hreflects : s₂.Reflects ⟨s.machine.regs, s₂.pc, s.machine.mem⟩ := by
        rw [hs₂]
        refine ⟨fun j _ ↦ ?_, rfl, ?_⟩
        · change getValue (s₁.regs j) = _
          rw [hregs]
          rfl
        · change s₁.mem.concreteByte = _
          rw [hmem]
          rfl
      have hmachine := hreflects.machine_eq hs.zero
      refine ⟨_, hok, congrArg (·.regs) hmachine, congrArg (·.mem) hmachine, ?_⟩
      rw [hs₂]
      exact huntouched.trapReported hmtval

end Step

/-- A step does what its instruction of RV32I prescribes exactly if no exception of the host ends
it. -/
theorem runStep_refines_iff {s : State} {i : Rv32i.Instr} (env : Env) (hs : s.RunsInstr i) :
    StepRefines env s i ↔ s.Unhindered env i := by
  rw [StepRefines, State.Unhindered]
  cases hm : s.machine.execute s.ialign i with
  | ok m => exact hs.refines_iff_of_ok env hm
  | error f => exact hs.refines_iff_of_error env hm

/-- `addi x1, x0, 5` -/
def addiProgram : List (BitVec 8) := [0x93#8, 0x00#8, 0x50#8, 0x00#8]

theorem addiProgram_runsInstr :
    (bootState addiProgram).RunsInstr (.opImm .add 1#5 0#5 5#32) where
  zero := by decide +kernel
  pc := by decide
  running := by decide
  untranslated := fun _ ↦ .inl rfl
  pending := by decide +kernel
  inMemory := by decide
  instr := by decide +kernel
  access := by
    intro addr n h
    cases h

theorem runStep_refines_addiProgram :
    (bootState addiProgram).RunsInstr (.opImm .add 1#5 0#5 5#32) ∧
      StepRefines bootEnv (bootState addiProgram) (.opImm .add 1#5 0#5 5#32) := by
  refine ⟨addiProgram_runsInstr, (runStep_refines_iff bootEnv addiProgram_runsInstr).mpr
    ⟨⟨[], ∅⟩, rfl, fun source hsource ↦ ?_⟩⟩
  cases hsource

/-- Without coverage, no instruction retires. -/
theorem not_stepRefines_of_no_coverage :
    ∃ s : State, s.RunsInstr (.opImm .add 1#5 0#5 5#32) ∧
      ¬ StepRefines bootEnv s (.opImm .add 1#5 0#5 5#32) := by
  have hs : ({ bootState addiProgram with coverage := none } : State).RunsInstr
      (.opImm .add 1#5 0#5 5#32) := { addiProgram_runsInstr with }
  refine ⟨_, hs, fun h ↦ ?_⟩
  obtain ⟨cov, hcov, -⟩ := (hs.refines_iff_of_ok bootEnv rfl).mp h
  cases hcov

end CoverageVP.Iss
