import CoverageVP.Iss.Control

/-!
# Invariants of reachable states

Compressed instructions and user mode are present in every reachable state, and program counters
are even. Below machine mode the stacked machine mode bits of `mstatus` are known: a lower mode is
only entered by a return from a machine mode handler, which resets them, and nothing but the entry
into machine mode changes them afterwards.
-/

namespace CoverageVP.Iss

open Lib Clover Instr Csr

/-! ## Fields under masks -/

theorem field_eq_of_masked {v v' m : BitVec 32} {start len : Nat} (h : v' &&& m = v &&& m)
    (hm : field m start len = BitVec.allOnes len) : field v' start len = field v start len := by
  have hand : ∀ x : BitVec 32, field (x &&& m) start len = field x start len := by
    intro x
    have hsplit : field (x &&& m) start len = field x start len &&& field m start len := by
      apply BitVec.eq_of_getLsbD_eq
      intro i hi
      simp only [field, BitVec.getLsbD_extractLsb', BitVec.getLsbD_and, hi, decide_true,
        Bool.true_and]
    rw [hsplit, hm, BitVec.and_allOnes]
  rw [← hand v', ← hand v, h]

theorem maskedWrite_and_of_disjoint {old mask value m : BitVec 32} (h : mask &&& m = 0#32) :
    maskedWrite old mask value &&& m = old &&& m := by
  apply BitVec.eq_of_getLsbD_eq
  intro i hi
  have hbit : (mask.getLsbD i && m.getLsbD i) = false := by
    rw [← BitVec.getLsbD_and, h, BitVec.getLsbD_zero]
  simp only [maskedWrite, BitVec.getLsbD_and, BitVec.getLsbD_or, BitVec.getLsbD_not, hi,
    decide_true, Bool.true_and]
  cases hmask : mask.getLsbD i with
  | false => simp
  | true =>
    rw [hmask, Bool.true_and] at hbit
    simp [hbit]

theorem setField_field (v : BitVec 32) (start len : Nat) :
    setField v start (field v start len) = v := by
  apply BitVec.eq_of_getLsbD_eq
  intro i hi
  rw [getLsbD_setField v start _ hi]
  split
  case isTrue hin =>
    have hlt : i - start < len := by omega
    have hsum : start + (i - start) = i := by omega
    rw [field, BitVec.getLsbD_extractLsb', hsum]
    simp [hlt]
  case isFalse => rfl

theorem setField_of_field_eq {v : BitVec 32} {start len : Nat} {x : BitVec len}
    (h : field v start len = x) : setField v start x = v := by
  rw [← h, setField_field]

/-! ## The invariant -/

structure MachineInvariant (csrs : CsrTable) (prv : Nat) : Prop where
  compressed : csrs.hasCExtension = true
  userMode : csrs.hasUserModeExtension = true
  mepc : csrs .mepc &&& 1#32 = 0#32
  mode : prv ≤ MachineMode
  mpp : prv < MachineMode → csrs.mstatusMpp = 0#2
  mpie : prv < MachineMode → csrs.mstatusMpie = 1#1

namespace MachineInvariant

variable {csrs csrs' : CsrTable} {prv : Nat}

/-- The invariant depends on three registers. -/
theorem of_eq (h : MachineInvariant csrs prv) (hmisa : csrs' .misa = csrs .misa)
    (hmepc : csrs' .mepc = csrs .mepc) (hmstatus : csrs' .mstatus = csrs .mstatus) :
    MachineInvariant csrs' prv where
  compressed := by
    rw [CsrTable.hasCExtension, CsrTable.hasExtension, hmisa]
    exact h.compressed
  userMode := by
    rw [CsrTable.hasUserModeExtension, CsrTable.hasExtension, hmisa]
    exact h.userMode
  mepc := hmepc ▸ h.mepc
  mode := h.mode
  mpp := by
    rw [CsrTable.mstatusMpp, hmstatus]
    exact h.mpp
  mpie := by
    rw [CsrTable.mstatusMpie, hmstatus]
    exact h.mpie

theorem set_of_ne (h : MachineInvariant csrs prv) {r : CsrReg} (value : BitVec 32)
    (hmisa : r ≠ .misa) (hmepc : r ≠ .mepc) (hmstatus : r ≠ .mstatus) :
    MachineInvariant (csrs.set r value) prv :=
  h.of_eq (csrs.set_of_ne _ hmisa.symm) (csrs.set_of_ne _ hmepc.symm)
    (csrs.set_of_ne _ hmstatus.symm)

theorem pcAlignmentMask_eq (h : MachineInvariant csrs prv) : csrs.pcAlignmentMask = ~~~1#32 := by
  rw [CsrTable.pcAlignmentMask, if_pos h.compressed]

/-- Only machine mode can write `mepc`, and only an even address. -/
theorem set_mepc (h : MachineInvariant csrs prv) {value : BitVec 32}
    (hvalue : value &&& 1#32 = 0#32) : MachineInvariant (csrs.set .mepc value) prv where
  compressed := h.compressed
  userMode := h.userMode
  mepc := by rwa [CsrTable.set_self]
  mode := h.mode
  mpp := h.mpp
  mpie := h.mpie

theorem set_mstatus (h : MachineInvariant csrs prv) {value : BitVec 32}
    (hmpp : prv < MachineMode → field value 11 2 = 0#2)
    (hmpie : prv < MachineMode → field value 7 1 = 1#1) :
    MachineInvariant (csrs.set .mstatus value) prv where
  compressed := h.compressed
  userMode := h.userMode
  mepc := h.mepc
  mode := h.mode
  mpp := by rwa [CsrTable.mstatusMpp, CsrTable.set_self]
  mpie := by rwa [CsrTable.mstatusMpie, CsrTable.set_self]

theorem closed {A : Nat → Prop} : CsrClosed A MachineInvariant where
  counter := fun heq h ↦ h.of_eq (heq _ rfl) (heq _ rfl) (heq _ rfl)
  write := by
    intro csrs prv addr r mask value _ hp hw h
    obtain ⟨hlower, hmisa, hmepc, -, -⟩ := permitted_of_writable hw
    by_cases hr : r = .mepc
    · subst hr
      refine h.set_mepc ?_
      rw [hmepc rfl, h.pcAlignmentMask_eq, maskedWrite_and_of_disjoint (by decide)]
      exact h.mepc
    by_cases hr' : r = .mstatus
    · subst hr'
      have hfield : ∀ {start len}, field (~~~SSTATUS_MASK) start len = BitVec.allOnes len →
          prv < MachineMode → field (maskedWrite (csrs .mstatus) mask value) start len =
            field (csrs .mstatus) start len := by
        intro start len hm hlt
        have hmask := hlower (Nat.lt_of_le_of_lt hp hlt)
        exact field_eq_of_masked (maskedWrite_and_of_disjoint hmask) hm
      refine h.set_mstatus (fun hlt ↦ ?_) fun hlt ↦ ?_
      · rw [hfield (by decide) hlt]
        exact h.mpp hlt
      · rw [hfield (by decide) hlt]
        exact h.mpie hlt
    · exact h.set_of_ne _ hmisa hr hr'

theorem returnMachine_mstatus (h : MachineInvariant csrs prv) :
    csrs.returnMachine .mstatus =
      setField (setField (setField (csrs .mstatus) 3 csrs.mstatusMpie) 7 1#1) 11 0#2 := by
  rw [CsrTable.returnMachine, CsrTable.leastMode, if_pos h.userMode, CsrTable.setMstatus_self,
    CsrTable.setMstatus_self, CsrTable.setMstatus_self]

theorem returnMachine (h : MachineInvariant csrs prv) :
    MachineInvariant csrs.returnMachine csrs.mstatusMpp.toNat where
  compressed := h.compressed
  userMode := h.userMode
  mepc := h.mepc
  mode := Nat.le_of_lt_succ csrs.mstatusMpp.isLt
  mpp := fun _ ↦ by
    rw [CsrTable.mstatusMpp, h.returnMachine_mstatus, field_setField_self _ _ (by decide)]
  mpie := fun _ ↦ by
    rw [CsrTable.mstatusMpie, h.returnMachine_mstatus,
      field_setField_of_disjoint _ _ (by decide) (by decide),
      field_setField_self _ _ (by decide)]

/-- Only the entry into machine mode changes the stacked bits of machine mode. -/
theorem enter (h : MachineInvariant csrs prv) {mode pp : Nat} {epc : BitVec 32}
    (hmode : mode ≤ MachineMode) (hlower : mode < MachineMode → prv < MachineMode)
    (hepc : epc &&& 1#32 = 0#32) : MachineInvariant (csrs.enter mode pp epc) mode := by
  have hset : MachineInvariant (csrs.set (CsrTable.epcReg mode) epc) prv := by
    unfold CsrTable.epcReg
    split
    · exact h.set_mepc hepc
    split
    · exact h.set_of_ne _ (by decide) (by decide) (by decide)
    · exact h.set_of_ne _ (by decide) (by decide) (by decide)
  have hkept : ∀ {start len} (csrs' : CsrTable) (x : BitVec len), start + len ≤ 7 ∨
      (8 ≤ start ∧ start + len ≤ 11) → MachineInvariant csrs' prv →
      MachineInvariant (csrs'.setMstatus start x) prv := by
    intro start len csrs' x hrange h'
    refine h'.set_mstatus (fun hlt ↦ ?_) fun hlt ↦ ?_
    · rw [field_setField_of_disjoint _ _ (by decide) (by omega)]
      exact h'.mpp hlt
    · rw [field_setField_of_disjoint _ _ (by decide) (by omega)]
      exact h'.mpie hlt
  have hmove : ∀ {csrs' : CsrTable}, MachineInvariant csrs' prv → mode ≠ MachineMode →
      MachineInvariant csrs' mode := by
    intro csrs' h' hne
    have hlt := hlower (Nat.lt_of_le_of_ne hmode hne)
    exact ⟨h'.compressed, h'.userMode, h'.mepc, hmode, fun _ ↦ h'.mpp hlt, fun _ ↦ h'.mpie hlt⟩
  rw [CsrTable.enter]
  split
  case isTrue heq =>
    have hnot : ¬ mode < MachineMode := by rw [heq]; exact Nat.lt_irrefl _
    exact ⟨hset.compressed, hset.userMode, hset.mepc, hmode, fun hlt ↦ absurd hlt hnot,
      fun hlt ↦ absurd hlt hnot⟩
  case isFalse hne =>
    split
    · refine hmove (hkept _ _ (by decide) (hkept _ _ (by decide) (hkept _ _ (by decide) hset))) hne
    · exact hmove (hkept _ _ (by decide) (hkept _ _ (by decide) hset)) hne

theorem setCause (h : MachineInvariant csrs prv) (mode : Nat) (interrupt : BitVec 1) (code : Nat) :
    MachineInvariant (csrs.setCause (CsrTable.causeReg mode) interrupt code) prv :=
  h.set_of_ne _ (CsrTable.causeReg_ne (by decide) mode) (CsrTable.causeReg_ne (by decide) mode)
    (CsrTable.causeReg_ne (by decide) mode)

theorem setTval (h : MachineInvariant csrs prv) (mode : Nat) (value : BitVec 32) :
    MachineInvariant (csrs.set (CsrTable.tvalReg mode) value) prv :=
  h.set_of_ne _ (CsrTable.tvalReg_ne (by decide) mode) (CsrTable.tvalReg_ne (by decide) mode)
    (CsrTable.tvalReg_ne (by decide) mode)

end MachineInvariant

theorem aligned_handlerAddress (csrs : CsrTable) (mode : Nat) :
    csrs.handlerAddress mode &&& 3#32 = 0#32 := by
  have hbase : csrs.baseAddress (CsrTable.tvecReg mode) &&& 3#32 = 0#32 := by
    rw [aligned_iff, CsrTable.baseAddress, BitVec.toNat_shiftLeft, Nat.shiftLeft_eq]
    omega
  have hfour : ∀ x : BitVec 32, (4#32 * x) &&& 3#32 = 0#32 := by
    intro x
    rw [aligned_iff, BitVec.toNat_mul]
    change 4 * x.toNat % 2 ^ 32 % 4 = 0
    omega
  unfold CsrTable.handlerAddress
  dsimp only
  split
  · exact aligned_add hbase (hfour _)
  · exact hbase

/-! ## Steps -/

/-- The modes that take traps. -/
def IsMode (mode : Nat) : Prop := mode = MachineMode ∨ mode = SupervisorMode ∨ mode = UserMode

/-- A property of the registers and the mode that everything in a step keeps, the CSR instructions
as far as they address registers of `A`. -/
structure RunClosed (A : Nat → Prop) (K : CsrTable → Nat → Prop) (al : BitVec 32) : Prop
    extends CsrClosed A K where
  aligned : AlignedBy K al
  mepc : ∀ {csrs prv}, K csrs prv → csrs .mepc &&& al = 0#32
  returnMachine : ∀ {csrs prv}, K csrs prv → K csrs.returnMachine csrs.mstatusMpp.toNat
  setCause : ∀ {csrs prv} mode interrupt code, K csrs prv →
    K (csrs.setCause (CsrTable.causeReg mode) interrupt code) prv
  setTval : ∀ {csrs prv} mode value, K csrs prv → K (csrs.set (CsrTable.tvalReg mode) value) prv
  enter : ∀ {csrs prv mode epc}, IsMode mode → (mode < MachineMode → prv ≠ MachineMode) →
    epc &&& al = 0#32 → K csrs prv → K (csrs.enter mode prv epc) mode
  irq : ∀ {csrs prv bit} (irq : Irq), irq.bit = some bit → K csrs prv →
    K (csrs.set .mip (setField (csrs .mip) bit (BitVec.ofBool irq.status))) prv

/-- The CSR instruction that a state executes next, if it is one, addresses a register of `A`. -/
def NextAddresses (A : Nat → Prop) (s : State) : Prop :=
  ∀ word, s.fetchedWord = some word → isCsr (decodeWord word).1 = true →
    A (decodeWord word).2.csr.toNat

/-- The invariant between two steps. -/
structure StepInvariant (K : CsrTable → Nat → Prop) (al : BitVec 32) (s : State) : Prop where
  csrs : K s.csrs s.prv
  pc : s.pc &&& al = 0#32

theorem CsrTable.trapTarget_mode (csrs : CsrTable) (prv : Nat) (reason : ExceptionCode) :
    IsMode (csrs.trapTarget prv reason) := by
  unfold CsrTable.trapTarget
  split
  · exact .inl rfl
  split
  · exact .inr (.inl rfl)
  · exact .inr (.inr rfl)

theorem CsrTable.trapTarget_machine (csrs : CsrTable) (reason : ExceptionCode) :
    csrs.trapTarget MachineMode reason = MachineMode :=
  if_pos (.inl rfl)

/-- An interrupt is taken by a mode that is not below the current one. -/
theorem computePendingInterrupts_mode {s : State} {mode : Nat} {pending : BitVec 32}
    (h : s.computePendingInterrupts = some (mode, pending)) :
    IsMode mode ∧ (mode < MachineMode → s.prv ≤ mode) := by
  unfold State.computePendingInterrupts at h
  dsimp only at h
  split at h
  · cases h
  split at h
  · cases h
    exact ⟨.inl rfl, fun hlt ↦ absurd hlt (Nat.lt_irrefl _)⟩
  split at h
  case isTrue hs =>
    cases h
    exact ⟨.inr (.inl rfl), fun _ ↦ hs.2.elim Nat.le_of_lt fun h ↦ h.1.le⟩
  split at h
  case isTrue hu =>
    cases h
    exact ⟨.inr (.inr rfl), fun _ ↦ hu.2.1.le⟩
  · cases h

/-- A step executes an instruction and counts it, unless there is a breakpoint. -/
theorem triple_stepWith {exec : IssM Unit} {s : State} {I : State → Prop}
    (h : Triple (· = s.started) (tryCatch (do exec; takePendingInterrupt) takeTrap) (fun _ ↦ I)
      fun _ _ ↦ True) :
    Triple (· = s) (stepWith exec)
      (fun _ s' ↦ s' = { s with status := .HitBreakpoint } ∨
        ∃ s₁, I s₁ ∧ s' = s₁.finishStep.updatePerformance) fun _ _ ↦ True := by
  refine Triple.read_bind fun s₁ hs₁ ↦ ?_
  rw [hs₁]
  refine Triple.bind (Q := fun _ s' ↦ s' = s)
    (triple_ensure (fun _ h _ ↦ h) fun _ _ _ ↦ trivial) fun _ ↦ ?_
  refine Triple.ite (fun _ ↦ Triple.update fun s' h ↦ ?_) fun _ ↦ ?_
  · rw [h]
    exact .inl rfl
  · refine Triple.bind (Q := fun _ s' ↦ s' = s.started) (Triple.update fun s' h ↦ by rw [h])
      fun _ ↦ Triple.bind h fun _ ↦ Triple.update fun s₁ h ↦ ?_
    exact .inr ⟨s₁, h, rfl⟩

section Step

variable {A : Nat → Prop} {K : CsrTable → Nat → Prop} {al : BitVec 32} (hK : RunClosed A K al)

theorem StepInvariant.started {s : State} (h : StepInvariant K al s) : Control K al s.started :=
  ⟨⟨h.csrs, h.pc⟩, h.pc⟩

/-- A mode that may be entered: machine mode does not enter a lower one. -/
structure Enterable (K : CsrTable → Nat → Prop) (al : BitVec 32) (mode : Nat) (s : State) : Prop
    where
  control : Control K al s
  target : IsMode mode
  lower : mode < MachineMode → s.prv ≠ MachineMode

include hK

theorem RunClosed.execStep (env : Env) {s : State} (hs : Control K al s)
    (hA : NextAddresses A s) :
    Triple (· = s) (execStep env) (fun _ ↦ Control K al) fun _ ↦ Steady K al := by
  by_cases hword : s.fetchedWord = some MRET_ENCODING
  · exact control_execStep_MRET hK.aligned env hK.returnMachine hK.mepc hs hword
  · exact control_execStep hK.aligned hK.toCsrClosed env hs hword hA

theorem RunClosed.switchToTrapHandler (mode : Nat) :
    Triple (Enterable K al mode) (switchToTrapHandler mode) (fun _ ↦ Control K al)
      (fun _ _ ↦ False) := by
  refine Triple.bind (Q := fun _ ↦ Enterable K al mode) (Triple.update fun s h ↦ ?_) fun _ ↦ ?_
  · exact ⟨⟨⟨h.control.csrs, h.control.lastPc⟩, h.control.pc⟩, h.target, h.lower⟩
  refine Triple.ite (fun hmode ↦ Triple.update fun s h ↦ ?_) fun hmode ↦ ?_
  · exact ⟨⟨hK.enter hmode h.lower h.control.pc h.control.csrs, h.control.lastPc⟩,
      hK.aligned.and_eq_zero (aligned_handlerAddress _ _)⟩
  · exact Triple.pre (P := fun _ ↦ False) (fun _ h ↦ h.elim) fun _ h ↦ hmode h.target

theorem RunClosed.prepareTrap (reason : ExceptionCode) (mtval : BitVec 64) :
    Triple (Steady K al) (prepareTrap reason mtval) (fun target ↦ Enterable K al target)
      (fun _ _ ↦ True) := by
  refine Triple.bind (Q := fun _ ↦ Control K al)
    (Triple.update fun s h ↦ ⟨⟨h.csrs, h.lastPc⟩, h.lastPc⟩) fun _ ↦ Triple.read_bind fun s hs ↦ ?_
  have hstart : Enterable K al (s.csrs.trapTarget s.prv reason) s := by
    refine ⟨hs, s.csrs.trapTarget_mode s.prv reason, fun hlt heq ↦ ?_⟩
    rw [heq, CsrTable.trapTarget_machine] at hlt
    exact absurd hlt (Nat.lt_irrefl _)
  refine Triple.bind (Q := fun _ ↦ Enterable K al (s.csrs.trapTarget s.prv reason))
    (triple_ensure (fun s' h _ ↦ h ▸ hstart) fun _ _ _ ↦ trivial) fun _ ↦ ?_
  refine Triple.bind (Q := fun _ ↦ Enterable K al (s.csrs.trapTarget s.prv reason)) ?_
    fun _ ↦ Triple.ret fun _ h ↦ h
  refine Triple.bind (Q := fun _ ↦ Enterable K al (s.csrs.trapTarget s.prv reason))
    (Triple.update fun s' h ↦ ?_) fun _ ↦ Triple.ite (fun _ ↦ Triple.raise fun _ _ ↦ trivial)
      fun _ ↦ Triple.update fun s' h ↦ ?_
  · exact ⟨⟨⟨hK.setCause _ _ _ h.control.csrs, h.control.lastPc⟩, h.control.pc⟩, h.target, h.lower⟩
  · exact ⟨⟨⟨hK.setTval _ _ h.control.csrs, h.control.lastPc⟩, h.control.pc⟩, h.target, h.lower⟩

theorem RunClosed.takeTrap (e : Thrown) :
    Triple (Steady K al) (takeTrap e) (fun _ ↦ Control K al) (fun _ _ ↦ True) := by
  cases e with
  | trap reason mtval =>
    refine Triple.bind (hK.prepareTrap reason mtval) fun _ ↦ ?_
    exact (hK.switchToTrapHandler _).conseq (fun _ h ↦ h) (fun _ _ h ↦ h) fun _ _ h ↦ h.elim
  | host error => exact Triple.raise fun _ _ ↦ trivial

theorem RunClosed.takePendingInterrupt : Keeps (Control K al) takePendingInterrupt := by
  refine Triple.read_bind fun s hs ↦ ?_
  cases hpending : s.computePendingInterrupts with
  | none => exact Triple.ret fun _ h ↦ h ▸ hs
  | some interrupt =>
    obtain ⟨mode, pending⟩ := interrupt
    obtain ⟨hmode, hle⟩ := computePendingInterrupts_mode hpending
    have hlower : mode < MachineMode → s.prv ≠ MachineMode :=
      fun hlt ↦ Nat.ne_of_lt (Nat.lt_of_le_of_lt (hle hlt) hlt)
    refine Triple.bind (Q := fun _ ↦ Enterable K al mode) ?_ fun _ ↦
      (hK.switchToTrapHandler mode).conseq (fun _ h ↦ h) (fun _ _ h ↦ h) fun _ _ h ↦ h.elim
    unfold prepareInterrupt
    split
    · exact Triple.raise fun _ h ↦ h ▸ hs
    · refine Triple.ite (fun _ ↦ Triple.update fun s' h ↦ ?_) fun _ ↦ Triple.raise fun _ h ↦ h ▸ hs
      rw [h]
      exact ⟨⟨⟨hK.setCause _ _ _ hs.csrs, hs.lastPc⟩, hs.pc⟩, hmode, hlower⟩

theorem RunClosed.finishStep {s : State} (h : Control K al s) :
    StepInvariant K al s.finishStep.updatePerformance := by
  refine ⟨?_, h.pc⟩
  have hcsrs : K s.finishStep.csrs s.prv := h.csrs
  unfold State.updatePerformance
  dsimp only
  split
  · exact hcsrs
  · exact hK.counter (CsrTable.eqUpToCounters_set64 _ _ rfl rfl) hcsrs

/-- A step keeps the property if its instruction does. -/
theorem RunClosed.stepWith {exec : IssM Unit} {s : State} (hs : StepInvariant K al s)
    (hexec : Triple (· = s.started) exec (fun _ ↦ Control K al) fun _ ↦ Steady K al) :
    Triple (· = s) (stepWith exec) (fun _ ↦ StepInvariant K al) (fun _ _ ↦ True) := by
  have hcontrol := Triple.handle (F := fun _ ↦ Steady K al)
    (Triple.bind hexec fun _ ↦ Controls.of_keeps hK.takePendingInterrupt) hK.takeTrap
  refine (triple_stepWith hcontrol).conseq (fun _ h ↦ h) (fun _ s' h ↦ ?_) fun _ _ h ↦ h
  rcases h with rfl | ⟨s₁, h, rfl⟩
  · exact ⟨hs.csrs, hs.pc⟩
  · exact hK.finishStep h

theorem RunClosed.runStep (env : Env) :
    Triple (fun s ↦ StepInvariant K al s ∧ NextAddresses A s.started) (runStep env)
      (fun _ ↦ StepInvariant K al) (fun _ _ ↦ True) :=
  Triple.of_start fun _ hs ↦
    hK.stepWith hs.1 (hK.execStep env hs.1.started hs.2)

theorem RunClosed.interrupt {s : State} (h : StepInvariant K al s) (irq : Irq) :
    StepInvariant K al (s.interrupt irq) := by
  unfold State.interrupt
  split
  case h_1 bit hbit => exact ⟨hK.irq irq hbit h.csrs, h.pc⟩
  case h_2 => exact h

end Step

/-- The states of the runs that start in `start` and only take steps in states of `ok`. -/
inductive Reaches (env : Env) (start ok : State → Prop) : State → Prop
  | init {s : State} : start s → Reaches env start ok s
  | step {s s' : State} : Reaches env start ok s → ok s → runStep env s = .ok () s' →
      Reaches env start ok s'
  | irq {s : State} (irq : Irq) : Reaches env start ok s → Reaches env start ok (s.interrupt irq)

theorem Reachable.reaches {env : Env} {s : State} (h : Reachable env s) :
    Reaches env State.Initial (fun _ ↦ True) s := by
  induction h with
  | init hinit => exact .init hinit
  | step _ hstep ih => exact .step ih trivial hstep
  | irq irq _ ih => exact .irq irq ih

theorem RunClosed.stepInvariant {A : Nat → Prop} {K : CsrTable → Nat → Prop} {al : BitVec 32}
    (hK : RunClosed A K al) {env : Env} {start ok : State → Prop}
    (hstart : ∀ s, start s → StepInvariant K al s) (hok : ∀ s, ok s → NextAddresses A s.started)
    {s : State} (h : Reaches env start ok s) : StepInvariant K al s := by
  induction h with
  | init hinit => exact hstart _ hinit
  | step _ hs hstep ih => exact (hK.runStep env).of_ok ⟨ih, hok _ hs⟩ hstep
  | irq irq _ ih => exact hK.interrupt ih irq

theorem RegFile.write_constant_self (regs : RegFile) (index : BitVec 5) (value : BitVec 32) :
    regs.write index (constant value) index = constant value := by
  have hwidth : (constant value).getWidth = 32 := rfl
  have hnot : ¬ (constant value).getWidth < 32 := Nat.lt_irrefl 32
  rw [RegFile.write, if_neg hnot, dif_pos hwidth, RegFile.set_self]

theorem finishStep_zero (s : State) :
    s.finishStep.updatePerformance.regs RegFile.zero = constant 0#32 :=
  RegFile.write_constant_self s.regs RegFile.zero 0#32

theorem zero_runStep (env : Env) :
    Triple (fun s ↦ s.regs RegFile.zero = constant 0#32) (runStep env)
      (fun _ s ↦ s.regs RegFile.zero = constant 0#32) fun _ _ ↦ True := by
  refine Triple.of_start fun s hs ↦ ?_
  have hstep : Triple (· = s) (runStep env) _ _ := triple_stepWith (Triple.true_true _)
  refine hstep.conseq (fun _ h ↦ h) (fun _ s' h ↦ ?_) fun _ _ h ↦ h
  rcases h with rfl | ⟨s₁, -, rfl⟩
  · exact hs
  · exact finishStep_zero s₁

theorem Reaches.zero {env : Env} {start ok : State → Prop}
    (hstart : ∀ s, start s → s.regs RegFile.zero = constant 0#32) {s : State}
    (h : Reaches env start ok s) : s.regs RegFile.zero = constant 0#32 := by
  induction h with
  | init hinit => exact hstart _ hinit
  | step _ _ hstep ih => exact (zero_runStep env).of_ok ih hstep
  | @irq s irq _ ih =>
    unfold State.interrupt
    split
    · exact ih
    · exact ih

theorem MachineInvariant.runClosed {A : Nat → Prop} : RunClosed A MachineInvariant 1#32 where
  toCsrClosed := MachineInvariant.closed
  aligned := .inl rfl
  mepc := fun h ↦ h.mepc
  returnMachine := fun h ↦ h.returnMachine
  setCause := fun mode interrupt code h ↦ h.setCause mode interrupt code
  setTval := fun mode value h ↦ h.setTval mode value
  enter := by
    intro csrs prv mode epc hmode hlower hepc h
    have hle : mode ≤ MachineMode := by
      rcases hmode with rfl | rfl | rfl <;> decide
    exact h.enter hle (fun hlt ↦ Nat.lt_of_le_of_ne h.mode (hlower hlt)) hepc
  irq := fun _ _ h ↦ h.set_of_ne _ (by decide) (by decide) (by decide)

theorem State.Initial.stepInvariant {s : State} (h : s.Initial) :
    StepInvariant MachineInvariant 1#32 s := by
  obtain ⟨hartId, useEBaseIsa, hcsrs⟩ := h.csrs
  have hnot : ¬ s.prv < MachineMode := by
    rw [h.prv]
    exact Nat.lt_irrefl _
  have hmisa : s.csrs .misa =
      if useEBaseIsa then (misaDefault &&& ~~~0x100#32) ||| 0x10#32 else misaDefault := by
    rw [hcsrs]
    rfl
  refine ⟨⟨?_, ?_, ?_, h.prv.le, fun hlt ↦ absurd hlt hnot, fun hlt ↦ absurd hlt hnot⟩, h.pc⟩
  · rw [CsrTable.hasCExtension, CsrTable.hasExtension, hmisa]
    cases useEBaseIsa <;> decide
  · rw [CsrTable.hasUserModeExtension, CsrTable.hasExtension, hmisa]
    cases useEBaseIsa <;> decide
  · rw [hcsrs]
    exact BitVec.zero_and

theorem Reachable.stepInvariant {env : Env} {s : State} (h : Reachable env s) :
    StepInvariant MachineInvariant 1#32 s :=
  MachineInvariant.runClosed.stepInvariant (A := fun _ ↦ True)
    (fun _ h ↦ State.Initial.stepInvariant h) (fun _ _ _ _ _ ↦ trivial) h.reaches

end CoverageVP.Iss
