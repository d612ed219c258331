import CoverageVP.Iss.TrapEntry

/-!
# Interrupts

Which interrupt a core takes, as the privileged architecture specifies it: an interrupt is delegated
to a mode; a mode takes interrupts if it is above the current one, or is the current one and has
them enabled; the highest such mode with a pending interrupt takes it, and among its interrupts the
first in the order of their priority. Only the nine interrupts of that order can be enabled, so that
the core always finds the one to take.
-/

namespace CoverageVP.Iss

open Lib Clover Instr Csr

/-! ## The specification -/

/-- The interrupts: external, software and timer interrupts of machine, supervisor and user mode. -/
def MEI : Nat := 11
def MSI : Nat := 3
def MTI : Nat := 7
def SEI : Nat := 9
def SSI : Nat := 1
def STI : Nat := 5
def UEI : Nat := 8
def USI : Nat := 0
def UTI : Nat := 4

def specifiedOrder : List Nat := [MEI, MSI, MTI, SEI, SSI, STI, UEI, USI, UTI]

namespace State

variable (s : State)

/-- The mode that an interrupt is delegated to. -/
def delegatedTo (code : Nat) : Nat :=
  if (s.csrs .mideleg).getLsbD code = false then MachineMode
  else if (s.csrs .sideleg).getLsbD code = false then SupervisorMode
  else UserMode

/-- An interrupt of a mode is pending, and enabled itself. -/
structure Pending (mode code : Nat) : Prop where
  enabled : (s.csrs .mie).getLsbD code = true
  pending : (s.csrs .mip).getLsbD code = true
  mode : s.delegatedTo code = mode

/-- A mode takes its interrupts. -/
def Enabled (mode : Nat) : Prop :=
  s.prv < mode ∨ s.prv = mode ∧ s.csrs.interruptEnable mode = 1#1

/-- The interrupt that is taken, and the mode that takes it. -/
structure Takes (mode code : Nat) : Prop where
  enabled : s.Enabled mode
  pending : s.Pending mode code
  highest : ∀ mode' code', mode < mode' → s.Enabled mode' → ¬ s.Pending mode' code'
  first : ∃ before after, specifiedOrder = before ++ code :: after ∧
    ∀ c ∈ before, ¬ s.Pending mode c

end State

/-- What an interrupt does to the state. -/
structure InterruptTaken (s : State) (mode code : Nat) (s' : State) : Prop where
  prv : s'.prv = mode
  notBelow : s.prv ≤ mode
  interrupt : s'.csrs.causeInterrupt (CsrTable.causeReg mode) = 1#1
  cause : (s'.csrs.causeExceptionCode (CsrTable.causeReg mode)).toNat = code
  epc : s'.csrs (CsrTable.epcReg mode) = s.pc
  enable : s'.csrs.interruptEnable mode = 0#1
  previous : s'.csrs.previousInterruptEnable mode = s.csrs.interruptEnable mode
  pc : s'.pc = if s.csrs.vectorMode (CsrTable.tvecReg mode) = CsrTable.Vectored then
      s.csrs.baseAddress (CsrTable.tvecReg mode) + BitVec.ofNat 32 (4 * code)
    else s.csrs.baseAddress (CsrTable.tvecReg mode)
  others : ∀ r, r ≠ .mstatus → r ≠ CsrTable.epcReg mode → r ≠ CsrTable.causeReg mode →
    s'.csrs r = s.csrs r
  regs : s'.regs = s.regs
  mem : s'.mem = s.mem

/-- Only the specified interrupts are enabled. -/
def CsrTable.OnlySpecified (csrs : CsrTable) : Prop := csrs .mie &&& ~~~MIE_MASK = 0#32

/-! ## The interrupt that is chosen -/

namespace State

variable (s : State)

/-- The pending interrupts of a mode. -/
def pendingFor (mode : Nat) : BitVec 32 :=
  if mode = MachineMode then s.csrs .mie &&& s.csrs .mip &&& ~~~s.csrs .mideleg
  else if mode = SupervisorMode then
    s.csrs .mie &&& s.csrs .mip &&& s.csrs .mideleg &&& ~~~s.csrs .sideleg
  else s.csrs .mie &&& s.csrs .mip &&& s.csrs .mideleg &&& s.csrs .sideleg

variable {s}

theorem getLsbD_pendingFor {mode : Nat} (hmode : IsMode mode) (code : Nat) :
    (s.pendingFor mode).getLsbD code = true ↔ s.Pending mode code := by
  have hpending : s.Pending mode code ↔ (s.csrs .mie).getLsbD code = true ∧
      (s.csrs .mip).getLsbD code = true ∧ s.delegatedTo code = mode :=
    ⟨fun h ↦ ⟨h.enabled, h.pending, h.mode⟩, fun h ↦ ⟨h.1, h.2.1, h.2.2⟩⟩
  rw [hpending, State.delegatedTo]
  have hlt : (s.csrs .mie).getLsbD code = true → code < 32 := BitVec.lt_of_getLsbD
  rcases hmode with rfl | rfl | rfl
  all_goals
    cases hmideleg : (s.csrs .mideleg).getLsbD code <;>
    cases hsideleg : (s.csrs .sideleg).getLsbD code <;>
    simp [pendingFor, MachineMode, SupervisorMode, UserMode, hmideleg, hsideleg] <;> tauto

theorem pendingFor_eq_zero_iff {mode : Nat} (hmode : IsMode mode) :
    s.pendingFor mode = 0#32 ↔ ∀ code, ¬ s.Pending mode code := by
  constructor
  · intro h code hpending
    rw [← getLsbD_pendingFor hmode, h, BitVec.getLsbD_zero] at hpending
    cases hpending
  · intro h
    apply BitVec.eq_of_getLsbD_eq
    intro code _
    rw [BitVec.getLsbD_zero, ← Bool.not_eq_true, getLsbD_pendingFor hmode]
    exact h code

/-- Only the three modes have interrupts. -/
theorem Pending.isMode {mode code : Nat} (h : s.Pending mode code) : IsMode mode := by
  rw [← h.mode, State.delegatedTo]
  split
  · exact .inl rfl
  split
  · exact .inr (.inl rfl)
  · exact .inr (.inr rfl)

variable (s) in
/-- A mode has interrupts to take. -/
def HasInterrupts (mode : Nat) : Prop := s.pendingFor mode ≠ 0#32 ∧ s.Enabled mode

theorem hasInterrupts_iff {mode : Nat} (hmode : IsMode mode) :
    s.HasInterrupts mode ↔ (∃ code, s.Pending mode code) ∧ s.Enabled mode := by
  rw [HasInterrupts, ne_eq, pendingFor_eq_zero_iff hmode]
  simp

/-- The user mode has interrupts to take only if it is the current mode. -/
theorem enabled_user_iff : s.Enabled UserMode ↔ s.prv = UserMode ∧ s.csrs.mstatusUie = 1#1 :=
  or_iff_right (Nat.not_lt_zero _)

instance (mode : Nat) : Decidable (s.HasInterrupts mode) :=
  inferInstanceAs (Decidable (_ ∧ (_ ∨ _)))

/-- The modes are asked from the highest to the lowest. -/
theorem computePendingInterrupts_eq_ite :
    s.computePendingInterrupts =
      if s.csrs .mie &&& s.csrs .mip = 0#32 then none
      else if s.HasInterrupts MachineMode then some (MachineMode, s.pendingFor MachineMode)
      else if s.HasInterrupts SupervisorMode then some (SupervisorMode, s.pendingFor SupervisorMode)
      else if s.HasInterrupts UserMode then some (UserMode, s.pendingFor UserMode)
      else none := by
  have huser : s.HasInterrupts UserMode ↔ s.pendingFor UserMode ≠ 0#32 ∧ s.prv = UserMode ∧
      s.csrs.mstatusUie = 1#1 := and_congr_right fun _ ↦ enabled_user_iff
  rw [if_congr huser rfl rfl]
  rfl

theorem not_lt_machineMode {mode : Nat} (h : IsMode mode) : ¬ MachineMode < mode := by
  rcases h with rfl | rfl | rfl <;> decide

theorem computePendingInterrupts_eq :
    s.computePendingInterrupts = none ∧ (∀ mode, IsMode mode → ¬ s.HasInterrupts mode) ∨
      ∃ mode, s.computePendingInterrupts = some (mode, s.pendingFor mode) ∧ IsMode mode ∧
        s.HasInterrupts mode ∧ ∀ mode', IsMode mode' → mode < mode' → ¬ s.HasInterrupts mode' := by
  rw [computePendingInterrupts_eq_ite]
  by_cases hpending : s.csrs .mie &&& s.csrs .mip = 0#32
  · refine .inl ⟨if_pos hpending, fun mode _ h ↦ h.1 ?_⟩
    unfold pendingFor
    rw [hpending]
    simp
  rw [if_neg hpending]
  by_cases hM : s.HasInterrupts MachineMode
  · rw [if_pos hM]
    exact .inr ⟨MachineMode, rfl, .inl rfl, hM, fun _ h hlt ↦ absurd hlt (not_lt_machineMode h)⟩
  rw [if_neg hM]
  by_cases hS : s.HasInterrupts SupervisorMode
  · rw [if_pos hS]
    refine .inr ⟨SupervisorMode, rfl, .inr (.inl rfl), hS, ?_⟩
    rintro mode' (rfl | rfl | rfl) hlt
    · exact hM
    · exact absurd hlt (by decide)
    · exact absurd hlt (by decide)
  rw [if_neg hS]
  by_cases hU : s.HasInterrupts UserMode
  · rw [if_pos hU]
    refine .inr ⟨UserMode, rfl, .inr (.inr rfl), hU, ?_⟩
    rintro mode' (rfl | rfl | rfl) hlt
    · exact hM
    · exact hS
    · exact absurd hlt (by decide)
  · rw [if_neg hU]
    refine .inl ⟨rfl, ?_⟩
    rintro mode (rfl | rfl | rfl)
    · exact hM
    · exact hS
    · exact hU

theorem mem_specifiedOrder (h : s.csrs.OnlySpecified) {mode code : Nat}
    (hcode : s.Pending mode code) : code ∈ specifiedOrder := by
  have hlt : code < 32 := BitVec.lt_of_getLsbD hcode.enabled
  have hbit : (s.csrs .mie &&& ~~~MIE_MASK).getLsbD code = false := by
    rw [h, BitVec.getLsbD_zero]
  rw [BitVec.getLsbD_and, hcode.enabled, Bool.true_and, BitVec.getLsbD_not, decide_eq_true hlt,
    Bool.true_and, Bool.not_eq_false'] at hbit
  have hall : ∀ code < 32, MIE_MASK.getLsbD code = true → code ∈ specifiedOrder := by decide
  exact hall code hlt hbit

/-- The interrupt that a mode takes is the first one of the order. -/
theorem find_interruptPriority {mode code : Nat} (hmode : IsMode mode) :
    interruptPriority.find? (fun code ↦ (s.pendingFor mode).getLsbD code) = some code ↔
      s.Pending mode code ∧ ∃ before after, specifiedOrder = before ++ code :: after ∧
        ∀ c ∈ before, ¬ s.Pending mode c := by
  rw [List.find?_eq_some_iff_append]
  simp only [Bool.not_eq_true', ← Bool.not_eq_true, getLsbD_pendingFor hmode]
  rfl

theorem exists_find_interruptPriority (h : s.csrs.OnlySpecified) {mode : Nat} (hmode : IsMode mode)
    (hready : s.HasInterrupts mode) :
    ∃ code, interruptPriority.find? (fun code ↦ (s.pendingFor mode).getLsbD code) = some code := by
  obtain ⟨code, hcode⟩ := ((hasInterrupts_iff hmode).mp hready).1
  rw [← Option.isSome_iff_exists, List.find?_isSome]
  exact ⟨code, mem_specifiedOrder h hcode, (getLsbD_pendingFor hmode code).mpr hcode⟩

variable (s) in
/-- The state after an interrupt is taken. -/
def interrupted (mode code : Nat) : State :=
  let csrs := s.csrs.setCause (CsrTable.causeReg mode) 1#1 code
  { s with
    lrScCounter := 0
    prv := mode
    csrs := csrs.enter mode s.prv s.pc
    pc := csrs.handlerAddress mode }

theorem triple_takePendingInterrupt {mode code : Nat} (hmode : IsMode mode)
    (hcompute : s.computePendingInterrupts = some (mode, s.pendingFor mode))
    (hfind : interruptPriority.find? (fun code ↦ (s.pendingFor mode).getLsbD code) = some code) :
    Triple (· = s) takePendingInterrupt (fun _ s' ↦ s' = s.interrupted mode code)
      fun _ _ ↦ False := by
  refine Triple.read_bind fun s' h ↦ ?_
  subst h
  rw [hcompute]
  refine Triple.bind (Q := fun _ s₁ ↦ s₁ =
    { s' with csrs := s'.csrs.setCause (CsrTable.causeReg mode) 1#1 code }) ?_ fun _ ↦ ?_
  · unfold prepareInterrupt
    rw [hfind]
    refine Triple.ite (fun _ ↦ Triple.update fun s₁ h₁ ↦ ?_) fun h ↦ absurd hmode h
    rw [h₁]
  · refine Triple.bind (Q := fun _ s₁ ↦ s₁ =
      { s' with
        csrs := s'.csrs.setCause (CsrTable.causeReg mode) 1#1 code
        lrScCounter := 0 }) (Triple.update fun s₁ h₁ ↦ by rw [h₁]) fun _ ↦ ?_
    refine Triple.ite (fun _ ↦ Triple.update fun s₁ h₁ ↦ ?_) fun h ↦ absurd hmode h
    rw [h₁]
    rfl

theorem causeReg_ne_epcReg (mode : Nat) : CsrTable.causeReg mode ≠ CsrTable.epcReg mode :=
  CsrTable.causeReg_ne ⟨CsrTable.epcReg_ne (by decide) mode, CsrTable.epcReg_ne (by decide) mode,
    CsrTable.epcReg_ne (by decide) mode⟩ mode

theorem causeReg_ne_tvecReg (mode : Nat) : CsrTable.causeReg mode ≠ CsrTable.tvecReg mode :=
  CsrTable.causeReg_ne ⟨CsrTable.tvecReg_ne (by decide) mode, CsrTable.tvecReg_ne (by decide) mode,
    CsrTable.tvecReg_ne (by decide) mode⟩ mode

theorem interrupted_taken {mode code : Nat} (hmode : IsMode mode) (hcode : code < 32)
    (hle : s.prv ≤ mode) : InterruptTaken s mode code (s.interrupted mode code) := by
  set cause := CsrTable.causeReg mode with hcause
  set csrs := s.csrs.setCause cause 1#1 code with hcsrs
  have hkept : ∀ r, r ≠ cause → csrs r = s.csrs r := fun r hr ↦ CsrTable.set_of_ne _ _ hr
  have hself : csrs cause = setField (setField (s.csrs cause) 31 1#1) 0 (BitVec.ofNat 31 code) :=
    CsrTable.set_self _ _ _
  have hne : cause ≠ .mstatus := CsrTable.causeReg_ne (by decide) mode
  have hmstatus : csrs .mstatus = s.csrs .mstatus := hkept _ hne.symm
  have hentered := CsrTable.entered_enter csrs s.prv s.pc hmode
  have hsame : csrs.enter mode s.prv s.pc cause = csrs cause :=
    hentered.others cause hne (causeReg_ne_epcReg mode)
  have hinterrupt : csrs.causeInterrupt cause = 1#1 := by
    rw [CsrTable.causeInterrupt, hself, field_setField_of_disjoint _ _ (by decide) (by decide),
      field_setField_self _ _ (by decide)]
  have hexception : csrs.causeExceptionCode cause = BitVec.ofNat 31 code := by
    rw [CsrTable.causeExceptionCode, hself, field_setField_self _ _ (by decide)]
  have htvec : csrs (CsrTable.tvecReg mode) = s.csrs (CsrTable.tvecReg mode) :=
    hkept _ (causeReg_ne_tvecReg mode).symm
  refine ⟨rfl, hle, ?_, ?_, hentered.epc, hentered.enable, ?_, ?_, ?_, rfl, rfl⟩
  · change CsrTable.causeInterrupt (csrs.enter mode s.prv s.pc) cause = 1#1
    rwa [CsrTable.causeInterrupt, hsame]
  · change (CsrTable.causeExceptionCode (csrs.enter mode s.prv s.pc) cause).toNat = code
    rw [CsrTable.causeExceptionCode, hsame]
    change (csrs.causeExceptionCode cause).toNat = code
    rw [hexception, BitVec.toNat_ofNat, Nat.mod_eq_of_lt (by omega)]
  · rw [← CsrTable.interruptEnable_congr hmstatus]
    exact hentered.previous
  · change csrs.handlerAddress mode = _
    unfold CsrTable.handlerAddress
    have hoffset : 4#32 * (BitVec.ofNat 31 code).setWidth 32 = BitVec.ofNat 32 (4 * code) := by
      apply BitVec.eq_of_toNat_eq
      rw [BitVec.toNat_mul, BitVec.toNat_setWidth, BitVec.toNat_ofNat, BitVec.toNat_ofNat,
        BitVec.toNat_ofNat]
      omega
    rw [← hcause, hinterrupt, hexception, hoffset, CsrTable.vectorMode, CsrTable.baseAddress, htvec]
    exact if_congr (and_iff_right rfl) rfl rfl
  · intro r hstatus hepc hne
    exact (hentered.others r hstatus hepc).trans (hkept r hne)

end State

/-! ## Runs -/

namespace CsrTable

variable {csrs csrs' : CsrTable}

theorem OnlySpecified.of_eq (h : csrs.OnlySpecified) (heq : csrs' .mie = csrs .mie) :
    csrs'.OnlySpecified := by
  rw [OnlySpecified, heq]
  exact h

theorem OnlySpecified.set_of_ne (h : csrs.OnlySpecified) {r : CsrReg} (value : BitVec 32)
    (hr : r ≠ .mie) : (csrs.set r value).OnlySpecified :=
  h.of_eq (CsrTable.set_of_ne _ _ hr.symm)

/-- The mask of `mie` keeps the other interrupts out. -/
theorem OnlySpecified.write (h : csrs.OnlySpecified) {m : BitVec 32} {addr : Nat} {r : CsrReg}
    {mask : BitVec 32} (hw : writable m addr = some (r, mask)) (value : BitVec 32) :
    (csrs.set r (maskedWrite (csrs r) mask value)).OnlySpecified := by
  by_cases hr : r = .mie
  · subst hr
    rw [OnlySpecified, CsrTable.set_self,
      maskedWrite_and_of_disjoint ((permitted_of_writable hw).mie rfl)]
    exact h
  · exact h.set_of_ne _ hr

theorem OnlySpecified.setMstatus (h : csrs.OnlySpecified) (start : Nat) {len : Nat}
    (x : BitVec len) : (csrs.setMstatus start x).OnlySpecified :=
  h.set_of_ne _ (by decide)

theorem OnlySpecified.returnMachine (h : csrs.OnlySpecified) : csrs.returnMachine.OnlySpecified :=
  ((h.setMstatus _ _).setMstatus _ _).setMstatus _ _

theorem OnlySpecified.enter (h : csrs.OnlySpecified) {mode : Nat} (hmode : IsMode mode) (pp : Nat)
    (epc : BitVec 32) : (csrs.enter mode pp epc).OnlySpecified := by
  refine h.of_eq ((entered_enter csrs pp epc hmode).others .mie (by decide) ?_)
  rcases hmode with rfl | rfl | rfl <;> decide

end CsrTable

/-- The invariant of the runs. -/
def InterruptInvariant (csrs : CsrTable) (prv : Nat) : Prop :=
  MachineInvariant csrs prv ∧ csrs.OnlySpecified

theorem interruptInvariant_runClosed : RunClosed (fun _ ↦ True) InterruptInvariant 1#32 where
  counter := fun heq h ↦
    ⟨MachineInvariant.closed.counter (A := fun _ ↦ True) heq h.1, h.2.of_eq (heq _ rfl)⟩
  write := fun value _ hp hw h ↦
    ⟨MachineInvariant.closed.write (A := fun _ ↦ True) value trivial hp hw h.1, h.2.write hw value⟩
  aligned := .inl rfl
  mepc := fun h ↦ h.1.mepc
  returnMachine := fun h ↦ ⟨h.1.returnMachine, h.2.returnMachine⟩
  setCause := by
    intro csrs prv mode interrupt code h
    exact ⟨h.1.setCause mode interrupt code,
      h.2.set_of_ne _ (CsrTable.causeReg_ne (by decide) mode)⟩
  setTval := by
    intro csrs prv mode value h
    exact ⟨h.1.setTval mode value, h.2.set_of_ne _ (CsrTable.tvalReg_ne (by decide) mode)⟩
  enter := fun hmode hlower hepc h ↦
    ⟨MachineInvariant.runClosed.enter (A := fun _ ↦ True) hmode hlower hepc h.1,
      h.2.enter hmode _ _⟩
  irq := fun irq hbit h ↦
    ⟨MachineInvariant.runClosed.irq (A := fun _ ↦ True) irq hbit h.1, h.2.set_of_ne _ (by decide)⟩

theorem Reachable.interruptInvariant {env : Env} {s : State} (h : Reachable env s) :
    StepInvariant InterruptInvariant 1#32 s := by
  refine interruptInvariant_runClosed.stepInvariant (fun s hs ↦ ?_) (fun _ _ _ _ _ ↦ trivial)
    h.reaches
  obtain ⟨hmachine, hpc⟩ := hs.stepInvariant
  refine ⟨⟨hmachine, ?_⟩, hpc⟩
  obtain ⟨hartId, useEBaseIsa, hcsrs⟩ := hs.csrs
  rw [hcsrs]
  exact BitVec.zero_and

/-- The states in which interrupts may be taken: between two steps and after an instruction, and
after further writes of registers and changes of the interrupt lines. -/
inductive InterruptState (env : Env) : State → Prop
  | reachable {s : State} : Reachable env s → InterruptState env s
  | executed {s s' : State} : Reachable env s → execStep env s.started = .ok () s' →
      InterruptState env s'
  | write {s s' : State} (addr : Nat) (value : BitVec 32) : InterruptState env s →
      setCsrValue addr value s = .ok () s' → InterruptState env s'
  | irq {s : State} (irq : Irq) : InterruptState env s → InterruptState env (s.interrupt irq)

theorem InterruptState.onlySpecified {env : Env} {s : State} (h : InterruptState env s) :
    s.csrs.OnlySpecified := by
  induction h with
  | reachable h => exact h.interruptInvariant.csrs.2
  | executed h hexec =>
    have hcontrol := (interruptInvariant_runClosed.execStep env h.interruptInvariant.started
      fun _ _ _ ↦ trivial).of_ok rfl hexec
    exact hcontrol.csrs.2
  | write addr value _ hwrite ih =>
    exact (keeps_setCsrValue (I := fun s ↦ s.csrs.OnlySpecified)
      (fun _ _ _ value hs hw ↦ hs.write hw value) value).of_ok ih hwrite
  | @irq s irq _ ih =>
    unfold State.interrupt
    split
    · exact ih.set_of_ne _ (by decide)
    · exact ih

theorem State.Takes.hasInterrupts {s : State} {mode code : Nat} (h : s.Takes mode code) :
    s.HasInterrupts mode :=
  (State.hasInterrupts_iff h.pending.isMode).mpr ⟨⟨code, h.pending⟩, h.enabled⟩

/-- The mode that is asked first and the interrupt found first are taken, and no others. -/
theorem takes_iff_of_first {s : State} {mode code : Nat} (hmode : IsMode mode)
    (hready : s.HasInterrupts mode)
    (hhigher : ∀ mode', IsMode mode' → mode < mode' → ¬ s.HasInterrupts mode')
    (hfind : interruptPriority.find? (fun code ↦ (s.pendingFor mode).getLsbD code) = some code)
    (mode' code' : Nat) : s.Takes mode' code' ↔ mode' = mode ∧ code' = code := by
  have hfirst := (State.find_interruptPriority hmode).mp hfind
  constructor
  · intro h
    have hle : ¬ mode < mode' := fun hlt ↦ hhigher mode' h.pending.isMode hlt h.hasInterrupts
    have hge : ¬ mode' < mode := fun hlt ↦ h.highest mode code hlt hready.2 hfirst.1
    obtain rfl : mode' = mode := by omega
    have hfind' := (State.find_interruptPriority hmode).mpr ⟨h.pending, h.first⟩
    exact ⟨rfl, Option.some.inj (hfind'.symm.trans hfind)⟩
  · rintro ⟨rfl, rfl⟩
    refine ⟨hready.2, hfirst.1, fun mode'' code'' hlt henabled hpending ↦ ?_, hfirst.2⟩
    exact hhigher mode'' hpending.isMode hlt
      ((State.hasInterrupts_iff hpending.isMode).mpr ⟨⟨code'', hpending⟩, henabled⟩)

/-- An interrupt is taken if there is one to take, the one that is specified, and otherwise nothing
happens. -/
theorem takePendingInterrupt_as_specified {env : Env} {s : State} (h : InterruptState env s) :
    ∃ s', takePendingInterrupt s = .ok () s' ∧
      ((∀ mode code, ¬ s.Takes mode code) → s' = s) ∧
      ∀ mode code, s.Takes mode code → InterruptTaken s mode code s' := by
  rcases s.computePendingInterrupts_eq with ⟨hnone, hno⟩ | ⟨mode, hsome, hmode, hready, hhigher⟩
  · have hrun : Triple (· = s) takePendingInterrupt (fun _ s' ↦ s' = s) fun _ _ ↦ False := by
      refine Triple.read_bind fun s' hs' ↦ ?_
      subst hs'
      rw [hnone]
      exact Triple.ret fun _ h ↦ h
    obtain ⟨_, s', hok, rfl⟩ := hrun.exists_ok rfl
    exact ⟨s', hok, fun _ ↦ rfl, fun mode code htakes ↦
      absurd htakes.hasInterrupts (hno mode htakes.pending.isMode)⟩
  · obtain ⟨code, hfind⟩ := State.exists_find_interruptPriority h.onlySpecified hmode hready
    have htakes := takes_iff_of_first hmode hready hhigher hfind
    obtain ⟨_, s', hok, rfl⟩ :=
      (State.triple_takePendingInterrupt hmode hsome hfind).exists_ok rfl
    refine ⟨_, hok, fun hnot ↦ absurd ((htakes mode code).mpr ⟨rfl, rfl⟩) (hnot mode code), ?_⟩
    intro mode' code' htaken
    obtain ⟨rfl, rfl⟩ := (htakes mode' code').mp htaken
    exact State.interrupted_taken hmode (BitVec.lt_of_getLsbD htaken.pending.enabled)
      (htaken.enabled.elim Nat.le_of_lt fun h ↦ h.1.le)

/-- A core that has enabled the timer interrupt of machine mode, with the timer's line raised. -/
def timerState : State :=
  (stateAfter (setCsrValue MSTATUS_ADDR 8#32)
    (stateAfter (setCsrValue MIE_ADDR 128#32) (bootState []))).interrupt (.timer true)

theorem timerState_interruptState : InterruptState bootEnv timerState := by
  have hboot : InterruptState bootEnv (bootState []) := .reachable (.init (bootState_initial []))
  have hmie := hboot.write MIE_ADDR 128#32 (eq_ok_of_returns (by decide +kernel))
  exact (hmie.write MSTATUS_ADDR 8#32 (eq_ok_of_returns (by decide +kernel))).irq _

theorem takePendingInterrupt_as_specified_timer :
    timerState.Takes MachineMode MTI ∧
      ∃ s', takePendingInterrupt timerState = .ok () s' ∧
        InterruptTaken timerState MachineMode MTI s' := by
  have htakes : timerState.Takes MachineMode MTI := by
    refine ⟨.inr ⟨rfl, by decide +kernel⟩, ⟨by decide +kernel, by decide +kernel, by decide +kernel⟩,
      fun mode code hlt _ hpending ↦ ?_, [MEI, MSI], [SEI, SSI, STI, UEI, USI, UTI], rfl, ?_⟩
    · exact absurd hlt (State.not_lt_machineMode hpending.isMode)
    · intro c hc hpending
      have hnone : ∀ c ∈ [MEI, MSI], (timerState.csrs .mie).getLsbD c = false := by decide +kernel
      exact absurd hpending.enabled (by rw [hnone c hc]; decide)
  obtain ⟨s', hok, -, htaken⟩ := takePendingInterrupt_as_specified timerState_interruptState
  exact ⟨htakes, s', hok, htaken _ _ htakes⟩

end CoverageVP.Iss
