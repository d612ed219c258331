import CoverageVP.Iss.TrapEntry

/-!
# The return from a trap handler

The return from a handler undoes the entry into its mode: the mode, the program counter and the
interrupt enable bit are restored from where the entry saved them. Every mode has its own fields of
`mstatus` and its own trap registers, and neither the entry nor the return touches those of another
mode, so that handlers of different modes can be nested.
-/

namespace CoverageVP.Iss

open Lib

namespace CsrTable

/-! ## The fields of a mode -/

/-- The fields of `mstatus` that a trap into a mode uses: the interrupt enable bit, its previous
value, and the previous mode, which user mode does not need. -/
def modeMask (mode : Nat) : BitVec 32 :=
  if mode = MachineMode then 0b1100010001000#32
  else if mode = SupervisorMode then 0b100100010#32
  else 0b10001#32

/-- The mode that a return from a handler goes back to. -/
def previousMode (csrs : CsrTable) (mode : Nat) : Nat :=
  if mode = MachineMode then csrs.mstatusMpp.toNat
  else if mode = SupervisorMode then csrs.mstatusSpp.toNat
  else UserMode

/-- The least privileged mode; without user mode, a handler can only return to its own. -/
def leastPrivileged (csrs : CsrTable) (mode : Nat) : Nat :=
  if csrs.hasUserModeExtension then UserMode else mode

/-- The trap registers of a mode. -/
def trapRegs (mode : Nat) : List CsrReg := [epcReg mode, causeReg mode, tvalReg mode, tvecReg mode]

theorem ne_of_mem_trapRegs {mode other : Nat} (hmode : IsMode mode) (hother : IsMode other)
    (hne : other ≠ mode) : ∀ r ∈ trapRegs other, r ≠ .mstatus ∧ r ≠ epcReg mode := by
  rcases hmode with rfl | rfl | rfl <;> rcases hother with rfl | rfl | rfl <;>
    first
    | exact absurd rfl hne
    | decide

variable {csrs csrs' : CsrTable}

theorem setMstatus_and (csrs : CsrTable) {start len : Nat} (x : BitVec len) {m : BitVec 32}
    (h : (BitVec.allOnes len).setWidth 32 <<< start &&& m = 0#32) :
    csrs.setMstatus start x .mstatus &&& m = csrs .mstatus &&& m := by
  rw [setMstatus_self, setField_eq_maskedWrite, maskedWrite_and_of_disjoint h]

/-- The saved values are fields of the mode. -/
theorem saved_congr {mode : Nat} (hmode : IsMode mode)
    (h : csrs' .mstatus &&& modeMask mode = csrs .mstatus &&& modeMask mode) :
    csrs'.previousInterruptEnable mode = csrs.previousInterruptEnable mode ∧
      csrs'.previousMode mode = csrs.previousMode mode := by
  rcases hmode with rfl | rfl | rfl
  · have hmpie : csrs'.mstatusMpie = csrs.mstatusMpie := field_eq_of_masked h (by decide)
    have hmpp : csrs'.mstatusMpp = csrs.mstatusMpp := field_eq_of_masked h (by decide)
    exact ⟨hmpie, congrArg BitVec.toNat hmpp⟩
  · have hspie : csrs'.mstatusSpie = csrs.mstatusSpie := field_eq_of_masked h (by decide)
    have hspp : csrs'.mstatusSpp = csrs.mstatusSpp := field_eq_of_masked h (by decide)
    exact ⟨hspie, congrArg BitVec.toNat hspp⟩
  · have hupie : csrs'.mstatusUpie = csrs.mstatusUpie := field_eq_of_masked h (by decide)
    exact ⟨hupie, rfl⟩

theorem enter_and (csrs : CsrTable) {mode : Nat} (hmode : IsMode mode) (pp : Nat)
    (epc : BitVec 32) :
    csrs.enter mode pp epc .mstatus &&& ~~~modeMask mode =
      csrs .mstatus &&& ~~~modeMask mode := by
  rcases hmode with rfl | rfl | rfl
  · change (csrs.set .mepc epc).enterMachine pp .mstatus &&& _ = _
    rw [enterMachine, setMstatus_and _ _ (by decide), setMstatus_and _ _ (by decide),
      setMstatus_and _ _ (by decide), set_of_ne _ _ (by decide)]
  · change (csrs.set .sepc epc).enterSupervisor pp .mstatus &&& _ = _
    rw [enterSupervisor, setMstatus_and _ _ (by decide), setMstatus_and _ _ (by decide),
      setMstatus_and _ _ (by decide), set_of_ne _ _ (by decide)]
  · change (csrs.set .uepc epc).enterUser .mstatus &&& _ = _
    rw [enterUser, setMstatus_and _ _ (by decide), setMstatus_and _ _ (by decide),
      set_of_ne _ _ (by decide)]

/-- The mode that is interrupted fits into the field that remembers it. -/
theorem Entered.previousMode {mode pp : Nat} {epc : BitVec 32} (h : Entered mode pp epc csrs csrs')
    (hmode : IsMode mode) (hpp : IsMode pp) (hle : pp ≤ mode) : csrs'.previousMode mode = pp := by
  rcases hmode with rfl | rfl | rfl
  · change csrs'.mstatusMpp.toNat = pp
    rw [h.mpp rfl]
    rcases hpp with rfl | rfl | rfl <;> rfl
  · change csrs'.mstatusSpp.toNat = pp
    rw [h.spp rfl]
    rcases hpp with rfl | rfl | rfl
    · exact absurd hle (by decide)
    · rfl
    · rfl
  · exact (Nat.le_zero.mp hle).symm

/-! ## The return -/

/-- The registers after the return from a handler. -/
def leave (csrs : CsrTable) (mode : Nat) : CsrTable :=
  if mode = MachineMode then csrs.returnMachine
  else if mode = SupervisorMode then csrs.returnSupervisor
  else csrs.returnUser

/-- The return restores the interrupt enable bit and resets what the entry had saved. -/
structure Left (mode : Nat) (csrs csrs' : CsrTable) : Prop where
  others : ∀ r, r ≠ .mstatus → csrs' r = csrs r
  mstatus : csrs' .mstatus &&& ~~~modeMask mode = csrs .mstatus &&& ~~~modeMask mode
  enable : csrs'.interruptEnable mode = csrs.previousInterruptEnable mode
  previous : csrs'.previousInterruptEnable mode = 1#1
  previousMode : csrs'.previousMode mode = csrs.leastPrivileged mode

theorem left_leave (csrs : CsrTable) {mode : Nat} (hmode : IsMode mode) :
    Left mode csrs (csrs.leave mode) := by
  rcases hmode with rfl | rfl | rfl
  · change Left _ _ csrs.returnMachine
    constructor
    · intro r hr
      rw [returnMachine, setMstatus_of_ne _ _ _ hr, setMstatus_of_ne _ _ _ hr,
        setMstatus_of_ne _ _ _ hr]
    · rw [returnMachine, setMstatus_and _ _ (by decide), setMstatus_and _ _ (by decide),
        setMstatus_and _ _ (by decide)]
    · change field _ 3 1 = _
      rw [returnMachine, setMstatus_self, setMstatus_self, setMstatus_self,
        field_setField_of_disjoint _ _ (by decide) (by decide),
        field_setField_of_disjoint _ _ (by decide) (by decide), field_setField_self _ _ (by decide)]
      rfl
    · change field _ 7 1 = _
      rw [returnMachine, setMstatus_self, setMstatus_self,
        field_setField_of_disjoint _ _ (by decide) (by decide), field_setField_self _ _ (by decide)]
    · change (field _ 11 2).toNat = _
      rw [returnMachine, setMstatus_self, field_setField_self _ _ (by decide), leastMode,
        leastPrivileged]
      split <;> rfl
  · change Left _ _ csrs.returnSupervisor
    constructor
    · intro r hr
      rw [returnSupervisor, setMstatus_of_ne _ _ _ hr, setMstatus_of_ne _ _ _ hr,
        setMstatus_of_ne _ _ _ hr]
    · rw [returnSupervisor, setMstatus_and _ _ (by decide), setMstatus_and _ _ (by decide),
        setMstatus_and _ _ (by decide)]
    · change field _ 1 1 = _
      rw [returnSupervisor, setMstatus_self, setMstatus_self, setMstatus_self,
        field_setField_of_disjoint _ _ (by decide) (by decide),
        field_setField_of_disjoint _ _ (by decide) (by decide), field_setField_self _ _ (by decide)]
      rfl
    · change field _ 5 1 = _
      rw [returnSupervisor, setMstatus_self, setMstatus_self,
        field_setField_of_disjoint _ _ (by decide) (by decide), field_setField_self _ _ (by decide)]
    · change (field _ 8 1).toNat = _
      rw [returnSupervisor, setMstatus_self, field_setField_self _ _ (by decide), leastMode,
        leastPrivileged]
      split <;> rfl
  · change Left _ _ csrs.returnUser
    constructor
    · intro r hr
      rw [returnUser, setMstatus_of_ne _ _ _ hr, setMstatus_of_ne _ _ _ hr]
    · rw [returnUser, setMstatus_and _ _ (by decide), setMstatus_and _ _ (by decide)]
    · change field _ 0 1 = _
      rw [returnUser, setMstatus_self, setMstatus_self,
        field_setField_of_disjoint _ _ (by decide) (by decide), field_setField_self _ _ (by decide)]
      rfl
    · change field _ 4 1 = _
      rw [returnUser, setMstatus_self, field_setField_self _ _ (by decide)]
    · rw [leastPrivileged]
      split <;> rfl

end CsrTable

/-! ## The entry and the return -/

theorem switchToTrapHandler_eq (s : State) {mode : Nat} (hmode : IsMode mode) :
    switchToTrapHandler mode s =
      .ok () { s with
        lrScCounter := 0, prv := mode, csrs := s.csrs.enter mode s.prv s.pc,
        pc := s.csrs.handlerAddress mode } := by
  have hvalid : mode = MachineMode ∨ mode = SupervisorMode ∨ mode = UserMode := hmode
  rw [switchToTrapHandler, if_pos hvalid]
  rfl

theorem returnFromTrapHandler_eq (s : State) {mode : Nat} (hmode : IsMode mode) :
    returnFromTrapHandler mode s =
      .ok () { s with
        prv := s.csrs.previousMode mode, csrs := s.csrs.leave mode,
        pc := s.csrs (CsrTable.epcReg mode) } := by
  rcases hmode with rfl | rfl | rfl <;> rfl

/-- A handler of a mode ends in `s'` with what the entry saved in `s`. -/
structure HandlerKeeps (mode : Nat) (s s' : State) : Prop where
  epc : s'.csrs (CsrTable.epcReg mode) = s.csrs (CsrTable.epcReg mode)
  mstatus : s'.csrs .mstatus &&& CsrTable.modeMask mode =
    s.csrs .mstatus &&& CsrTable.modeMask mode

/-- What a trap into a mode leaves behind: `s` is interrupted, the handler runs from `entered` to
`handled`, and its return leads to `s'`. Other bits and registers are those that the handler got and
left. -/
structure TrapReturned (mode : Nat) (s entered handled s' : State) : Prop where
  prv : s'.prv = s.prv
  pc : s'.pc = s.pc
  enable : s'.csrs.interruptEnable mode = s.csrs.interruptEnable mode
  previousEnable : s'.csrs.previousInterruptEnable mode = 1#1
  previousMode : s'.csrs.previousMode mode = handled.csrs.leastPrivileged mode
  mstatus_entered : entered.csrs .mstatus &&& ~~~CsrTable.modeMask mode =
    s.csrs .mstatus &&& ~~~CsrTable.modeMask mode
  mstatus_returned : s'.csrs .mstatus &&& ~~~CsrTable.modeMask mode =
    handled.csrs .mstatus &&& ~~~CsrTable.modeMask mode
  trapRegs : ∀ other, IsMode other → other ≠ mode → ∀ r ∈ CsrTable.trapRegs other,
    entered.csrs r = s.csrs r ∧ s'.csrs r = handled.csrs r

/-- The return from a handler undoes the entry into it, whatever the handler does to the rest of the
state. -/
theorem trap_entry_return {s : State} {mode : Nat} (hprv : IsMode s.prv) (hmode : IsMode mode)
    (hle : s.prv ≤ mode) :
    ∃ entered, switchToTrapHandler mode s = .ok () entered ∧ entered.prv = mode ∧
      ∀ handled, HandlerKeeps mode entered handled →
        ∃ s', returnFromTrapHandler mode handled = .ok () s' ∧
          TrapReturned mode s entered handled s' := by
  have hentered := s.csrs.entered_enter s.prv s.pc hmode
  refine ⟨_, switchToTrapHandler_eq s hmode, rfl, fun handled hkept ↦
    ⟨_, returnFromTrapHandler_eq handled hmode, ?_⟩⟩
  have hleft := handled.csrs.left_leave hmode
  obtain ⟨hsaved, hprevious⟩ := CsrTable.saved_congr hmode hkept.mstatus
  constructor
  · exact hprevious.trans (hentered.previousMode hmode hprv hle)
  · exact hkept.epc.trans hentered.epc
  · calc
      _ = handled.csrs.previousInterruptEnable mode := hleft.enable
      _ = (s.csrs.enter mode s.prv s.pc).previousInterruptEnable mode := hsaved
      _ = s.csrs.interruptEnable mode := hentered.previous
  · exact hleft.previous
  · exact hleft.previousMode
  · exact s.csrs.enter_and hmode s.prv s.pc
  · exact hleft.mstatus
  · intro other hother hne r hr
    obtain ⟨hmstatus, hepc⟩ := CsrTable.ne_of_mem_trapRegs hmode hother hne r hr
    exact ⟨hentered.others r hmstatus hepc, hleft.others r hmstatus⟩

/-- User mode is interrupted, and the handler of supervisor mode returns at once. -/
theorem trap_entry_return_user :
    ∃ entered, switchToTrapHandler SupervisorMode { bootState [] with prv := UserMode } =
        .ok () entered ∧ entered.prv = SupervisorMode ∧
      ∀ handled, HandlerKeeps SupervisorMode entered handled →
        ∃ s', returnFromTrapHandler SupervisorMode handled = .ok () s' ∧
          TrapReturned SupervisorMode { bootState [] with prv := UserMode } entered handled s' :=
  trap_entry_return (.inr (.inr rfl)) (.inr (.inl rfl)) (by decide)

end CoverageVP.Iss
