import CoverageVP.Iss.Reachable

/-!
# The entry into a trap handler

The entry into a mode saves the interrupt enable bit of the mode, the mode it comes from and the
program counter, and leaves the other registers alone.
-/

namespace CoverageVP.Iss

namespace CsrTable

variable (csrs : CsrTable)

/-- The interrupt enable bit of a mode. -/
def interruptEnable (mode : Nat) : BitVec 1 :=
  if mode = MachineMode then csrs.mstatusMie
  else if mode = SupervisorMode then csrs.mstatusSie
  else csrs.mstatusUie

/-- The interrupt enable bit before the last trap that a mode took. -/
def previousInterruptEnable (mode : Nat) : BitVec 1 :=
  if mode = MachineMode then csrs.mstatusMpie
  else if mode = SupervisorMode then csrs.mstatusSpie
  else csrs.mstatusUpie

theorem interruptEnable_congr {csrs csrs' : CsrTable} (h : csrs' .mstatus = csrs .mstatus)
    (mode : Nat) : csrs'.interruptEnable mode = csrs.interruptEnable mode := by
  simp only [interruptEnable, mstatusMie, mstatusSie, mstatusUie, h]

theorem previousInterruptEnable_congr {csrs csrs' : CsrTable} (h : csrs' .mstatus = csrs .mstatus)
    (mode : Nat) : csrs'.previousInterruptEnable mode = csrs.previousInterruptEnable mode := by
  simp only [previousInterruptEnable, mstatusMpie, mstatusSpie, mstatusUpie, h]

/-- The entry into a mode saves what it replaces. -/
structure Entered (mode pp : Nat) (epc : BitVec 32) (csrs csrs' : CsrTable) : Prop where
  epc : csrs' (epcReg mode) = epc
  others : ∀ r, r ≠ .mstatus → r ≠ epcReg mode → csrs' r = csrs r
  enable : csrs'.interruptEnable mode = 0#1
  previous : csrs'.previousInterruptEnable mode = csrs.interruptEnable mode
  mpp : mode = MachineMode → csrs'.mstatusMpp = BitVec.ofNat 2 pp
  spp : mode = SupervisorMode → csrs'.mstatusSpp = BitVec.ofNat 1 pp

theorem entered_enter {mode : Nat} (pp : Nat) (epc : BitVec 32)
    (hmode : IsMode mode) :
    Entered mode pp epc csrs (csrs.enter mode pp epc) := by
  rcases hmode with rfl | rfl | rfl
  · change Entered _ _ _ _ ((csrs.set .mepc epc).enterMachine pp)
    constructor
    · rw [enterMachine, setMstatus_of_ne _ _ _ (by decide), setMstatus_of_ne _ _ _ (by decide),
        setMstatus_of_ne _ _ _ (by decide)]
      exact CsrTable.set_self _ _ _
    · intro r hr hepc
      rw [enterMachine, setMstatus_of_ne _ _ _ hr, setMstatus_of_ne _ _ _ hr,
        setMstatus_of_ne _ _ _ hr]
      exact CsrTable.set_of_ne _ _ hepc
    · change field _ 3 1 = _
      rw [enterMachine, setMstatus_self, setMstatus_self, setMstatus_self,
        field_setField_of_disjoint _ _ (by decide) (by decide), field_setField_self _ _ (by decide)]
    · change field _ 7 1 = _
      rw [enterMachine, setMstatus_self, setMstatus_self, setMstatus_self,
        field_setField_of_disjoint _ _ (by decide) (by decide),
        field_setField_of_disjoint _ _ (by decide) (by decide), field_setField_self _ _ (by decide)]
      rfl
    · intro _
      change field _ 11 2 = _
      rw [enterMachine, setMstatus_self, field_setField_self _ _ (by decide)]
    · exact fun h ↦ absurd h (by decide)
  · change Entered _ _ _ _ ((csrs.set .sepc epc).enterSupervisor pp)
    constructor
    · rw [enterSupervisor, setMstatus_of_ne _ _ _ (by decide), setMstatus_of_ne _ _ _ (by decide),
        setMstatus_of_ne _ _ _ (by decide)]
      exact CsrTable.set_self _ _ _
    · intro r hr hepc
      rw [enterSupervisor, setMstatus_of_ne _ _ _ hr, setMstatus_of_ne _ _ _ hr,
        setMstatus_of_ne _ _ _ hr]
      exact CsrTable.set_of_ne _ _ hepc
    · change field _ 1 1 = _
      rw [enterSupervisor, setMstatus_self, setMstatus_self, setMstatus_self,
        field_setField_of_disjoint _ _ (by decide) (by decide), field_setField_self _ _ (by decide)]
    · change field _ 5 1 = _
      rw [enterSupervisor, setMstatus_self, setMstatus_self, setMstatus_self,
        field_setField_of_disjoint _ _ (by decide) (by decide),
        field_setField_of_disjoint _ _ (by decide) (by decide), field_setField_self _ _ (by decide)]
      rfl
    · exact fun h ↦ absurd h (by decide)
    · intro _
      change field _ 8 1 = _
      rw [enterSupervisor, setMstatus_self, field_setField_self _ _ (by decide)]
  · change Entered _ _ _ _ (csrs.set .uepc epc).enterUser
    constructor
    · rw [enterUser, setMstatus_of_ne _ _ _ (by decide), setMstatus_of_ne _ _ _ (by decide)]
      exact CsrTable.set_self _ _ _
    · intro r hr hepc
      rw [enterUser, setMstatus_of_ne _ _ _ hr, setMstatus_of_ne _ _ _ hr]
      exact CsrTable.set_of_ne _ _ hepc
    · change field _ 0 1 = _
      rw [enterUser, setMstatus_self, setMstatus_self, field_setField_self _ _ (by decide)]
    · change field _ 4 1 = _
      rw [enterUser, setMstatus_self, setMstatus_self,
        field_setField_of_disjoint _ _ (by decide) (by decide), field_setField_self _ _ (by decide)]
      rfl
    · exact fun h ↦ absurd h (by decide)
    · exact fun h ↦ absurd h (by decide)

end CsrTable

end CoverageVP.Iss
