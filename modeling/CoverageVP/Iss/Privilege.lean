import CoverageVP.Iss.Reachable

/-!
# Isolation of machine mode

What an instruction below machine mode leaves of the machine level state. The privilege that a CSR
address requires protects the registers; a return from a machine mode handler is executed in every
mode, and in a lower mode enables the interrupts of machine mode.
-/

namespace CoverageVP.Iss

open Lib Clover Instr Csr

/-- The mode does not rise and the machine level state is the same. -/
structure MachineStateKept (s s' : State) : Prop where
  prv : s'.prv ≤ s.prv
  mstatus : s'.csrs .mstatus &&& ~~~SSTATUS_MASK = s.csrs .mstatus &&& ~~~SSTATUS_MASK
  mie : s'.csrs .mie &&& ~~~SIE_MASK = s.csrs .mie &&& ~~~SIE_MASK
  mip : s'.csrs .mip &&& ~~~SIP_MASK = s.csrs .mip &&& ~~~SIP_MASK
  mtvec : s'.csrs .mtvec = s.csrs .mtvec
  mepc : s'.csrs .mepc = s.csrs .mepc
  mcause : s'.csrs .mcause = s.csrs .mcause
  mtval : s'.csrs .mtval = s.csrs .mtval
  mscratch : s'.csrs .mscratch = s.csrs .mscratch
  medeleg : s'.csrs .medeleg = s.csrs .medeleg
  mideleg : s'.csrs .mideleg = s.csrs .mideleg
  mcounteren : s'.csrs .mcounteren = s.csrs .mcounteren
  mcountinhibit : s'.csrs .mcountinhibit = s.csrs .mcountinhibit
  pmpaddr : ∀ i, s'.csrs (.pmpaddr i) = s.csrs (.pmpaddr i)
  pmpcfg : ∀ i, s'.csrs (.pmpcfg i) = s.csrs (.pmpcfg i)

/-! ## Writes of lower modes -/

/-- Only bits that lower modes can write differ. -/
def LowerBitsOnly (csrs₀ csrs : CsrTable) : Prop :=
  ∀ r : CsrReg, csrs r &&& ~~~r.lowerMask = csrs₀ r &&& ~~~r.lowerMask

theorem LowerBitsOnly.eq {csrs₀ csrs : CsrTable} (h : LowerBitsOnly csrs₀ csrs) {r : CsrReg}
    (hr : r.lowerMask = 0#32) : csrs r = csrs₀ r := by
  have hmasked := h r
  rwa [hr, BitVec.not_zero, BitVec.and_allOnes, BitVec.and_allOnes] at hmasked

theorem LowerBitsOnly.machineStateKept {s s' : State} (h : LowerBitsOnly s.csrs s'.csrs)
    (hprv : s'.prv ≤ s.prv) : MachineStateKept s s' where
  prv := hprv
  mstatus := h .mstatus
  mie := h .mie
  mip := h .mip
  mtvec := h.eq rfl
  mepc := h.eq rfl
  mcause := h.eq rfl
  mtval := h.eq rfl
  mscratch := h.eq rfl
  medeleg := h.eq rfl
  mideleg := h.eq rfl
  mcounteren := h.eq rfl
  mcountinhibit := h.eq rfl
  pmpaddr := fun _ ↦ h.eq rfl
  pmpcfg := fun _ ↦ h.eq rfl

theorem CsrReg.lowerMask_of_isCounter {r : CsrReg} (h : r.isCounter = true) :
    r.lowerMask = BitVec.allOnes 32 := by
  cases r <;> first
    | rfl
    | cases h

theorem lowerBitsOnly_closed {csrs₀ : CsrTable} {prv₀ : Nat} (hprv : prv₀ < MachineMode) :
    CsrClosed (fun _ ↦ True) fun csrs prv ↦ LowerBitsOnly csrs₀ csrs ∧ prv = prv₀ where
  counter := by
    intro csrs csrs' prv heq h
    refine ⟨fun r ↦ ?_, h.2⟩
    cases hr : r.isCounter with
    | true => simp [CsrReg.lowerMask_of_isCounter hr]
    | false => rw [heq r hr, h.1 r]
  write := by
    intro csrs prv addr r mask value _ hp hw h
    refine ⟨fun r' ↦ ?_, h.2⟩
    by_cases hr : r' = r
    · subst hr
      have hlt : csrPrivilege addr < MachineMode := by
        rw [h.2] at hp
        exact Nat.lt_of_le_of_lt hp hprv
      rw [CsrTable.set_self, maskedWrite_and_of_disjoint ((permitted_of_writable hw).lower hlt), h.1 r']
    · rw [CsrTable.set_of_ne _ _ hr, h.1 r']

/-! ## Returns in lower modes -/

/-- In a lower mode the stacked bits are known, so that a return only enables interrupts. -/
theorem returnMachine_mstatus_lower {csrs : CsrTable} {prv : Nat} (h : MachineInvariant csrs prv)
    (hprv : prv < MachineMode) : csrs.returnMachine .mstatus = setField (csrs .mstatus) 3 1#1 := by
  have hmpie : field (setField (csrs .mstatus) 3 1#1) 7 1 = 1#1 := by
    rw [field_setField_of_disjoint _ _ (by decide) (by decide)]
    exact h.mpie hprv
  have hmpp : field (setField (csrs .mstatus) 3 1#1) 11 2 = 0#2 := by
    rw [field_setField_of_disjoint _ _ (by decide) (by decide)]
    exact h.mpp hprv
  rw [h.returnMachine_mstatus, h.mpie hprv, setField_of_field_eq hmpie, setField_of_field_eq hmpp]

theorem CsrTable.returnMachine_of_ne (csrs : CsrTable) {r : CsrReg} (h : r ≠ .mstatus) :
    csrs.returnMachine r = csrs r := by
  rw [CsrTable.returnMachine, CsrTable.setMstatus_of_ne _ _ _ h, CsrTable.setMstatus_of_ne _ _ _ h,
    CsrTable.setMstatus_of_ne _ _ _ h]

theorem setField_mie_kept_iff (v : BitVec 32) :
    setField v 3 1#1 &&& ~~~SSTATUS_MASK = v &&& ~~~SSTATUS_MASK ↔ field v 3 1 = 1#1 := by
  constructor
  · intro h
    have hfield : field (setField v 3 1#1) 3 1 = field v 3 1 := field_eq_of_masked h (by decide)
    rw [← hfield, field_setField_self _ _ (by decide)]
  · intro h
    rw [setField_of_field_eq h]

theorem machineStateKept_return_iff {s s' : State} (h : MachineInvariant s.csrs s.prv)
    (hprv : s.prv < MachineMode) (hcsrs : s'.csrs = s.csrs.returnMachine)
    (hprv' : s'.prv = s.csrs.mstatusMpp.toNat) :
    MachineStateKept s s' ↔ s.csrs.mstatusMie = 1#1 := by
  have hmstatus : s'.csrs .mstatus = setField (s.csrs .mstatus) 3 1#1 := by
    rw [hcsrs, returnMachine_mstatus_lower h hprv]
  rw [CsrTable.mstatusMie, ← setField_mie_kept_iff, ← hmstatus]
  constructor
  · exact MachineStateKept.mstatus
  · intro hkept
    refine LowerBitsOnly.machineStateKept (fun r ↦ ?_) ?_
    · by_cases hr : r = .mstatus
      · rw [hr]
        exact hkept
      · rw [hcsrs, CsrTable.returnMachine_of_ne _ hr]
    · rw [hprv', h.mpp hprv]
      exact Nat.zero_le _

/-! ## Isolation -/

/-- `csrrwi x0, mepc, 8; mret; nop` -/
def dropToUser : List (BitVec 8) :=
  [0x73#8, 0x50#8, 0x14#8, 0x34#8, 0x73#8, 0x00#8, 0x20#8, 0x30#8, 0x13#8, 0x00#8, 0x00#8, 0x00#8]

/-- `mret`, which returns to itself in user mode -/
def returnTwice : List (BitVec 8) := [0x73#8, 0x00#8, 0x20#8, 0x30#8]

end CoverageVP.Iss
