import CoverageVP.Iss.Failures
import CoverageVP.Iss.TrapEntry

/-!
# The alignment of the program counter and the zero register

Whatever extensions a core has, the program counter stays aligned for them: the addresses of handlers
are aligned to words, the registers that returns jump to are written under the mask of the alignment
or by traps, and everything else moves the program counter by an even distance and checks the rest.
The zero register is reset after every step.
-/

namespace CoverageVP.Iss

open Lib Clover Instr Csr

/-- A core with the extensions of `misa` at an entry point that is aligned for them. -/
structure State.InitialWith (misa : BitVec 32) (s : State) : Prop where
  zero : s.regs RegFile.zero = constant 0#32
  csrs : ∃ hartId useEBaseIsa, s.csrs = (CsrTable.initial hartId useEBaseIsa).set .misa misa
  prv : s.prv = MachineMode
  pc : s.pc &&& ~~~s.pcAlignmentMask = 0#32

/-! ## The registers that returns jump to -/

/-- The bits that are zero in the address of an instruction. -/
def alignmentBits (misa : BitVec 32) : BitVec 32 := if misa.getLsbD 2 then 1#32 else 3#32

/-- The extensions do not change and the return address is aligned for them. -/
structure AlignedReturn (misa : BitVec 32) (csrs : CsrTable) (prv : Nat) : Prop where
  extensions : csrs .misa = misa
  mepc : csrs .mepc &&& alignmentBits misa = 0#32
  mode : prv ≤ MachineMode

namespace AlignedReturn

variable {misa : BitVec 32} {csrs csrs' : CsrTable} {prv : Nat}

theorem pcAlignmentMask (h : AlignedReturn misa csrs prv) :
    csrs.pcAlignmentMask = ~~~alignmentBits misa := by
  rw [CsrTable.pcAlignmentMask, CsrTable.hasCExtension, CsrTable.hasExtension, h.extensions,
    alignmentBits]
  split <;> rfl

theorem of_eq (h : AlignedReturn misa csrs prv) (hmisa : csrs' .misa = csrs .misa)
    (hmepc : csrs' .mepc = csrs .mepc) : AlignedReturn misa csrs' prv :=
  ⟨hmisa.trans h.extensions, hmepc ▸ h.mepc, h.mode⟩

theorem set_of_ne (h : AlignedReturn misa csrs prv) {r : CsrReg} (value : BitVec 32)
    (hmisa : r ≠ .misa) (hmepc : r ≠ .mepc) : AlignedReturn misa (csrs.set r value) prv :=
  h.of_eq (csrs.set_of_ne _ hmisa.symm) (csrs.set_of_ne _ hmepc.symm)

theorem set_mepc (h : AlignedReturn misa csrs prv) {value : BitVec 32}
    (hvalue : value &&& alignmentBits misa = 0#32) :
    AlignedReturn misa (csrs.set .mepc value) prv where
  extensions := h.extensions
  mepc := by rwa [CsrTable.set_self]
  mode := h.mode

theorem write (h : AlignedReturn misa csrs prv) {addr : Nat} {r : CsrReg} {mask : BitVec 32}
    (hw : writable csrs.pcAlignmentMask addr = some (r, mask)) (value : BitVec 32) :
    AlignedReturn misa (csrs.set r (maskedWrite (csrs r) mask value)) prv := by
  have hpermitted := permitted_of_writable hw
  by_cases hr : r = .mepc
  · subst hr
    refine h.set_mepc ?_
    have hdisjoint : ~~~alignmentBits misa &&& alignmentBits misa = 0#32 := by
      rw [BitVec.and_comm]
      exact BitVec.and_not_self _
    rw [hpermitted.mepc rfl, h.pcAlignmentMask, maskedWrite_and_of_disjoint hdisjoint]
    exact h.mepc
  · exact h.set_of_ne _ hpermitted.misa hr

theorem enter (h : AlignedReturn misa csrs prv) {mode pp : Nat} {epc : BitVec 32}
    (hmode : IsMode mode) (hepc : epc &&& alignmentBits misa = 0#32) :
    AlignedReturn misa (csrs.enter mode pp epc) mode := by
  have hentered := CsrTable.entered_enter csrs pp epc hmode
  have hle : mode ≤ MachineMode := by
    rcases hmode with rfl | rfl | rfl <;> decide
  have hmisa : csrs.enter mode pp epc .misa = csrs .misa := by
    refine hentered.others .misa (by decide) ?_
    rcases hmode with rfl | rfl | rfl <;> decide
  refine ⟨hmisa.trans h.extensions, ?_, hle⟩
  by_cases hreg : CsrReg.mepc = CsrTable.epcReg mode
  · rw [hreg, hentered.epc]
    exact hepc
  · rw [hentered.others .mepc (by decide) hreg]
    exact h.mepc

theorem aligned : AlignedBy (AlignedReturn misa) (alignmentBits misa) := by
  unfold alignmentBits
  cases hc : misa.getLsbD 2 with
  | true => exact .inl rfl
  | false =>
    refine .inr ⟨rfl, fun h ↦ ?_⟩
    rw [CsrTable.hasCExtension, CsrTable.hasExtension, h.extensions]
    exact hc

theorem runClosed : RunClosed (fun _ ↦ True) (AlignedReturn misa) (alignmentBits misa) where
  counter := fun heq h ↦ h.of_eq (heq _ rfl) (heq _ rfl)
  write := fun value _ _ hw h ↦ h.write hw value
  aligned := aligned
  mepc := fun h ↦ h.mepc
  returnMachine := fun {csrs _} h ↦
    ⟨h.extensions, h.mepc, Nat.le_of_lt_succ csrs.mstatusMpp.isLt⟩
  setCause := by
    intro csrs prv mode interrupt code h
    exact h.set_of_ne _ (CsrTable.causeReg_ne (by decide) mode)
      (CsrTable.causeReg_ne (by decide) mode)
  setTval := by
    intro csrs prv mode value h
    exact h.set_of_ne _ (CsrTable.tvalReg_ne (by decide) mode)
      (CsrTable.tvalReg_ne (by decide) mode)
  enter := fun hmode _ hepc h ↦ h.enter hmode hepc
  irq := fun _ _ h ↦ h.set_of_ne _ (by decide) (by decide)

end AlignedReturn

/-! ## Runs -/

theorem State.InitialWith.stepInvariant {misa : BitVec 32} {s : State} (h : s.InitialWith misa) :
    StepInvariant (AlignedReturn misa) (alignmentBits misa) s := by
  obtain ⟨hartId, useEBaseIsa, hcsrs⟩ := h.csrs
  have haligned : AlignedReturn misa s.csrs s.prv := by
    rw [hcsrs]
    exact ⟨CsrTable.set_self _ _ _, BitVec.zero_and, h.prv.le⟩
  refine ⟨haligned, ?_⟩
  rw [← BitVec.not_not (b := alignmentBits misa), ← haligned.pcAlignmentMask]
  exact h.pc

/-- In every run, with every set of extensions, the program counter is aligned and the zero register
is a constant before each step, and the assertions on them do not fail in it. -/
theorem runStep_keeps_alignment {env : Env} {misa : BitVec 32} {s : State}
    (h : Reaches env (State.InitialWith misa) (fun _ ↦ True) s) :
    s.pc &&& ~~~s.pcAlignmentMask = 0#32 ∧
      getValue (s.regs RegFile.zero) = 0#32 ∧
      (s.regs RegFile.zero).symbolic = none ∧ (s.regs RegFile.zero).tainted = false ∧
      ∀ what s', runStep env s = .error (.host (.assertion what)) s' →
        what ≠ .alignedFetch ∧ what ≠ .evenTarget ∧ what ≠ .zeroRegister := by
  have hinv := AlignedReturn.runClosed.stepInvariant (fun _ h ↦ h.stepInvariant)
    (fun _ _ _ _ _ ↦ trivial) h
  have hzero := h.zero fun _ h ↦ h.zero
  have hpc : s.pc &&& ~~~s.pcAlignmentMask = 0#32 := by
    rw [State.pcAlignmentMask, hinv.csrs.pcAlignmentMask, BitVec.not_not]
    exact hinv.pc
  have hvalue : getValue (s.regs RegFile.zero) = 0#32 := by
    rw [hzero, constant_eq]
    rfl
  refine ⟨hpc, hvalue, by rw [hzero, constant_eq], by rw [hzero, constant_eq], ?_⟩
  intro what s' herror
  obtain ⟨error, hthrown, hmay⟩ := (runStep_mayThrow env hvalue hinv.csrs.mode hpc
    (AlignedReturn.aligned.even hinv.pc)).of_error rfl herror
  cases hthrown
  cases hmay <;> simp

/-- `li x5, 8; jal x1, 8; nop; lw x6, 0(x5)` on a core without compressed instructions -/
def uncompressedState : State :=
  (bootState (assemble [0x00800293#32, 0x008000ef#32, 0x13#32, 0x0002a303#32])).setCsr .misa
    0x40143121#32

theorem uncompressedState_initial : uncompressedState.InitialWith 0x40143121#32 where
  zero := rfl
  csrs := ⟨0#32, false, rfl⟩
  prv := rfl
  pc := by decide +kernel

theorem runStep_keeps_alignment_uncompressed :
    ∃ s₁ s₂ s₃, runStep bootEnv uncompressedState = .ok () s₁ ∧ runStep bootEnv s₁ = .ok () s₂ ∧
      runStep bootEnv s₂ = .ok () s₃ ∧ s₃.pc = 16#32 ∧ s₃.pc &&& ~~~s₃.pcAlignmentMask = 0#32 ∧
      (s₃.regs RegFile.zero).tainted = false := by
  have h₁ := eq_ok_of_returns (m := runStep bootEnv) (s := uncompressedState) (by decide +kernel)
  have h₂ := eq_ok_of_returns (m := runStep bootEnv)
    (s := stateAfter (runStep bootEnv) uncompressedState) (by decide +kernel)
  have h₃ := eq_ok_of_returns (m := runStep bootEnv)
    (s := stateAfter (runStep bootEnv) (stateAfter (runStep bootEnv) uncompressedState))
    (by decide +kernel)
  obtain ⟨hpc, -, -, htainted, -⟩ := runStep_keeps_alignment
    (.step (.step (.step (.init uncompressedState_initial) trivial h₁) trivial h₂) trivial h₃)
  exact ⟨_, _, _, h₁, h₂, h₃, by decide +kernel, hpc, htainted⟩

end CoverageVP.Iss
