import CoverageVP.Iss.CsrFrame
import CoverageVP.Iss.PreciseTraps

/-!
# Views of the control and status registers

An address shows some bits of a register, can write some bits of it, and may recompute the register
when it is read. What a read returns is the value of a source that depends on the address only; what
a write changes is one register. From the two follow the law of a read after a write and its frame.
The counters of cycles and time are recomputed, so that a read does not see what was written.
-/

namespace CoverageVP.Iss

open Lib Csr

/-! ## Reads -/

/-- Where a read takes its value from: a constant, a half of the clock or of the number of cycles, or
the bits of a register from a position on. -/
inductive CsrSource
  | hardwired (value : BitVec 32)
  | clock (start : Nat)
  | cycles (start : Nat)
  | register (r : CsrReg) (start : Nat) (mask : BitVec 32)

def CsrSource.value (env : Env) (s : State) : CsrSource → BitVec 32
  | hardwired value => value
  | clock start => (env.mtime s.mtimeReads).extractLsb' start 32
  | cycles start => (BitVec.ofNat 64 s.cycleCounter).extractLsb' start 32
  | register r start mask => (s.csrs r >>> start) &&& mask

def Csr.readSource (addr : Nat) : Option CsrSource :=
  match readMask addr with
  | some (r, mask) => some (.register r 0 mask)
  | none =>
    match addr with
    | TIME_ADDR | MTIME_ADDR => some (.clock 0)
    | TIMEH_ADDR | MTIMEH_ADDR => some (.clock 32)
    | MCYCLE_ADDR => some (.cycles 0)
    | MCYCLEH_ADDR => some (.cycles 32)
    | FFLAGS_ADDR => some (.register .fcsr 0 0x1f#32)
    | FRM_ADDR => some (.register .fcsr 5 0x7#32)
    | TSELECT_ADDR => some (.hardwired 1#32)
    | _ =>
      if isDebug addr || isHpmCounter addr then some (.hardwired 0#32)
      else (registerAt addr).map (.register · 0 (BitVec.allOnes 32))

/-- A counter that the mode may not read, or the page table while it is protected. -/
def State.CsrHidden (s : State) (addr : Nat) : Prop :=
  (((0xC00 ≤ addr ∧ addr ≤ 0xC1F) ∨ (0xC80 ≤ addr ∧ addr ≤ 0xC9F)) ∧
    ((s.prv = SupervisorMode ∧ s.csrs.counterEnabled .mcounteren (addr &&& 0x1F) = false) ∨
      (s.prv = UserMode ∧ (s.csrs.counterEnabled .mcounteren (addr &&& 0x1F) = false ∨
        s.csrs.counterEnabled .scounteren (addr &&& 0x1F) = false)))) ∨
  (addr = SATP_ADDR ∧ s.csrs.mstatusTvm = 1#1)

theorem field_setWidth (v : BitVec 32) (start len : Nat) :
    (field v start len).setWidth 32 = (v >>> start) &&& (BitVec.allOnes len).setWidth 32 := by
  apply BitVec.eq_of_getLsbD_eq
  intro i hi
  simp only [field, BitVec.getLsbD_setWidth, BitVec.getLsbD_extractLsb', BitVec.getLsbD_and,
    BitVec.getLsbD_ushiftRight, BitVec.getLsbD_allOnes, hi, decide_true, Bool.true_and]
  rw [Bool.and_comm]

theorem set64_high (csrs : CsrTable) (low high : CsrReg) (value : BitVec 64) :
    csrs.set64 low high value high = value.extractLsb' 32 32 :=
  CsrTable.set_self _ _ _

theorem set64_low (csrs : CsrTable) {low high : CsrReg} (value : BitVec 64) (hne : low ≠ high) :
    csrs.set64 low high value low = value.extractLsb' 0 32 := by
  rw [CsrTable.set64, CsrTable.set_of_ne _ _ hne, CsrTable.set_self, BitVec.setWidth_eq_extractLsb'
    (by decide)]

theorem result_bind_of_ok {α β : Type} {m : IssM α} {f : α → IssM β} {s s' : State} {a : α}
    (h : m s = .ok a s') : result (m >>= f) s = result (f a) s' := by
  rw [result, bind_of_ok h, result]

theorem result_bind_of_error {α β : Type} {m : IssM α} {f : α → IssM β} {s s' : State} {e : Thrown}
    (h : m s = .error e s') : result (m >>= f) s = none := by
  rw [result, bind_of_error h]

theorem raiseIllegalInstructionIf_of_true {c : Prop} [Decidable c] (h : c) (s : State) :
    raiseIllegalInstructionIf c s = .error (.trap .ILLEGAL_INSTR (s.instr.setWidth 64)) s := by
  rw [raiseIllegalInstructionIf, if_pos h]
  rfl

theorem raiseIllegalInstructionIf_of_false {c : Prop} [Decidable c] (h : ¬ c) (s : State) :
    raiseIllegalInstructionIf c s = .ok () s := by
  rw [raiseIllegalInstructionIf, if_neg h]
  rfl

theorem result_defaultRead32 (addr : Nat) (s : State) :
    result (defaultRead32 addr) s = (registerAt addr).map s.csrs := by
  rw [defaultRead32]
  cases registerAt addr with
  | some r => rfl
  | none => rfl

theorem registerValue (s : State) (env : Env) (r : CsrReg) :
    (CsrSource.register r 0 (BitVec.allOnes 32)).value env s = s.csrs r := by
  rw [CsrSource.value, BitVec.ushiftRight_zero, BitVec.and_allOnes]

theorem map_registerValue (s : State) (env : Env) (r : Option CsrReg) :
    (r.map (CsrSource.register · 0 (BitVec.allOnes 32))).map (·.value env s) = r.map s.csrs := by
  rw [Option.map_map]
  apply congrArg (Option.map · r)
  funext r
  exact registerValue s env r

/-- The addresses that are neither special nor masked. -/
theorem readSource_of_plain {addr : Nat} (hmask : readMask addr = none) (htime : addr ≠ TIME_ADDR)
    (hmtime : addr ≠ MTIME_ADDR) (htimeh : addr ≠ TIMEH_ADDR) (hmtimeh : addr ≠ MTIMEH_ADDR)
    (hmcycle : addr ≠ MCYCLE_ADDR) (hmcycleh : addr ≠ MCYCLEH_ADDR) (hfflags : addr ≠ FFLAGS_ADDR)
    (hfrm : addr ≠ FRM_ADDR) (htselect : addr ≠ TSELECT_ADDR) :
    readSource addr = if isDebug addr || isHpmCounter addr then some (.hardwired 0#32)
      else (registerAt addr).map (.register · 0 (BitVec.allOnes 32)) := by
  unfold readSource
  rw [hmask]
  dsimp only
  split
  case h_10 => rfl
  all_goals contradiction

/-- A read returns the value of its source, unless it is refused. -/
theorem result_getCsrValue (env : Env) (addr : Nat) (s : State) [Decidable (s.CsrHidden addr)] :
    result (getCsrValue env addr) s =
      if s.CsrHidden addr then none else (readSource addr).map (·.value env s) := by
  by_cases hcounter : s.CsrHidden addr ∧ ¬ (addr = SATP_ADDR ∧ s.csrs.mstatusTvm = 1#1)
  · rw [if_pos hcounter.1]
    exact result_bind_of_error
      (raiseIllegalInstructionIf_of_true (hcounter.1.resolve_right hcounter.2) s)
  have hvalid : validateCsrCounterReadAccessRights addr s = .ok () s := by
    refine raiseIllegalInstructionIf_of_false (fun h ↦ hcounter ⟨.inl h, ?_⟩) s
    rintro ⟨rfl, -⟩
    exact absurd h.1 (by decide)
  have hhidden : s.CsrHidden addr ↔ addr = SATP_ADDR ∧ s.csrs.mstatusTvm = 1#1 :=
    ⟨fun h ↦ by_contra fun hne ↦ hcounter ⟨h, hne⟩, .inr⟩
  refine (result_bind_of_ok hvalid).trans ?_
  simp only [hhidden]
  split
  case h_1 r mask hmask =>
    have hne : addr ≠ SATP_ADDR := by
      rintro rfl
      cases hmask
    rw [if_neg fun h ↦ hne h.1]
    simp only [readSource, hmask, Option.map_some, CsrSource.value, BitVec.ushiftRight_zero]
    rfl
  case h_2 hmask =>
    split
    case h_1 | h_2 => exact congrArg some (set64_low s.csrs _ (show CsrReg.time ≠ .timeh by decide))
    case h_3 | h_4 => exact congrArg some (set64_high s.csrs .time .timeh _)
    case h_5 => exact congrArg some (set64_low s.csrs _ (show CsrReg.cycle ≠ .cycleh by decide))
    case h_6 => exact congrArg some (set64_high s.csrs .cycle .cycleh _)
    case h_7 | h_8 => exact congrArg some (registerValue s env _).symm
    case h_9 =>
      by_cases htvm : s.csrs.mstatusTvm = 1#1
      · rw [if_pos ⟨rfl, htvm⟩]
        rw [result, get_bind, bind_of_error (raiseIllegalInstructionIf_of_true htvm s)]
      · rw [if_neg fun h ↦ htvm h.2]
        rw [result, get_bind, bind_of_ok (raiseIllegalInstructionIf_of_false htvm s)]
        exact congrArg some (registerValue s env _).symm
    case h_10 => exact congrArg some (field_setWidth _ 0 5)
    case h_11 => exact congrArg some (field_setWidth _ 5 3)
    case h_12 => rfl
    case h_13 htime hmtime htimeh hmtimeh hmcycle hmcycleh _ _ hsatp hfflags hfrm htselect =>
      have hshown : ¬ (addr = SATP_ADDR ∧ s.csrs.mstatusTvm = 1#1) := fun h ↦ hsatp h.1
      rw [if_neg hshown, readSource_of_plain hmask htime hmtime htimeh hmtimeh hmcycle hmcycleh
        hfflags hfrm htselect]
      split
      · rfl
      · rw [result_defaultRead32, map_registerValue]

/-- The register that an address shows, if it is not hardwired. -/
def Csr.shownRegister (addr : Nat) : Option CsrReg :=
  match readMask addr with
  | some (r, _) => some r
  | none =>
    match addr with
    | FFLAGS_ADDR | FRM_ADDR => some .fcsr
    | _ => registerAt addr

theorem shownRegister_of_readSource {addr start : Nat} {r : CsrReg} {mask : BitVec 32}
    (h : readSource addr = some (.register r start mask)) : shownRegister addr = some r := by
  unfold readSource at h
  unfold shownRegister
  split at h
  case h_1 =>
    cases h
    rfl
  case h_2 =>
    split at h
    case h_7 | h_8 =>
      cases h
      rfl
    case h_10 hfflags hfrm _ =>
      split at h
      · cases h
      · obtain ⟨r', hr', heq⟩ := Option.map_eq_some_iff.mp h
        cases heq
        split
        · contradiction
        · contradiction
        · exact hr'
    all_goals cases h

/-- A read does not depend on a register that its address does not show. -/
theorem value_setCsr {env : Env} {s : State} {addr : Nat} {src : CsrSource} {r : CsrReg}
    (hsrc : readSource addr = some src) (hr : shownRegister addr ≠ some r) (value : BitVec 32) :
    src.value env (s.setCsr r value) = src.value env s := by
  cases src with
  | register r' start mask =>
    have hne : r' ≠ r := by
      rintro rfl
      exact hr (shownRegister_of_readSource hsrc)
    change (s.csrs.set r value r' >>> start) &&& mask = _
    rw [CsrTable.set_of_ne _ _ hne]
    rfl
  | hardwired | clock | cycles => rfl

theorem exists_source_of_result {env : Env} {s : State} {addr : Nat} {x : BitVec 32}
    (h : result (getCsrValue env addr) s = some x) :
    ∃ src, readSource addr = some src ∧ src.value env s = x := by
  classical
  rw [result_getCsrValue] at h
  split at h
  · cases h
  · exact Option.map_eq_some_iff.mp h

/-! ## Writes -/

/-- The bits of a register that an address shows, from a position on. -/
structure CsrView where
  reg : CsrReg
  start : Nat
  writeMask : BitVec 32
  readMask : BitVec 32

/-- A masked write of the bits that are shown, and a masked read of them. -/
def CsrView.after (w : CsrView) (csrs : CsrTable) (value : BitVec 32) : BitVec 32 :=
  maskedWrite (csrs w.reg >>> w.start) w.writeMask value &&& w.readMask

/-- The view of an address that can be written. The masks of registers without a mask are ones. -/
def Csr.view (pcAlignmentMask : BitVec 32) (addr : Nat) : Option CsrView :=
  match addr with
  | FFLAGS_ADDR => some ⟨.fcsr, 0, 0x1f#32, 0x1f#32⟩
  | FRM_ADDR => some ⟨.fcsr, 5, 0x7#32, 0x7#32⟩
  | _ =>
    (writable pcAlignmentMask addr).map fun p ↦
      ⟨p.1, 0, p.2, ((readMask addr).map Prod.snd).getD (BitVec.allOnes 32)⟩

/-- The registers that a write leaves alone: `misa`, and what is not implemented. -/
def Csr.hardwired (addr : Nat) : Bool := addr = MISA_ADDR || isDebug addr || isHpmCounter addr

/-- The value that a read of a writable address recomputes. -/
def recomputedValue (env : Env) (s : State) : Nat → Option (BitVec 32)
  | MCYCLE_ADDR => some ((BitVec.ofNat 64 s.cycleCounter).extractLsb' 0 32)
  | MCYCLEH_ADDR => some ((BitVec.ofNat 64 s.cycleCounter).extractLsb' 32 32)
  | MTIME_ADDR => some ((env.mtime s.mtimeReads).extractLsb' 0 32)
  | MTIMEH_ADDR => some ((env.mtime s.mtimeReads).extractLsb' 32 32)
  | _ => none

/-- What a write of the bits that are shown makes of the register. -/
def CsrView.stored (w : CsrView) (old value : BitVec 32) : BitVec 32 :=
  maskedWrite old (w.writeMask <<< w.start) (value <<< w.start)

theorem maskedWrite_ushiftRight (old mask value : BitVec 32) {start : Nat}
    (hmask : (mask <<< start) >>> start = mask) :
    maskedWrite old (mask <<< start) (value <<< start) >>> start =
      maskedWrite (old >>> start) mask value := by
  apply BitVec.eq_of_getLsbD_eq
  intro i hi
  simp only [maskedWrite, BitVec.getLsbD_ushiftRight, BitVec.getLsbD_or, BitVec.getLsbD_and,
    BitVec.getLsbD_not, BitVec.getLsbD_shiftLeft, hi, decide_true, Bool.true_and]
  by_cases hlt : start + i < 32
  · have hnot : ¬ start + i < start := by omega
    simp [hlt, hnot]
  · have hbit : mask.getLsbD i = false := by
      rw [← hmask, BitVec.getLsbD_ushiftRight]
      exact BitVec.getLsbD_of_ge _ _ (Nat.not_lt.mp hlt)
    simp [hlt, hbit, BitVec.getLsbD_of_ge old _ (Nat.not_lt.mp hlt)]

theorem setField_setWidth (old value : BitVec 32) (start len : Nat) :
    setField old start (value.setWidth len) =
      maskedWrite old ((BitVec.allOnes len).setWidth 32 <<< start) (value <<< start) := by
  have hcut : (value.setWidth len).setWidth 32 = value &&& (BitVec.allOnes len).setWidth 32 := by
    apply BitVec.eq_of_getLsbD_eq
    intro i hi
    simp [hi, Bool.and_comm]
  rw [setField, maskedWrite, ← BitVec.shiftLeft_and_distrib, hcut]

/-- A view shows what it stores. -/
theorem stored_shown (w : CsrView) (csrs : CsrTable) (value : BitVec 32)
    (hmask : (w.writeMask <<< w.start) >>> w.start = w.writeMask) :
    (w.stored (csrs w.reg) value >>> w.start) &&& w.readMask = w.after csrs value := by
  rw [CsrView.stored, maskedWrite_ushiftRight _ _ _ hmask, CsrView.after]

theorem view_cases {m : BitVec 32} {addr : Nat} {w : CsrView} (h : view m addr = some w) :
    (addr = FFLAGS_ADDR ∧ w = ⟨.fcsr, 0, 0x1f#32, 0x1f#32⟩) ∨
      (addr = FRM_ADDR ∧ w = ⟨.fcsr, 5, 0x7#32, 0x7#32⟩) ∨
      (addr ≠ FFLAGS_ADDR ∧ addr ≠ FRM_ADDR ∧ writable m addr = some (w.reg, w.writeMask) ∧
        w.start = 0 ∧ w.readMask = ((readMask addr).map Prod.snd).getD (BitVec.allOnes 32)) := by
  unfold view at h
  split at h
  case h_1 =>
    cases h
    exact .inl ⟨rfl, rfl⟩
  case h_2 =>
    cases h
    exact .inr (.inl ⟨rfl, rfl⟩)
  case h_3 hfflags hfrm =>
    obtain ⟨p, hp, rfl⟩ := Option.map_eq_some_iff.mp h
    exact .inr (.inr ⟨hfflags, hfrm, hp, rfl, rfl⟩)

theorem writeMask_bound {m : BitVec 32} {addr : Nat} {w : CsrView} (h : view m addr = some w) :
    (w.writeMask <<< w.start) >>> w.start = w.writeMask := by
  rcases view_cases h with ⟨-, rfl⟩ | ⟨-, rfl⟩ | ⟨-, -, -, hstart, -⟩
  · rfl
  · rfl
  · rw [hstart, BitVec.shiftLeft_zero, BitVec.ushiftRight_zero]

theorem stored_of_start_eq_zero {w : CsrView} (h : w.start = 0) (old value : BitVec 32) :
    w.stored old value = maskedWrite old w.writeMask value := by
  rw [CsrView.stored, h, BitVec.shiftLeft_zero, BitVec.shiftLeft_zero]

/-- A write through the mask of an address. -/
theorem exists_view_of_writable {m : BitVec 32} {addr : Nat} {r : CsrReg} {mask : BitVec 32}
    (hfflags : addr ≠ FFLAGS_ADDR) (hfrm : addr ≠ FRM_ADDR)
    (hw : writable m addr = some (r, mask)) (s : State) (value : BitVec 32) :
    ∃ w, view m addr = some w ∧ s.setCsr r (maskedWrite (s.csrs r) mask value) =
      s.setCsr w.reg (w.stored (s.csrs w.reg) value) := by
  refine ⟨⟨r, 0, mask, ((readMask addr).map Prod.snd).getD (BitVec.allOnes 32)⟩, ?_, ?_⟩
  · unfold view
    split
    · contradiction
    · contradiction
    · rw [hw]
      rfl
  · rw [stored_of_start_eq_zero rfl]

/-- A write that is not refused stores through the view of its address. -/
theorem triple_setCsrValue_view (addr : Nat) (value : BitVec 32) (s : State)
    (hhard : hardwired addr = false) :
    Triple (· = s) (setCsrValue addr value)
      (fun _ s' ↦ ∃ w, view s.pcAlignmentMask addr = some w ∧
        s' = s.setCsr w.reg (w.stored (s.csrs w.reg) value)) fun _ _ ↦ True := by
  have hmisa : addr ≠ MISA_ADDR := by
    rintro rfl
    cases hhard
  refine Triple.read_bind fun s' hs' ↦ ?_
  rw [hs']
  split
  case h_1 r mask hmask =>
    refine Triple.update fun s'' h ↦ ?_
    rw [h]
    refine exists_view_of_writable ?_ ?_ (by simp only [writable, hmask]) s value
    · rintro rfl
      cases hmask
    · rintro rfl
      cases hmask
  case h_2 hnone =>
    split
    case h_1 => contradiction
    case h_2 =>
      refine Triple.bind (Q := fun _ s' ↦ s' = s) ?_ fun _ ↦ Triple.update fun s'' h ↦ ?_
      · exact triple_raiseIllegalInstructionIf (fun _ h _ ↦ h) fun _ _ _ ↦ trivial
      · rw [h]
        exact exists_view_of_writable (by decide) (by decide) rfl s value
    case h_3 | h_4 =>
      refine Triple.update fun s'' h ↦ ⟨_, rfl, ?_⟩
      rw [h, setField_setWidth]
      rfl
    case h_5 _ _ hfflags hfrm =>
      have hplain : ¬ (isDebug addr || isHpmCounter addr) = true := by
        rw [hardwired, Bool.or_assoc, Bool.or_eq_false_iff] at hhard
        simp [hhard.2]
      rw [if_neg hplain, defaultWrite32]
      split
      case h_1 r hr =>
        have hw : writable s.pcAlignmentMask addr = some (r, BitVec.allOnes 32) := by
          simp only [writable, hnone, hplain, hr]
          rfl
        have hview := exists_view_of_writable hfflags hfrm hw s value
        rw [maskedWrite_allOnes] at hview
        refine Triple.update fun s'' h ↦ ?_
        rwa [h]
      case h_2 => exact triple_raiseIllegalInstruction fun _ _ ↦ trivial

/-! ## Reads after writes -/

/-- A writable address shows its register, unless the register is recomputed. -/
theorem readSource_of_writable {m : BitVec 32} {addr : Nat} {r : CsrReg} {mask : BitVec 32}
    (hw : writable m addr = some (r, mask)) (hfflags : addr ≠ FFLAGS_ADDR) (hfrm : addr ≠ FRM_ADDR)
    (hwrite : csrReadonly addr = false) (hmcycle : addr ≠ MCYCLE_ADDR)
    (hmcycleh : addr ≠ MCYCLEH_ADDR) (hmtime : addr ≠ MTIME_ADDR) (hmtimeh : addr ≠ MTIMEH_ADDR) :
    readSource addr =
      some (.register r 0 (((readMask addr).map Prod.snd).getD (BitVec.allOnes 32))) := by
  unfold writable at hw
  split at hw
  case h_1 p hp =>
    cases hw
    unfold writeMask at hp
    split at hp <;> cases hp
    all_goals rfl
  case h_2 hnone =>
    have hmask : readMask addr = none := by
      rw [← Option.not_isSome_iff_eq_none]
      intro hsome
      have hboth := writeMask_isSome_of_readMask (m := m) hsome
      rw [hnone] at hboth
      cases hboth
    split at hw
    case h_1 => cases hw
    case h_2 =>
      cases hw
      rfl
    case h_3 => contradiction
    case h_4 => contradiction
    case h_5 =>
      split at hw
      · cases hw
      case isFalse hplain =>
        obtain ⟨r', hr, heq⟩ := Option.map_eq_some_iff.mp hw
        have htselect : addr ≠ TSELECT_ADDR := by
          rintro rfl
          exact hplain rfl
        have htime : addr ≠ TIME_ADDR := by
          rintro rfl
          cases hwrite
        have htimeh : addr ≠ TIMEH_ADDR := by
          rintro rfl
          cases hwrite
        rw [readSource_of_plain hmask htime hmtime htimeh hmtimeh hmcycle hmcycleh hfflags hfrm
          htselect, if_neg hplain, hr, hmask]
        cases heq
        rfl

theorem readSource_of_view {m : BitVec 32} {addr : Nat} {w : CsrView} (h : view m addr = some w)
    (hwrite : csrReadonly addr = false) (hmcycle : addr ≠ MCYCLE_ADDR)
    (hmcycleh : addr ≠ MCYCLEH_ADDR) (hmtime : addr ≠ MTIME_ADDR) (hmtimeh : addr ≠ MTIMEH_ADDR) :
    readSource addr = some (.register w.reg w.start w.readMask) := by
  obtain ⟨rfl, rfl⟩ | ⟨rfl, rfl⟩ | ⟨hfflags, hfrm, hw, hstart, hread⟩ := view_cases h
  · rfl
  · rfl
  · rw [hstart, hread]
    exact readSource_of_writable hw hfflags hfrm hwrite hmcycle hmcycleh hmtime hmtimeh

/-- The law of a write of `value` that leads from `s` to `s'`: a read returns what the masks of the
address make of it, and the addresses that show other registers return what they did. -/
def ObeysMasks (env : Env) (s s' : State) (addr : Nat) (value : BitVec 32) : Prop :=
  ∃ w, view s.pcAlignmentMask addr = some w ∧
    result (getCsrValue env addr) s' = some (w.after s.csrs value) ∧
    ∀ other, shownRegister other ≠ some w.reg → ∀ x y,
      result (getCsrValue env other) s = some x → result (getCsrValue env other) s' = some y →
        y = x

/-- The counters of user mode cannot be written. -/
theorem csrReadonly_of_counter {addr : Nat} (hlow : 0xC00 ≤ addr) (hhigh : addr ≤ 0xC9F) :
    csrReadonly addr = true := by
  have hthree : addr >>> 10 = 3 := by
    rw [Nat.shiftRight_eq_div_pow]
    omega
  rw [csrReadonly, Nat.shiftRight_and_distrib, hthree]
  rfl

/-- The page table register cannot be written while it is protected. -/
theorem tvm_of_setCsrValue {value : BitVec 32} {s s' : State}
    (h : setCsrValue SATP_ADDR value s = .ok () s') : s'.csrs.mstatusTvm ≠ 1#1 := by
  intro htvm
  obtain ⟨w, hview, rfl⟩ := (triple_setCsrValue_view SATP_ADDR value s rfl).of_ok rfl h
  cases hview
  have hs : s.csrs.mstatusTvm = 1#1 := htvm
  have herror : setCsrValue SATP_ADDR value s =
      .error (.trap .ILLEGAL_INSTR (s.instr.setWidth 64)) s :=
    bind_of_error (raiseIllegalInstructionIf_of_true hs s) _
  rw [herror] at h
  cases h

/-- A writable address can be read after it was written. -/
theorem not_csrHidden_of_set {addr : Nat} {value : BitVec 32} {s s' : State}
    (hwrite : csrReadonly addr = false) (h : setCsrValue addr value s = .ok () s') :
    ¬ s'.CsrHidden addr := by
  rintro (⟨hrange, -⟩ | ⟨rfl, htvm⟩)
  · rw [csrReadonly_of_counter (by omega) (by omega)] at hwrite
    cases hwrite
  · exact tvm_of_setCsrValue h htvm

/-- A read of a recomputed counter returns it, and its masks are ones. -/
theorem exists_source_of_recomputed {env : Env} {s : State} {addr : Nat} {x : BitVec 32}
    (h : recomputedValue env s addr = some x) :
    (∃ src, readSource addr = some src ∧ ∀ r v, src.value env (s.setCsr r v) = x) ∧
      ∀ {m w}, view m addr = some w → ∀ csrs value, w.after csrs value = value := by
  have hones : ∀ {r : CsrReg} (csrs : CsrTable) (value : BitVec 32),
      (CsrView.mk r 0 (BitVec.allOnes 32) (BitVec.allOnes 32)).after csrs value = value := by
    intro r csrs value
    rw [CsrView.after, maskedWrite_allOnes, BitVec.and_allOnes]
  unfold recomputedValue at h
  split at h
  case h_5 => cases h
  all_goals
    cases h
    refine ⟨⟨_, rfl, fun _ _ ↦ rfl⟩, fun hview ↦ ?_⟩
    cases hview
    exact hones

theorem readonly_of_access {s : State} {addr : Nat}
    (h : result (isInvalidCsrAccess addr true) s = some false) : csrReadonly addr = false := by
  have hvalid := (triple_isInvalidCsrAccess s addr true).of_ok rfl (eq_ok_of_result h)
  exact csrReadonly_of_valid hvalid.2.symm

/-- A read sees what was written, but for the counters that it recomputes. -/
theorem obeysMasks_iff {env : Env} {s s' : State} {addr : Nat} {value : BitVec 32}
    (haccess : result (isInvalidCsrAccess addr true) s = some false)
    (hhard : hardwired addr = false) (hset : setCsrValue addr value s = .ok () s') :
    ObeysMasks env s s' addr value ↔
      ∀ x, recomputedValue env s addr = some x → value = x := by
  classical
  have hwrite := readonly_of_access haccess
  have hshown := not_csrHidden_of_set hwrite hset
  obtain ⟨w, hview, rfl⟩ := (triple_setCsrValue_view addr value s hhard).of_ok rfl hset
  have hframe : ∀ other, shownRegister other ≠ some w.reg → ∀ x y,
      result (getCsrValue env other) s = some x →
        result (getCsrValue env other) (s.setCsr w.reg (w.stored (s.csrs w.reg) value)) = some y →
          y = x := by
    intro other hother x y hx hy
    obtain ⟨src, hsrc, rfl⟩ := exists_source_of_result hx
    obtain ⟨src', hsrc', rfl⟩ := exists_source_of_result hy
    obtain rfl : src' = src := Option.some.inj (hsrc'.symm.trans hsrc)
    exact value_setCsr hsrc hother _
  cases hrec : recomputedValue env s addr with
  | some x =>
    obtain ⟨⟨src, hsrc, hvalue⟩, hones⟩ := exists_source_of_recomputed hrec
    have hread : result (getCsrValue env addr)
        (s.setCsr w.reg (w.stored (s.csrs w.reg) value)) = some x := by
      rw [result_getCsrValue, if_neg hshown, hsrc, Option.map_some, hvalue]
    constructor
    · rintro ⟨w', hview', hlaw, -⟩ y hy
      rw [hread, hones hview'] at hlaw
      rw [← Option.some.inj hy, ← Option.some.inj hlaw]
    · intro heq
      refine ⟨w, hview, ?_, hframe⟩
      rw [hread, hones hview, heq x rfl]
  | none =>
    refine ⟨fun _ x hx ↦ (Option.some_ne_none x hx.symm).elim, fun _ ↦ ⟨w, hview, ?_, hframe⟩⟩
    have hsrc : readSource addr = some (.register w.reg w.start w.readMask) := by
      apply readSource_of_view hview hwrite
      all_goals
        rintro rfl
        cases hrec
    rw [result_getCsrValue, if_neg hshown, hsrc, Option.map_some, CsrSource.value]
    change some ((s.csrs.set w.reg _ w.reg >>> w.start) &&& w.readMask) = _
    rw [CsrTable.set_self, stored_shown w s.csrs value (writeMask_bound hview)]

/-- The law holds for `mscratch`. -/
theorem obeysMasks_mscratch :
    ObeysMasks bootEnv (bootState []) ((bootState []).setCsr .mscratch 5#32) MSCRATCH_ADDR 5#32 := by
  rw [obeysMasks_iff rfl rfl rfl]
  intro x hx
  cases hx

/-- A core that counted no cycle yet does not return what is written to `mcycle`. -/
theorem not_obeysMasks_mcycle :
    result (isInvalidCsrAccess MCYCLE_ADDR true) (bootState []) = some false ∧
      hardwired MCYCLE_ADDR = false ∧
      ∃ s', setCsrValue MCYCLE_ADDR 5#32 (bootState []) = .ok () s' ∧
        ¬ ObeysMasks bootEnv (bootState []) s' MCYCLE_ADDR 5#32 := by
  refine ⟨rfl, rfl, (bootState []).setCsr .cycle 5#32, rfl, ?_⟩
  rintro ⟨w, hview, hread, -⟩
  cases hview
  have hzero : result (getCsrValue bootEnv MCYCLE_ADDR) ((bootState []).setCsr .cycle 5#32) =
      some 0#32 := rfl
  rw [hzero] at hread
  exact absurd hread (by decide)

end CoverageVP.Iss
