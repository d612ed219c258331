import CoverageVP.Instr.RvcExpansion

/-!
# The compressed decoder and the RV32C table

Quadrant by quadrant, the compressed decoder is compared with the table. `expandsByTable_iff` says
for which halfwords they agree: all but the code points of `C.SUBW` and `C.ADDW`, which the decoder
accepts on RV32 although the neighbouring rows ask for the architecture, and the `HINT`s of
`C.ADD`, for which the decoder tests the destination before the source and returns `C.EBREAK`.
-/

namespace CoverageVP.Instr.Rvc

open Lib Instruction InstructionFactory

/-! ## Widening -/

section Widths

theorem toNat_setWidth32 {n : Nat} (x : BitVec n) (hn : n ≤ 32) :
    (x.setWidth 32).toNat = x.toNat :=
  BitVec.toNat_setWidth_of_le hn

theorem setWidth32_eq_ofNat {n : Nat} (x : BitVec n) (k : Nat) (hn : n ≤ 32) (hk : k < 2 ^ n) :
    x.setWidth 32 = BitVec.ofNat 32 k ↔ x = BitVec.ofNat n k := by
  have hk32 : k < 2 ^ 32 := lt_of_lt_of_le hk (Nat.pow_le_pow_right (by decide) hn)
  rw [← BitVec.toNat_inj, ← BitVec.toNat_inj, toNat_setWidth32 x hn, BitVec.toNat_ofNat,
    BitVec.toNat_ofNat, Nat.mod_eq_of_lt hk, Nat.mod_eq_of_lt hk32]

theorem setWidth_setWidth32 {n : Nat} (x : BitVec n) (hn : n ≤ 32) :
    (x.setWidth 32).setWidth n = x := by
  rw [BitVec.setWidth_setWidth_of_le x hn, BitVec.setWidth_eq]

theorem setWidth_signExtend {n m k : Nat} (x : BitVec n) (hm : m ≤ k) :
    (x.signExtend k).setWidth m = x.signExtend m := by
  apply BitVec.eq_of_getLsbD_eq
  intro i hi
  have hk : i < k := by omega
  rw [BitVec.getLsbD_setWidth, BitVec.getLsbD_signExtend, BitVec.getLsbD_signExtend]
  simp [hi, hk]

theorem signExtend_eq_zero_iff {n k : Nat} (x : BitVec n) (hn : n ≤ k) :
    x.signExtend k = 0#k ↔ x = 0#n := by
  constructor
  · intro h
    have hback := congrArg (BitVec.setWidth n) h
    rw [setWidth_signExtend x hn, BitVec.signExtend_eq] at hback
    rw [hback, BitVec.setWidth_zero]
  · rintro rfl
    apply BitVec.eq_of_getLsbD_eq
    intro i hi
    rw [BitVec.getLsbD_signExtend]
    simp

end Widths

theorem lui_eq_zero_iff (x : BitVec 6) : x.signExtend 20 ++ 0#12 = 0#32 ↔ x = 0#6 := by
  rw [← signExtend_eq_zero_iff x (show 6 ≤ 20 by decide)]
  constructor
  · intro h
    apply BitVec.eq_of_getLsbD_eq
    intro i hi
    have hbit := congrArg (fun v : BitVec 32 ↦ v.getLsbD (i + 12)) h
    simp only [BitVec.getLsbD_append] at hbit
    simpa using hbit
  · intro h
    rw [h]
    rfl

theorem toNat_ciImm (h : BitVec 16) :
    (ciImm h).toNat = 32 * (field h 12 1).toNat + (field h 2 5).toNat := by
  rw [ciImm, BitVec.toNat_append, ← Nat.shiftLeft_add_eq_or_of_lt (field h 2 5).isLt,
    Nat.shiftLeft_eq]
  omega

theorem ciImm_of_bit12_zero {h : BitVec 16} (hbit : field h 12 1 = 0#1) :
    (ciImm h).setWidth 32 = (field h 2 5).setWidth 32 ∧
      ¬ ((ciImm h).setWidth 32).toNat > 31 := by
  have hnat : (ciImm h).toNat = (field h 2 5).toNat := by
    rw [toNat_ciImm, hbit]
    simp
  have hlt := (field h 2 5).isLt
  constructor
  · apply BitVec.eq_of_toNat_eq
    rw [toNat_setWidth32 _ (by decide), toNat_setWidth32 _ (by decide), hnat]
  · rw [toNat_setWidth32 _ (by decide), hnat]
    omega

theorem ciImm_of_bit12_one {h : BitVec 16} (hbit : field h 12 1 = 1#1) :
    ((ciImm h).setWidth 32).toNat > 31 := by
  rw [toNat_setWidth32 _ (by decide), toNat_ciImm, hbit]
  exact Nat.lt_of_lt_of_le (by decide) (Nat.le_add_right _ _)

theorem jumpImm_even (h : BitVec 16) : ((jumpImm h).signExtend 32).getLsbD 0 = false := by
  rw [BitVec.getLsbD_signExtend, jumpImm, BitVec.getLsbD_append]
  simp

theorem branchImm_even (h : BitVec 16) : ((branchImm h).signExtend 32).getLsbD 0 = false := by
  rw [BitVec.getLsbD_signExtend, branchImm, BitVec.getLsbD_append]
  simp

/-! ## Row by row -/

theorem agrees_EBREAK : (Outcome.base (.system .EBREAK)).Agrees (.EBREAK, EBREAK) :=
  ⟨rfl, fun _ ↦ rfl⟩

section Quadrants

variable (w : Instruction)

theorem quadrant0_agrees :
    (quadrant0 (w.setWidth 16)).Agrees
      (expandCompressed w (decodeQuadrant0 w .RV32) .RV32) := by
  rw [decodeQuadrant0, quadrant0, cOpcode_eq_field, toNat_setWidth32 _ (by decide), cFormat_eq]
  have hlt := (field (w.setWidth 16) 13 3).isLt
  interval_cases hf : (field (w.setWidth 16) 13 3).toNat
  case «0» =>
    simp only [setWidth32_eq_ofNat (w.setWidth 16) 0 (by decide) (by decide)]
    by_cases hzero : w.setWidth 16 = 0#16
    · rw [if_pos hzero, hzero]
      exact agrees_undefined w
    · rw [if_neg hzero]
      simp only [expandCompressed, cAddi4spnNzuimm_eq,
        setWidth32_eq_ofNat (addi4spnImm _) 0 (by decide) (by decide)]
      by_cases himm : addi4spnImm (w.setWidth 16) = 0#12
      · rw [if_pos himm, if_pos himm]
        exact agrees_undefined w
      · rw [if_neg himm, if_neg himm, cRs2Small_eq_small]
        exact agrees_iType _ 2#5 (setWidth_setWidth32 _ (by decide)) rfl rfl rfl
  case «4» => exact agrees_undefined w
  all_goals
    simp only [expandCompressed, if_true, cRdSmall_eq_small, cRs2Small_eq_small, cLwUimm_eq, cLdUimm_eq,
      cSwUimm, cSdUimm]
  case «1» | «2» | «3» => exact agrees_iType _ _ (setWidth_setWidth32 _ (by decide)) rfl rfl rfl
  all_goals exact agrees_sType _ _ (setWidth_setWidth32 _ (by decide)) rfl rfl rfl

theorem extractLsb'_field (h : BitVec 16) {low len sub n : Nat} (hn : sub + n ≤ len) :
    (field h low len).extractLsb' sub n = field h (low + sub) n := by
  apply BitVec.eq_of_getLsbD_eq
  intro i hi
  have hlen : sub + i < len := by omega
  simp [hi, hlen, Nat.add_assoc]

/-- Bit 6 is the upper bit of the selector in bits 6 and 5. -/
theorem toNat_field_selector (h : BitVec 16) :
    (field h 5 2).toNat = 2 * (field h 6 1).toNat + (field h 5 1).toNat := by
  simp only [BitVec.extractLsb'_toNat, Nat.shiftRight_eq_div_pow]
  omega

/-- Outside the RV64 code points, bit 6 is set when bits 12 to 10 are. -/
theorem selector_of_not_rv64 {h : BitVec 16} (hhigh : (field h 10 2).toNat = 3)
    (hbit : field h 12 1 = 1#1) (hw : ¬ (field h 10 3 = 7#3 ∧ field h 6 1 = 0#1)) :
    (field h 5 2).toNat = 2 ∨ (field h 5 2).toNat = 3 := by
  have h7 : field h 10 3 = 7#3 := by
    have happend : field h 10 3 = field h 12 1 ++ field h 10 2 := by
      apply BitVec.eq_of_getLsbD_eq
      intro i hi
      rw [BitVec.getLsbD_append]
      interval_cases i <;> simp
    have h2 : field h 10 2 = 3#2 := BitVec.eq_of_toNat_eq hhigh
    rw [happend, hbit, h2]
    rfl
  have h6 : field h 6 1 = 1#1 := by
    rcases BitVec.eq_zero_or_eq_one (field h 6 1) with hzero | hone
    · exact absurd ⟨h7, hzero⟩ hw
    · exact hone
  have hsel := toNat_field_selector h
  have hlt := (field h 5 1).isLt
  simp only [h6, BitVec.toNat_ofNat] at hsel
  omega

theorem quadrant1Arith_agrees (hf : (field (w.setWidth 16) 13 3).toNat = 4)
    (hw : ¬ (field (w.setWidth 16) 10 3 = 7#3 ∧ field (w.setWidth 16) 6 1 = 0#1)) :
    (quadrant1Arith (w.setWidth 16)).Agrees
      (expandCompressed w (decodeQuadrant1 w .RV32) .RV32) := by
  rw [decodeQuadrant1, cOpcode_eq_field, toNat_setWidth32 _ (by decide), hf, quadrant1Arith]
  simp only [ne_eq, cF2High_eq_field, cB12_eq_field, cF2Low_eq_field,
    toNat_setWidth32 (field _ _ 2) (by decide),
    setWidth32_eq_ofNat (field _ 12 1) 0 (by decide) (by decide)]
  have hlt := (field (w.setWidth 16) 10 2).isLt
  interval_cases hhigh : (field (w.setWidth 16) 10 2).toNat
  case «0» | «1» =>
    simp only [expandCompressed, cRdSmall_eq_small, true_and]
    rw [cUimm_eq]
    rcases BitVec.eq_zero_or_eq_one (field (w.setWidth 16) 12 1) with hbit | hbit
    · obtain ⟨hshamt, hsmall⟩ := ciImm_of_bit12_zero hbit
      rw [if_neg hsmall, hshamt, if_neg (by rw [hbit]; decide)]
      by_cases hzero : field (w.setWidth 16) 2 5 = 0#5
      · rw [if_pos hzero, hzero]
        exact agrees_shiftType_zero _ rfl rfl rfl (by decide)
      · rw [if_neg hzero]
        exact agrees_shiftType _ _ _ rfl rfl rfl
    · rw [if_pos (ciImm_of_bit12_one hbit), if_pos hbit]
      exact agrees_undefined w
  case «2» =>
    simp only [expandCompressed, cRdSmall_eq_small, cImm_eq]
    exact agrees_iType _ _ (setWidth_signExtend _ (by decide)) rfl rfl rfl
  case «3» =>
    simp only []
    rcases BitVec.eq_zero_or_eq_one (field (w.setWidth 16) 12 1) with hbit | hbit
    · rw [if_neg (by rw [hbit]; decide), if_neg (not_not.mpr hbit)]
      have hlow := (field (w.setWidth 16) 5 2).isLt
      interval_cases hsel : (field (w.setWidth 16) 5 2).toNat
      all_goals
        simp only [expandCompressed, cRdSmall_eq_small, cRs2Small_eq_small]
        exact agrees_rType _ _ _ rfl rfl rfl
    · rw [if_pos hbit, if_pos (by rw [hbit]; decide)]
      have hsel := selector_of_not_rv64 hhigh hbit hw
      rcases hsel with hsel | hsel
      all_goals
        rw [hsel]
        exact agrees_undefined w

theorem quadrant1_agrees
    (hw : ¬ (field (w.setWidth 16) 13 3 = 4#3 ∧ field (w.setWidth 16) 10 3 = 7#3 ∧
      field (w.setWidth 16) 6 1 = 0#1)) :
    (quadrant1 (w.setWidth 16)).Agrees
      (expandCompressed w (decodeQuadrant1 w .RV32) .RV32) := by
  rw [quadrant1]
  have hlt := (field (w.setWidth 16) 13 3).isLt
  interval_cases hf : (field (w.setWidth 16) 13 3).toNat
  case «4» =>
    apply quadrant1Arith_agrees w hf
    rintro ⟨h1, h2⟩
    exact hw ⟨BitVec.eq_of_toNat_eq hf, h1, h2⟩
  all_goals
    rw [decodeQuadrant1, cOpcode_eq_field, toNat_setWidth32 _ (by decide), hf]
    simp only []
  case «0» =>
    simp only [cFormat_eq, setWidth32_eq_ofNat (w.setWidth 16) 1 (by decide) (by decide)]
    by_cases hnop : w.setWidth 16 = 1#16
    · rw [if_pos hnop, hnop]
      exact agrees_ADD_x0 _ _
    · rw [if_neg hnop]
      simp only [expandCompressed, cRd_eq_field, cImm_eq]
      by_cases hrd : field (w.setWidth 16) 7 5 = 0#5
      · rw [if_pos (.inl hrd), hrd]
        exact agrees_ADDI_x0 _ _
      by_cases himm : ciImm (w.setWidth 16) = 0#6
      · rw [if_pos (.inr himm), himm]
        exact agrees_ADDI_self _
      · rw [if_neg (by simp [hrd, himm])]
        exact agrees_iType _ _ (setWidth_signExtend _ (by decide)) rfl rfl rfl
  case «2» =>
    simp only [expandCompressed, cRd_eq_field, cImm_eq]
    by_cases hrd : field (w.setWidth 16) 7 5 = 0#5
    · rw [if_pos hrd, hrd]
      exact agrees_ADDI_x0 _ _
    · rw [if_neg hrd]
      exact agrees_iType _ 0#5 (setWidth_signExtend _ (by decide)) rfl rfl rfl
  case «3» =>
    simp only [cRd_eq_field, setWidth32_eq_ofNat (field _ 7 5) 2 (by decide) (by decide)]
    by_cases hsp : field (w.setWidth 16) 7 5 = 2#5
    · rw [if_pos hsp, if_pos hsp]
      simp only [expandCompressed, cAddi16spNzimm_eq,
        signExtend_eq_zero_iff (addi16spImm _) (show 10 ≤ 32 by decide)]
      by_cases himm : addi16spImm (w.setWidth 16) = 0#10
      · rw [if_pos himm, if_pos himm]
        exact agrees_undefined w
      · rw [if_neg himm, if_neg himm]
        exact agrees_iType 2#5 2#5 (setWidth_signExtend _ (by decide)) rfl rfl rfl
    · rw [if_neg hsp, if_neg hsp]
      simp only [expandCompressed, cRd_eq_field, cLuiNzimm_eq, lui_eq_zero_iff]
      by_cases himm : ciImm (w.setWidth 16) = 0#6
      · rw [if_pos himm, if_pos himm]
        exact agrees_undefined w
      · rw [if_neg himm, if_neg himm]
        by_cases hrd : field (w.setWidth 16) 7 5 = 0#5
        · rw [if_pos hrd, hrd]
          exact agrees_LUI_x0 _
        · rw [if_neg hrd]
          exact agrees_LUI _ _
  case «1» | «5» =>
    simp only [expandCompressed, if_true, cJImm, cJalImm_eq]
    exact agrees_JAL _ (setWidth_signExtend _ (by decide)) (jumpImm_even _)
  case «6» | «7» =>
    simp only [expandCompressed, cRdSmall_eq_small, cBranchImm_eq]
    exact agrees_bType _ 0#5 (setWidth_signExtend _ (by decide)) rfl rfl (branchImm_even _)

theorem quadrant2_agrees
    (hw : ¬ (field (w.setWidth 16) 13 3 = 4#3 ∧ field (w.setWidth 16) 12 1 = 1#1 ∧
      field (w.setWidth 16) 7 5 = 0#5 ∧ field (w.setWidth 16) 2 5 ≠ 0#5)) :
    (quadrant2 (w.setWidth 16)).Agrees
      (expandCompressed w (decodeQuadrant2 w .RV32) .RV32) := by
  rw [decodeQuadrant2, quadrant2, cOpcode_eq_field, toNat_setWidth32 _ (by decide)]
  have hlt := (field (w.setWidth 16) 13 3).isLt
  interval_cases hf : (field (w.setWidth 16) 13 3).toNat
  all_goals simp only []
  case «0» =>
    simp only [expandCompressed, cRd_eq_field, cUimm_eq, true_and]
    rcases BitVec.eq_zero_or_eq_one (field (w.setWidth 16) 12 1) with hbit | hbit
    · obtain ⟨hshamt, hsmall⟩ := ciImm_of_bit12_zero hbit
      rw [if_neg (by rw [hbit]; decide), if_neg hsmall, hshamt]
      by_cases hrd : field (w.setWidth 16) 7 5 = 0#5
      · rw [if_pos (.inl hrd), hrd]
        exact agrees_SLLI_x0 _ _
      by_cases hzero : field (w.setWidth 16) 2 5 = 0#5
      · rw [if_pos (.inr hzero), hzero]
        exact agrees_shiftType_zero _ rfl rfl rfl (by decide)
      · rw [if_neg (by simp [hrd, hzero])]
        exact agrees_shiftType _ _ _ rfl rfl rfl
    · rw [if_pos hbit, if_pos (ciImm_of_bit12_one hbit)]
      exact agrees_undefined w
  case «1» =>
    simp only [expandCompressed, cRd_eq_field, cLdspUimm_eq]
    exact agrees_iType _ 2#5 (setWidth_setWidth32 _ (by decide)) rfl rfl rfl
  case «2» =>
    simp only [expandCompressed, cRd_eq_field, cLwspUimm_eq,
      setWidth32_eq_ofNat (field _ 7 5) 0 (by decide) (by decide)]
    by_cases hrd : field (w.setWidth 16) 7 5 = 0#5
    · rw [if_pos hrd, if_pos hrd]
      exact agrees_undefined w
    · rw [if_neg hrd, if_neg hrd]
      exact agrees_iType _ 2#5 (setWidth_setWidth32 _ (by decide)) rfl rfl rfl
  case «3» =>
    simp only [expandCompressed, if_true, cRd_eq_field, cLwspUimm_eq]
    exact agrees_iType _ 2#5 (setWidth_setWidth32 _ (by decide)) rfl rfl rfl
  case «4» =>
    simp only [ne_eq, cB12_eq_field, cRd_eq_field, cRs2_eq_field,
      setWidth32_eq_ofNat (field _ 12 1) 0 (by decide) (by decide),
      setWidth32_eq_ofNat (field _ 7 5) 0 (by decide) (by decide),
      setWidth32_eq_ofNat (field _ 2 5) 0 (by decide) (by decide)]
    have hf4 : field (w.setWidth 16) 13 3 = 4#3 := BitVec.eq_of_toNat_eq hf
    by_cases hbit : field (w.setWidth 16) 12 1 = 0#1
    · by_cases hrs2 : field (w.setWidth 16) 2 5 = 0#5
      · by_cases hrd : field (w.setWidth 16) 7 5 = 0#5
        · simp only [hbit, hrs2, hrd, if_true, if_false, not_true, expandCompressed, cRd_eq_field]
          exact agrees_undefined w
        · simp only [hbit, hrs2, hrd, if_true, if_false, not_true, expandCompressed, cRd_eq_field,
            setWidth32_eq_ofNat (field _ 7 5) 0 (by decide) (by decide)]
          exact agrees_iType 0#5 _ rfl rfl rfl rfl
      · by_cases hrd : field (w.setWidth 16) 7 5 = 0#5
        · simp only [hbit, hrs2, hrd, if_true, if_false, not_true, not_false_iff, expandCompressed,
            cRd_eq_field]
          exact agrees_ADD_x0 _ _
        · simp only [hbit, hrs2, hrd, if_true, if_false, not_true, not_false_iff, expandCompressed,
            cRd_eq_field, cRs2_eq_field]
          exact agrees_rType _ 0#5 _ rfl rfl rfl
    · by_cases hrs2 : field (w.setWidth 16) 2 5 = 0#5
      · by_cases hrd : field (w.setWidth 16) 7 5 = 0#5
        · simp only [hbit, hrs2, hrd, if_true, if_false, not_true, not_false_iff, expandCompressed]
          exact agrees_EBREAK
        · simp only [hbit, hrs2, hrd, if_true, if_false, not_true, not_false_iff, expandCompressed,
            cRd_eq_field]
          exact agrees_iType 1#5 _ rfl rfl rfl rfl
      · by_cases hrd : field (w.setWidth 16) 7 5 = 0#5
        · have hone := (BitVec.eq_zero_or_eq_one (field (w.setWidth 16) 12 1)).resolve_left hbit
          exact absurd ⟨hf4, hone, hrd, hrs2⟩ hw
        · simp only [hbit, hrs2, hrd, if_true, if_false, not_false_iff, expandCompressed,
            cRd_eq_field, cRs2_eq_field]
          exact agrees_rType _ _ _ rfl rfl rfl
  case «5» =>
    simp only [expandCompressed, cRs2_eq_field, cSdspUimm_eq]
    exact agrees_sType 2#5 _ (setWidth_setWidth32 _ (by decide)) rfl rfl rfl
  case «6» =>
    simp only [expandCompressed, cRs2_eq_field, cSwspUimm_eq]
    exact agrees_sType 2#5 _ (setWidth_setWidth32 _ (by decide)) rfl rfl rfl
  case «7» =>
    simp only [expandCompressed, if_true, cRs2_eq_field, cSwspUimm_eq]
    exact agrees_sType 2#5 _ (setWidth_setWidth32 _ (by decide)) rfl rfl rfl

end Quadrants

/-! ## The two slips -/

/-- The code points of `C.SUBW` and `C.ADDW`, which exist on RV64 only. -/
def IsRv64Arith (h : BitVec 16) : Prop :=
  field h 0 2 = 1#2 ∧ field h 13 3 = 4#3 ∧ field h 10 3 = 7#3 ∧ field h 6 1 = 0#1

/-- The `HINT`s of `C.ADD`: the destination is `x0` and the source is not. -/
def IsAddHint (h : BitVec 16) : Prop :=
  field h 0 2 = 2#2 ∧ field h 13 3 = 4#3 ∧ field h 12 1 = 1#1 ∧ field h 7 5 = 0#5 ∧
    field h 2 5 ≠ 0#5

instance (h : BitVec 16) : Decidable (IsRv64Arith h) :=
  inferInstanceAs (Decidable (_ ∧ _ ∧ _ ∧ _))

instance (h : BitVec 16) : Decidable (IsAddHint h) :=
  inferInstanceAs (Decidable (_ ∧ _ ∧ _ ∧ _ ∧ _))

section Slips

variable {w : Instruction}

theorem not_agrees_of_isRv64Arith (h : IsRv64Arith (w.setWidth 16)) :
    ¬ (quadrant1 (w.setWidth 16)).Agrees
      (expandCompressed w (decodeQuadrant1 w .RV32) .RV32) := by
  obtain ⟨-, hf, h7, h6⟩ := h
  have hbit : field (w.setWidth 16) 12 1 = 1#1 := by
    rw [← extractLsb'_field _ (show 2 + 1 ≤ 3 by decide), h7]
    rfl
  have hhigh : field (w.setWidth 16) 10 2 = 3#2 := by
    rw [← extractLsb'_field _ (show 0 + 2 ≤ 3 by decide), h7]
    rfl
  have hlow : (field (w.setWidth 16) 5 2).toNat < 2 := by
    rw [toNat_field_selector, h6]
    have hlt := (field (w.setWidth 16) 5 1).isLt
    simpa using hlt
  have htable : quadrant1 (w.setWidth 16) = .undefined := by
    rw [quadrant1, hf]
    simp [quadrant1Arith, hhigh, hbit]
  have hop : decodeQuadrant1 w .RV32 = .C_SUBW ∨ decodeQuadrant1 w .RV32 = .C_ADDW := by
    rw [decodeQuadrant1, cOpcode_eq_field, hf, cF2High_eq_field, hhigh, cB12_eq_field, hbit,
      cF2Low_eq_field, toNat_setWidth32 (field _ 5 2) (by decide)]
    generalize (field (w.setWidth 16) 5 2).toNat = k at hlow
    interval_cases k
    · exact .inl rfl
    · exact .inr rfl
  rw [htable]
  intro hagrees
  rcases hop with hop | hop
  all_goals
    rw [hop] at hagrees
    cases hagrees.realizes

theorem not_agrees_of_isAddHint (h : IsAddHint (w.setWidth 16)) :
    ¬ (quadrant2 (w.setWidth 16)).Agrees
      (expandCompressed w (decodeQuadrant2 w .RV32) .RV32) := by
  obtain ⟨-, hf, hbit, hrd, hrs2⟩ := h
  have htable : quadrant2 (w.setWidth 16) = .noEffect := by
    rw [quadrant2, hf]
    simp [hbit, hrd, hrs2]
  have hop : decodeQuadrant2 w .RV32 = .C_EBREAK := by
    rw [decodeQuadrant2, cOpcode_eq_field, hf]
    simp [cB12_eq_field, cRd_eq_field, hbit, hrd]
  rw [htable, hop]
  intro hagrees
  obtain ⟨rd, value, hwrite, -⟩ := hagrees.realizes fun _ ↦ 0#32
  cases hwrite

end Slips

theorem decodeCompressed_congr {w w' : Instruction} (h : w'.setWidth 16 = w.setWidth 16) :
    decodeCompressed w' .RV32 = decodeCompressed w .RV32 := by
  simp only [decodeCompressed, decodeQuadrant0, decodeQuadrant1, decodeQuadrant2,
    quadrant_eq_field, cOpcode_eq_field, cFormat_eq, cRd_eq_field, cRs2_eq_field, cB12_eq_field,
    cF2High_eq_field, cF2Low_eq_field, h]

theorem expandCompressed_congr {w w' : Instruction} (h : w'.setWidth 16 = w.setWidth 16)
    (op : Compressed.Opcode) :
    (expandCompressed w' op .RV32).1 = (expandCompressed w op .RV32).1 ∧
      ((expandCompressed w op .RV32).1 ≠ .UNDEF →
        (expandCompressed w' op .RV32).2 = (expandCompressed w op .RV32).2) := by
  cases op
  all_goals
    simp only [expandCompressed, cRd_eq_field, cRs2_eq_field, cRdSmall_eq_small,
      cRs2Small_eq_small, cImm_eq, cUimm_eq, cAddi4spnNzuimm_eq, cLwUimm_eq, cLdUimm_eq, cSwUimm,
      cSdUimm, cLwspUimm_eq, cLdspUimm_eq, cSwspUimm_eq, cSdspUimm_eq, cAddi16spNzimm_eq,
      cLuiNzimm_eq, cJalImm_eq, cJImm, cBranchImm_eq, h]
    try split
  all_goals simp

/-! ## The decoder and the table -/

/-- The expansion of `w` on RV32 is the row of the table for its low halfword, and no other word
with this low halfword is expanded differently. An undefined instruction is not rewritten. -/
structure ExpandsByTable (w : Instruction) : Prop where
  agrees : ∃ r, decodeAndExpandCompressed w .RV32 = some r ∧ (rvcTable (w.setWidth 16)).Agrees r
  upperHalf : ∀ w', w'.setWidth 16 = w.setWidth 16 →
    ∃ r r', decodeAndExpandCompressed w .RV32 = some r ∧
      decodeAndExpandCompressed w' .RV32 = some r' ∧ r'.1 = r.1 ∧ (r.1 ≠ .UNDEF → r'.2 = r.2)

/-- What is compared in each quadrant. -/
theorem expand_of_quadrant {w : Instruction} (hq : w.quadrant ≠ 3#32) :
    (field (w.setWidth 16) 0 2 = 0#2 ∧ rvcTable (w.setWidth 16) = quadrant0 (w.setWidth 16) ∧
      decodeCompressed w .RV32 = some (decodeQuadrant0 w .RV32)) ∨
    (field (w.setWidth 16) 0 2 = 1#2 ∧ rvcTable (w.setWidth 16) = quadrant1 (w.setWidth 16) ∧
      decodeCompressed w .RV32 = some (decodeQuadrant1 w .RV32)) ∨
    (field (w.setWidth 16) 0 2 = 2#2 ∧ rvcTable (w.setWidth 16) = quadrant2 (w.setWidth 16) ∧
      decodeCompressed w .RV32 = some (decodeQuadrant2 w .RV32)) := by
  rw [quadrant_eq_field, ne_eq, setWidth32_eq_ofNat _ 3 (by decide) (by decide)] at hq
  rw [rvcTable, decodeCompressed, quadrant_eq_field, toNat_setWidth32 _ (by decide)]
  have hlt := (field (w.setWidth 16) 0 2).isLt
  interval_cases hsel : (field (w.setWidth 16) 0 2).toNat
  · exact .inl ⟨BitVec.eq_of_toNat_eq hsel, rfl, rfl⟩
  · exact .inr (.inl ⟨BitVec.eq_of_toNat_eq hsel, rfl, rfl⟩)
  · exact .inr (.inr ⟨BitVec.eq_of_toNat_eq hsel, rfl, rfl⟩)
  · exact absurd (BitVec.eq_of_toNat_eq hsel) hq

theorem expandsByTable_of_agrees {w : Instruction} {op : Compressed.Opcode}
    (hop : decodeCompressed w .RV32 = some op)
    (hagrees : (rvcTable (w.setWidth 16)).Agrees (expandCompressed w op .RV32)) :
    ExpandsByTable w where
  agrees := ⟨_, by rw [decodeAndExpandCompressed, hop]; rfl, hagrees⟩
  upperHalf w' h := by
    refine ⟨_, expandCompressed w' op .RV32, by rw [decodeAndExpandCompressed, hop]; rfl, ?_,
      expandCompressed_congr h op⟩
    rw [decodeAndExpandCompressed, decodeCompressed_congr h, hop]
    rfl

theorem agrees_of_expandsByTable {w : Instruction} {op : Compressed.Opcode}
    (hop : decodeCompressed w .RV32 = some op) (h : ExpandsByTable w) :
    (rvcTable (w.setWidth 16)).Agrees (expandCompressed w op .RV32) := by
  obtain ⟨r, hr, hagrees⟩ := h.agrees
  rw [decodeAndExpandCompressed, hop] at hr
  obtain rfl := Option.some.inj hr
  exact hagrees

theorem not_expandsByTable_of_isRv64Arith {w : Instruction} (h : IsRv64Arith (w.setWidth 16)) :
    ¬ ExpandsByTable w := by
  intro hexpands
  have hquadrant : w.quadrant = 1#32 := by rw [quadrant_eq_field, h.1]; rfl
  have hop : decodeCompressed w .RV32 = some (decodeQuadrant1 w .RV32) := by
    rw [decodeCompressed, hquadrant]
    rfl
  have htable : rvcTable (w.setWidth 16) = quadrant1 (w.setWidth 16) := by
    rw [rvcTable, h.1]
    rfl
  have hagrees := agrees_of_expandsByTable hop hexpands
  rw [htable] at hagrees
  exact not_agrees_of_isRv64Arith h hagrees

theorem not_expandsByTable_of_isAddHint {w : Instruction} (h : IsAddHint (w.setWidth 16)) :
    ¬ ExpandsByTable w := by
  intro hexpands
  have hquadrant : w.quadrant = 2#32 := by rw [quadrant_eq_field, h.1]; rfl
  have hop : decodeCompressed w .RV32 = some (decodeQuadrant2 w .RV32) := by
    rw [decodeCompressed, hquadrant]
    rfl
  have htable : rvcTable (w.setWidth 16) = quadrant2 (w.setWidth 16) := by
    rw [rvcTable, h.1]
    rfl
  have hagrees := agrees_of_expandsByTable hop hexpands
  rw [htable] at hagrees
  exact not_agrees_of_isAddHint h hagrees

/-- `C.SUBW x8, x8` and the hint `C.ADD x0, x1`. -/
theorem not_expandsByTable_subw_addHint :
    (quadrant 0x9c01#32 ≠ 3#32 ∧ ¬ ExpandsByTable 0x9c01#32) ∧
      (quadrant 0x9006#32 ≠ 3#32 ∧ ¬ ExpandsByTable 0x9006#32) :=
  ⟨⟨by decide, not_expandsByTable_of_isRv64Arith (by decide)⟩,
    ⟨by decide, not_expandsByTable_of_isAddHint (by decide)⟩⟩

/-- A compressed word is expanded as the RV32C table says, unless its halfword is a code point of
`C.SUBW` or `C.ADDW` or a `HINT` of `C.ADD`. -/
theorem expandsByTable_iff (w : Instruction) (hq : w.quadrant ≠ 3#32) :
    ExpandsByTable w ↔ ¬ IsRv64Arith (w.setWidth 16) ∧ ¬ IsAddHint (w.setWidth 16) := by
  constructor
  · intro h
    exact ⟨fun hslip ↦ not_expandsByTable_of_isRv64Arith hslip h,
      fun hslip ↦ not_expandsByTable_of_isAddHint hslip h⟩
  · rintro ⟨hrv64, hhint⟩
    rcases expand_of_quadrant hq with ⟨hsel, htable, hop⟩ | ⟨hsel, htable, hop⟩ |
      ⟨hsel, htable, hop⟩
    all_goals
      apply expandsByTable_of_agrees hop
      rw [htable]
    · exact quadrant0_agrees w
    · exact quadrant1_agrees w fun h ↦ hrv64 ⟨hsel, h⟩
    · exact quadrant2_agrees w fun h ↦ hhint ⟨hsel, h⟩

/-- `C.MV x10, x11`. -/
theorem expandsByTable_mv :
    quadrant 0x852e#32 ≠ 3#32 ∧ ExpandsByTable 0x852e#32 :=
  ⟨by decide, (expandsByTable_iff 0x852e#32 (by decide)).mpr ⟨by decide, by decide⟩⟩

end CoverageVP.Instr.Rvc
