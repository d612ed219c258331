import Mathlib.Data.BitVec

/-!
# Masks and bit fields

Facts about bit vectors of which only the bits under a mask are known. A known value under a mask
determines the value under every smaller mask, hence every field that lies inside the mask. The
bits of a field are those of the word inside the field's range, which is what the extensional
proofs about fields use.
-/

namespace CoverageVP.Lib

variable {n : Nat}

/-- The bits of `w` from `lower` to `upper`, left in place. -/
def bitRange (w : BitVec n) (upper lower : Nat) : BitVec n :=
  w &&& (((1#n <<< (upper - lower + 1)) - 1#n) <<< lower)

/-! ## Known bits -/

theorem and_eq_of_submask {w m e sub : BitVec n} (h : w &&& m = e) (hsub : m &&& sub = sub) :
    w &&& sub = e &&& sub := by
  rw [← h, BitVec.and_assoc, hsub]

/-- A field inside the mask of a known value has the value's field. -/
theorem bitRange_eq_of_masked {w m e : BitVec n} {upper lower : Nat} (h : w &&& m = e)
    (hsub : bitRange m upper lower = bitRange (BitVec.allOnes n) upper lower) :
    bitRange w upper lower = bitRange e upper lower := by
  unfold bitRange at hsub ⊢
  rw [BitVec.allOnes_and] at hsub
  exact and_eq_of_submask h hsub

/-! ## Bits of a field -/

theorem getLsbD_lowMask (k i : Nat) :
    ((1#n <<< k) - 1#n).getLsbD i = (decide (i < n) && decide (i < k)) := by
  have hcompl : (1#n <<< k) - 1#n = ~~~(BitVec.allOnes n <<< k) := by
    rw [← BitVec.not_neg, ← BitVec.shiftLeft_neg, BitVec.neg_one_eq_allOnes]
  rw [hcompl, BitVec.getLsbD_not, BitVec.getLsbD_shiftLeft, BitVec.getLsbD_allOnes]
  by_cases hi : i < n
  · have hk : i - k < n := by omega
    simp [hi, hk]
  · simp [hi]

theorem getLsbD_bitRange (w : BitVec n) {upper lower : Nat} (h : lower ≤ upper) (i : Nat) :
    (bitRange w upper lower).getLsbD i =
      (w.getLsbD i && decide (lower ≤ i) && decide (i ≤ upper)) := by
  by_cases hi : i < n
  · rw [bitRange, BitVec.getLsbD_and, BitVec.getLsbD_shiftLeft, getLsbD_lowMask]
    by_cases hl : lower ≤ i
    · have hiff : i - lower < upper - lower + 1 ↔ i ≤ upper := by omega
      have hn : i - lower < n := by omega
      simp [hi, hl, hn, hiff, Nat.not_lt.mpr hl]
    · simp [hl, Nat.not_le.mp hl]
  · rw [BitVec.getLsbD_of_ge _ _ (by omega), BitVec.getLsbD_of_ge w _ (by omega)]
    simp

/-! ## Fields put in their places -/

/-- A mask of a shifted word is one of the word. -/
theorem shiftLeft_and (x r : BitVec n) (k : Nat) : (x <<< k) &&& r = (x &&& (r >>> k)) <<< k := by
  apply BitVec.eq_of_getLsbD_eq
  intro i hi
  simp only [BitVec.getLsbD_and, BitVec.getLsbD_shiftLeft, BitVec.getLsbD_ushiftRight]
  by_cases hk : i < k
  · simp [hk]
  · rw [Nat.add_sub_cancel' (Nat.not_lt.mp hk), Bool.and_assoc]

/-- A mask that keeps all bits that are not shifted out. -/
theorem and_shiftLeft_of_mask (x : BitVec n) {m : BitVec n} {k : Nat}
    (h : m <<< k = BitVec.allOnes n <<< k) : (x &&& m) <<< k = x <<< k := by
  rw [BitVec.shiftLeft_and_distrib, h, ← BitVec.shiftLeft_and_distrib, BitVec.and_allOnes]

/-- A field that is shifted to its place and back. -/
theorem shiftLeft_ushiftRight_and (x : BitVec n) {m : BitVec n} {k : Nat}
    (hm : (m <<< k) >>> k = m) : ((x &&& m) <<< k) >>> k = x &&& m := by
  apply BitVec.eq_of_getLsbD_eq
  intro i hi
  have hbit := congrArg (·.getLsbD i) hm
  simp only [BitVec.getLsbD_ushiftRight, BitVec.getLsbD_shiftLeft, BitVec.getLsbD_and,
    Nat.add_sub_cancel_left] at hbit ⊢
  rw [Bool.and_left_comm, hbit]

end CoverageVP.Lib
