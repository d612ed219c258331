import Mathlib.Data.BitVec

/-!
# Words in a memory of bytes

A memory is a function from addresses to bytes. Its words are read and written with the least
significant byte first.
-/

namespace CoverageVP.Lib

/-! ## Single bits -/

theorem getLsbD_clear_bit {w : Nat} (x : BitVec w) (k : Nat) {i : Nat} (hi : i < w) :
    (x &&& ~~~(1#w <<< k)).getLsbD i = (x.getLsbD i && i != k) := by
  rw [BitVec.getLsbD_and, BitVec.getLsbD_not, ← BitVec.twoPow_eq, BitVec.getLsbD_twoPow,
    decide_eq_true hi, Bool.true_and]
  by_cases h : i = k
  · rw [h] at hi ⊢
    simp [hi]
  · have hne : ¬ k = i := fun hk ↦ h hk.symm
    simp [h, hne]

theorem getLsbD_set_bit {w : Nat} (x : BitVec w) (k : Nat) {i : Nat} (hi : i < w) :
    (x ||| 1#w <<< k).getLsbD i = (x.getLsbD i || i == k) := by
  rw [BitVec.getLsbD_or, ← BitVec.twoPow_eq, BitVec.getLsbD_twoPow]
  by_cases h : i = k
  · rw [h] at hi ⊢
    simp [hi]
  · have hne : ¬ k = i := fun hk ↦ h hk.symm
    simp [h, hne]

abbrev Bytes := Nat → BitVec 8

namespace Bytes

variable (m : Bytes)

def read (addr len : Nat) : List (BitVec 8) := (List.range len).map fun i ↦ m (addr + i)

def write (addr : Nat) (data : List (BitVec 8)) : Bytes :=
  fun b ↦ if addr ≤ b then data[b - addr]?.getD (m b) else m b

/-- The number in `n` bytes. -/
def natAt (addr : Nat) : Nat → Nat
  | 0 => 0
  | n + 1 => 2 ^ 8 * natAt (addr + 1) n + (m addr).toNat

def word (w addr : Nat) : BitVec w := BitVec.ofNat w (m.natAt addr (w / 8))

def setWord {w : Nat} (addr : Nat) (value : BitVec w) : Bytes :=
  fun b ↦ if addr ≤ b ∧ b < addr + w / 8 then value.extractLsb' (8 * (b - addr)) 8 else m b

/-- The bytes of a word. -/
def ofWord {w : Nat} (value : BitVec w) : List (BitVec 8) :=
  (List.range (w / 8)).map fun i ↦ value.extractLsb' (8 * i) 8

theorem read_setWord {w : Nat} (addr : Nat) (value : BitVec w) :
    (m.setWord addr value).read addr (w / 8) = ofWord value := by
  apply List.map_congr_left
  intro i hi
  have hlt : i < w / 8 := List.mem_range.mp hi
  rw [setWord, if_pos ⟨Nat.le_add_right _ _, by omega⟩, Nat.add_sub_cancel_left]

/-! ## Bits -/

theorem testBit_natAt (addr n i : Nat) :
    (m.natAt addr n).testBit i = (decide (i < 8 * n) && (m (addr + i / 8)).getLsbD (i % 8)) := by
  induction n generalizing addr i with
  | zero => simp [natAt]
  | succ n ih =>
    rw [natAt, Nat.testBit_two_pow_mul_add _ (m addr).isLt]
    split
    case isTrue hlt =>
      have hzero : i / 8 = 0 := Nat.div_eq_of_lt hlt
      have hmod : i % 8 = i := Nat.mod_eq_of_lt hlt
      have hbound : i < 8 * (n + 1) := by omega
      rw [hzero, hmod, Nat.add_zero, decide_eq_true hbound, Bool.true_and]
      rfl
    case isFalse hge =>
      have hdiv : addr + 1 + (i - 8) / 8 = addr + i / 8 := by omega
      have hmod : (i - 8) % 8 = i % 8 := by omega
      have hbound : i - 8 < 8 * n ↔ i < 8 * (n + 1) := by omega
      rw [ih, hdiv, hmod, decide_eq_decide.mpr hbound]

theorem getLsbD_word {w : Nat} (hw : 8 ∣ w) (addr : Nat) {i : Nat} (hi : i < w) :
    (m.word w addr).getLsbD i = (m (addr + i / 8)).getLsbD (i % 8) := by
  have hbound : i < 8 * (w / 8) := by
    rw [Nat.mul_div_cancel' hw]
    exact hi
  rw [word, BitVec.getLsbD_ofNat, testBit_natAt, decide_eq_true hi, decide_eq_true hbound,
    Bool.true_and, Bool.true_and]

/-- Words of equal bytes are equal. -/
theorem word_congr {m' : Bytes} {w : Nat} (hw : 8 ∣ w) {addr addr' : Nat}
    (h : ∀ i, i < w / 8 → m' (addr' + i) = m (addr + i)) : m'.word w addr' = m.word w addr := by
  apply BitVec.eq_of_getLsbD_eq
  intro i hi
  have hbyte : i / 8 < w / 8 := Nat.div_lt_div_of_lt_of_dvd hw hi
  rw [getLsbD_word m' hw _ hi, getLsbD_word m hw _ hi, h _ hbyte]

/-- The bytes of equal words are equal. -/
theorem eq_of_word_eq {m' : Bytes} {w : Nat} (hw : 8 ∣ w) {addr : Nat}
    (h : m'.word w addr = m.word w addr) {i : Nat} (hi : i < w / 8) :
    m' (addr + i) = m (addr + i) := by
  apply BitVec.eq_of_getLsbD_eq
  intro k hk
  have hbit : 8 * i + k < w := by
    have hle := Nat.mul_div_cancel' hw
    omega
  have hdiv : (8 * i + k) / 8 = i := by omega
  have hmod : (8 * i + k) % 8 = k := by omega
  have hword := congrArg (BitVec.getLsbD · (8 * i + k)) h
  simp only [getLsbD_word _ hw _ hbit, hdiv, hmod] at hword
  exact hword

theorem word_setWord {w : Nat} (hw : 8 ∣ w) (addr : Nat) (value : BitVec w) :
    (m.setWord addr value).word w addr = value := by
  apply BitVec.eq_of_getLsbD_eq
  intro i hi
  have hbyte : i / 8 < w / 8 := Nat.div_lt_div_of_lt_of_dvd hw hi
  have hpos : 8 * (i / 8) + i % 8 = i := Nat.div_add_mod i 8
  have hlt : i % 8 < 8 := Nat.mod_lt i (by decide)
  rw [getLsbD_word _ hw _ hi, setWord, if_pos ⟨Nat.le_add_right _ _, by omega⟩,
    Nat.add_sub_cancel_left, BitVec.getLsbD_extractLsb', hpos, decide_eq_true hlt, Bool.true_and]

/-! ## Frames -/

theorem word_setWord_of_disjoint {w w' : Nat} (hw : 8 ∣ w') {addr addr' : Nat} (value : BitVec w)
    (h : addr' + w' / 8 ≤ addr ∨ addr + w / 8 ≤ addr') :
    (m.setWord addr value).word w' addr' = m.word w' addr' := by
  apply word_congr m hw
  intro i hi
  have hout : ¬ (addr ≤ addr' + i ∧ addr' + i < addr + w / 8) := by omega
  rw [setWord, if_neg hout]

theorem write_of_lt {addr b : Nat} (data : List (BitVec 8)) (h : b < addr) :
    m.write addr data b = m b :=
  if_neg (Nat.not_le.mpr h)

theorem write_of_ge {addr b : Nat} (data : List (BitVec 8)) (h : addr + data.length ≤ b) :
    m.write addr data b = m b := by
  rw [write, if_pos (by omega), List.getElem?_eq_none (by omega)]
  rfl

theorem word_write_of_disjoint {w : Nat} (hw : 8 ∣ w) {addr addr' : Nat}
    (data : List (BitVec 8)) (h : addr' + w / 8 ≤ addr ∨ addr + data.length ≤ addr') :
    (m.write addr data).word w addr' = m.word w addr' := by
  apply word_congr m hw
  intro i hi
  rcases h with h | h
  · exact write_of_lt m data (by omega)
  · exact write_of_ge m data (by omega)

theorem write_of_mem {addr i : Nat} (data : List (BitVec 8)) (h : i < data.length) :
    m.write addr data (addr + i) = data[i] := by
  rw [write, if_pos (Nat.le_add_right addr i), Nat.add_sub_cancel_left, List.getElem?_eq_getElem h]
  rfl

/-- A write determines the words within it. -/
theorem word_write_of_within (m' : Bytes) {w : Nat} (hw : 8 ∣ w) {addr addr' i : Nat}
    {data : List (BitVec 8)} (h : i + w / 8 ≤ data.length) :
    (m.write addr data).word w (addr + i) = (m'.write addr' data).word w (addr' + i) := by
  apply word_congr _ hw
  intro k hk
  have hlt : i + k < data.length := by omega
  rw [Nat.add_assoc, Nat.add_assoc, write_of_mem m data hlt, write_of_mem m' data hlt]

theorem write_singleton (addr : Nat) (byte : BitVec 8) (b : Nat) :
    m.write addr [byte] b = if b = addr then byte else m b := by
  rcases Nat.lt_trichotomy b addr with hlt | rfl | hgt
  · rw [write_of_lt m _ hlt, if_neg (Nat.ne_of_lt hlt)]
  · rw [if_pos rfl]
    exact write_of_mem m (i := 0) [byte] Nat.one_pos
  · rw [write_of_ge m _ hgt, if_neg (Nat.ne_of_gt hgt)]

theorem read_eq_iff {addr : Nat} {data : List (BitVec 8)} :
    m.read addr data.length = data ↔ ∀ i (hi : i < data.length), m (addr + i) = data[i] := by
  constructor
  · intro heq i hi
    have hget := List.getElem_of_eq heq.symm hi
    rw [hget]
    simp [read]
  · intro hall
    apply List.ext_getElem
    · simp [read]
    · intro i _ hi
      rw [← hall i hi]
      simp [read]

theorem read_write (addr : Nat) (data : List (BitVec 8)) :
    (m.write addr data).read addr data.length = data :=
  (read_eq_iff _).mpr fun _ hi ↦ write_of_mem m data hi

/-- A write leaves a word if it writes the bytes that are there. -/
theorem word_write_eq_iff {w : Nat} (hw : 8 ∣ w) {addr : Nat} {data : List (BitVec 8)}
    (h : addr + data.length ≤ w / 8) :
    (m.write addr data).word w 0 = m.word w 0 ↔ m.read addr data.length = data := by
  rw [read_eq_iff]
  constructor
  · intro heq i hi
    have hbyte := eq_of_word_eq m hw heq (i := addr + i) (by omega)
    rw [Nat.zero_add, write_of_mem m data hi] at hbyte
    exact hbyte.symm
  · intro hall
    apply word_congr m hw
    intro b _
    rw [Nat.zero_add]
    rcases Nat.lt_or_ge b addr with hlt | hge
    · exact write_of_lt m data hlt
    rcases Nat.lt_or_ge b (addr + data.length) with hlt | hge'
    · obtain ⟨i, rfl⟩ := Nat.exists_eq_add_of_le hge
      have hi : i < data.length := by omega
      rw [write_of_mem m data hi, hall i hi]
    · exact write_of_ge m data hge'

end Bytes

end CoverageVP.Lib
