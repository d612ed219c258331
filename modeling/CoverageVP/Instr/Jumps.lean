import CoverageVP.Instr.RvcExpansion

/-!
# The jumps of RV32IC

Which instructions of the instruction set branch or jump, and how far, stated on the fields of the
words and independently of the accessors. A word of thirty-two bits is a jump by its major opcode and
its minor one, a halfword by the row of the RV32C table.
-/

namespace CoverageVP.Instr

open Lib Rvc

/-- Conditional branches and direct jumps, with the distance of their target, and indirect jumps. -/
inductive Jump
  | branch (distance : BitVec 13)
  | direct (distance : BitVec 21)
  | indirect
  deriving DecidableEq, Repr

/-- The target of an indirect jump is not known before the run. -/
def Jump.target (addr : BitVec 64) : Jump → Option (BitVec 64)
  | .branch distance => some (addr + distance.signExtend 64)
  | .direct distance => some (addr + distance.signExtend 64)
  | .indirect => none

namespace Jump

variable (w : BitVec 32)

def branchDistance : BitVec 13 :=
  w.extractLsb' 31 1 ++ w.extractLsb' 7 1 ++ w.extractLsb' 25 6 ++ w.extractLsb' 8 4 ++ 0#1

def directDistance : BitVec 21 :=
  w.extractLsb' 31 1 ++ w.extractLsb' 12 8 ++ w.extractLsb' 20 1 ++ w.extractLsb' 21 10 ++ 0#1

/-- The minor opcodes two and three are not branches, and an indirect jump has the minor opcode
zero. -/
def plain : Option Jump :=
  if w.extractLsb' 0 7 = 0b1100011#7 then
    if w.extractLsb' 13 2 = 0b01#2 then none else some (.branch (branchDistance w))
  else if w.extractLsb' 0 7 = 0b1101111#7 then some (.direct (directDistance w))
  else if w.extractLsb' 0 7 = 0b1100111#7 then
    if w.extractLsb' 12 3 = 0b000#3 then some .indirect else none
  else none

/-- The words that have the major opcode of a jump and are none. -/
def reserved : Option Jump :=
  if w.extractLsb' 0 7 = 0b1100011#7 then
    if w.extractLsb' 13 2 = 0b01#2 then some (.branch (branchDistance w)) else none
  else if w.extractLsb' 0 7 = 0b1100111#7 then
    if w.extractLsb' 12 3 = 0b000#3 then none else some .indirect
  else none

/-- The rows `C.BEQZ` and `C.BNEZ`, `C.J` and `C.JAL`, and `C.JR` and `C.JALR`. -/
def compressed : Option Jump :=
  if w.extractLsb' 0 2 = 0b11#2 then none
  else
    match rvcTable (w.setWidth 16) with
    | .base (.b _ _ _ imm) => some (.branch imm)
    | .base (.j _ _ imm) => some (.direct imm)
    | .base (.i .JALR _ _ _) => some .indirect
    | _ => none

/-- The jump that a word holds, if any. -/
def ofWord : Option Jump := (plain w).or (compressed w)

end Jump

/-! ## Fields and accessors -/

namespace Instruction

variable (w : Instruction)

theorem opcode_eq_extractLsb' : w.opcode = (w.extractLsb' 0 7).setWidth 32 := by
  apply BitVec.eq_of_getLsbD_eq
  intro i hi
  rw [opcode, getLsbD_bitRange w (by decide)]
  simp only [BitVec.getLsbD_setWidth, BitVec.getLsbD_extractLsb', Nat.zero_add]
  by_cases hlow : i ≤ 6
  · simp [hlow, hi, Nat.lt_succ_of_le hlow]
  · have hnot : ¬ i < 7 := by omega
    simp [hlow, hnot]

theorem toNat_opcode_eq_iff (major : BitVec 7) :
    w.opcode.toNat = major.toNat ↔ w.extractLsb' 0 7 = major := by
  rw [opcode_eq_extractLsb', BitVec.toNat_setWidth_of_le (by decide), BitVec.toNat_inj]

theorem bImm_eq : w.bImm = (Jump.branchDistance w).signExtend 32 := by
  apply BitVec.eq_of_getLsbD_eq
  intro i hi
  rw [bImm, bitSingle_eq_bitRange, bitSingle_eq_bitRange, Jump.branchDistance]
  simp only [BitVec.getLsbD_signExtend, BitVec.msb_eq_getLsbD_last, BitVec.getLsbD_append,
    BitVec.getLsbD_or, BitVec.getLsbD_shiftLeft, BitVec.getLsbD_sshiftRight,
    getLsbD_bitRange w (le_refl 31), getLsbD_bitRange w (le_refl 7),
    getLsbD_bitRange w (show 25 ≤ 30 by decide), getLsbD_bitRange w (show 8 ≤ 11 by decide)]
  interval_cases i <;> simp

theorem jImm_eq : w.jImm = (Jump.directDistance w).signExtend 32 := by
  apply BitVec.eq_of_getLsbD_eq
  intro i hi
  rw [jImm, bitSingle_eq_bitRange, bitSingle_eq_bitRange, Jump.directDistance]
  simp only [BitVec.getLsbD_signExtend, BitVec.msb_eq_getLsbD_last, BitVec.getLsbD_append,
    BitVec.getLsbD_or, BitVec.getLsbD_sshiftRight, getLsbD_bitRange w (le_refl 31),
    getLsbD_bitRange w (le_refl 20), getLsbD_bitRange w (show 12 ≤ 19 by decide),
    getLsbD_bitRange w (show 21 ≤ 30 by decide)]
  interval_cases i <;> simp

end Instruction

theorem signExtend_signExtend {n m k : Nat} (x : BitVec n) (hm : n ≤ m) (hk : m ≤ k) :
    (x.signExtend m).signExtend k = x.signExtend k := by
  apply BitVec.eq_of_toInt_eq
  rw [BitVec.toInt_signExtend_of_le hk, BitVec.toInt_signExtend_of_le hm,
    BitVec.toInt_signExtend_of_le (hm.trans hk)]

/-! ## Exclusion -/

namespace Jump

variable {w : BitVec 32}

theorem extractLsb'_low (w : BitVec 32) : w.extractLsb' 0 2 = (w.extractLsb' 0 7).setWidth 2 := by
  apply BitVec.eq_of_getLsbD_eq
  intro i hi
  have hseven : i < 7 := by omega
  simp [hseven]

theorem compressed_of_plain (h : (plain w).isSome = true) : compressed w = none := by
  refine if_pos ?_
  rw [extractLsb'_low]
  unfold plain at h
  split at h
  case isTrue hmajor => rw [hmajor]; rfl
  split at h
  case isTrue hmajor => rw [hmajor]; rfl
  split at h
  case isTrue hmajor => rw [hmajor]; rfl
  cases h

theorem reserved_of_plain (h : (plain w).isSome = true) : reserved w = none := by
  unfold plain at h
  unfold reserved
  split at h
  case isTrue hmajor =>
    rw [if_pos hmajor]
    split at h
    · cases h
    case isFalse hminor => exact if_neg hminor
  case isFalse hbranch =>
    rw [if_neg hbranch]
    split at h
    case isTrue hmajor =>
      rw [hmajor]
      rfl
    split at h
    case isTrue hmajor =>
      rw [if_pos hmajor]
      split at h
      case isTrue hminor => exact if_pos hminor
      · cases h
    · cases h

end Jump

end CoverageVP.Instr
