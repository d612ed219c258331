import CoverageVP.Instr.Compressed
import CoverageVP.Instr.Decode
import Mathlib.Tactic.IntervalCases

/-!
# Words built by the instruction factory

The factory puts operands and immediates into a word, and the executor takes them out again with
the accessors of `Instruction`. For each format this module proves the round trip of every field,
and that the built word matches the pattern of the opcode it was built for.
-/

namespace CoverageVP.Instr.InstructionFactory

open Lib Instruction

/-! ## Bits of accessors and factory words -/

theorem getLsbD_bitSlice (w : BitVec 32) {upper lower : Nat} (h : lower ≤ upper) {i : Nat}
    (hi : i < 32) :
    (bitSlice w upper lower).getLsbD i =
      ((w.getLsbD (min (lower + i) 31)) && decide (min (lower + i) 31 ≤ upper) &&
        decide (lower ≤ min (lower + i) 31)) := by
  rw [bitSlice, BitVec.getLsbD_sshiftRight, BitVec.msb_eq_getLsbD_last]
  rw [getLsbD_bitRange w h, getLsbD_bitRange w h]
  by_cases hlow : lower + i < 32
  · have hmin : min (lower + i) 31 = lower + i := by omega
    simp [hlow, hmin, hi]
  · have hmin : min (lower + i) 31 = 31 := by omega
    simp [hlow, hmin]
    grind

/-- A field that a word holds at its place. -/
theorem bitSlice_of_placed {w x m : BitVec 32} {upper lower : Nat}
    (hm : (m <<< lower) >>> lower = m) (hmsb : (m <<< lower).msb = false)
    (hw : bitRange w upper lower = (x &&& m) <<< lower) : bitSlice w upper lower = x &&& m := by
  have hxmsb : ((x &&& m) <<< lower).msb = false := by
    rw [BitVec.shiftLeft_and_distrib, BitVec.msb_and, hmsb, Bool.and_false]
  rw [bitSlice, hw, BitVec.sshiftRight_eq_of_msb_false hxmsb]
  exact shiftLeft_ushiftRight_and x hm

section Fields

variable {opc f3 f7 : BitVec 32} (rd rs1 rs2 imm shamt : BitVec 32)

theorem rd_rType (ho : opc &&& 0x7f#32 = opc) (h3 : f3 &&& 7#32 = f3) :
    (rType opc f3 f7 rd rs1 rs2).rd = rd &&& 0x1f#32 := by
  apply bitSlice_of_placed (by decide) (by decide)
  rw [← ho, ← h3, bitRange, rType]
  simp [BitVec.and_or_distrib_right, shiftLeft_and, BitVec.and_assoc]

theorem rs1_rType (ho : opc &&& 0x7f#32 = opc) (h3 : f3 &&& 7#32 = f3) :
    (rType opc f3 f7 rd rs1 rs2).rs1 = rs1 &&& 0x1f#32 := by
  apply bitSlice_of_placed (by decide) (by decide)
  rw [← ho, ← h3, bitRange, rType]
  simp [BitVec.and_or_distrib_right, shiftLeft_and, BitVec.and_assoc]

theorem rs2_rType (ho : opc &&& 0x7f#32 = opc) (h3 : f3 &&& 7#32 = f3) :
    (rType opc f3 f7 rd rs1 rs2).rs2 = rs2 &&& 0x1f#32 := by
  apply bitSlice_of_placed (by decide) (by decide)
  rw [← ho, ← h3, bitRange, rType]
  simp [BitVec.and_or_distrib_right, shiftLeft_and, BitVec.and_assoc]

theorem rType_and_mask (ho : opc &&& 0x7f#32 = opc) (h3 : f3 &&& 7#32 = f3) :
    rType opc f3 f7 rd rs1 rs2 &&& 0xfe00707f#32 = opc ||| (f3 <<< 12) ||| (f7 <<< 25) := by
  have h7 : (f7 &&& 0x7f#32) <<< 25 = f7 <<< 25 := and_shiftLeft_of_mask f7 (by decide)
  rw [← ho, ← h3, rType]
  simp [BitVec.and_or_distrib_right, shiftLeft_and, BitVec.and_assoc, h7]

theorem rd_iType (ho : opc &&& 0x7f#32 = opc) (h3 : f3 &&& 7#32 = f3) :
    (iType opc f3 rd rs1 imm).rd = rd &&& 0x1f#32 := by
  apply bitSlice_of_placed (by decide) (by decide)
  rw [← ho, ← h3, bitRange, iType]
  simp [BitVec.and_or_distrib_right, shiftLeft_and, BitVec.and_assoc]

theorem rs1_iType (ho : opc &&& 0x7f#32 = opc) (h3 : f3 &&& 7#32 = f3) :
    (iType opc f3 rd rs1 imm).rs1 = rs1 &&& 0x1f#32 := by
  apply bitSlice_of_placed (by decide) (by decide)
  rw [← ho, ← h3, bitRange, iType]
  simp [BitVec.and_or_distrib_right, shiftLeft_and, BitVec.and_assoc]

theorem iImm_iType (ho : opc &&& 0x7f#32 = opc) (h3 : f3 &&& 7#32 = f3) :
    (iType opc f3 rd rs1 imm).iImm = (imm.setWidth 12).signExtend 32 := by
  have hrange : bitRange (iType opc f3 rd rs1 imm) 31 20 = (imm &&& 0xfff#32) <<< 20 := by
    rw [← ho, ← h3, bitRange, iType]
    simp [BitVec.and_or_distrib_right, shiftLeft_and, BitVec.and_assoc]
  rw [Instruction.iImm, bitSlice, hrange]
  apply BitVec.eq_of_getLsbD_eq
  intro i hi
  rw [BitVec.getLsbD_sshiftRight, BitVec.getLsbD_signExtend, BitVec.msb_eq_getLsbD_last,
    BitVec.msb_eq_getLsbD_last]
  interval_cases i <;> simp

theorem iType_and_mask (ho : opc &&& 0x7f#32 = opc) (h3 : f3 &&& 7#32 = f3) :
    iType opc f3 rd rs1 imm &&& 0x707f#32 = opc ||| (f3 <<< 12) := by
  rw [← ho, ← h3, iType]
  simp [BitVec.and_or_distrib_right, shiftLeft_and, BitVec.and_assoc]

theorem rs1_sType (ho : opc &&& 0x7f#32 = opc) (h3 : f3 &&& 7#32 = f3) :
    (sType opc f3 rs1 rs2 imm).rs1 = rs1 &&& 0x1f#32 := by
  apply bitSlice_of_placed (by decide) (by decide)
  rw [← ho, ← h3, bitRange, sType]
  simp [BitVec.and_or_distrib_right, shiftLeft_and, BitVec.and_assoc]

theorem rs2_sType (ho : opc &&& 0x7f#32 = opc) (h3 : f3 &&& 7#32 = f3) :
    (sType opc f3 rs1 rs2 imm).rs2 = rs2 &&& 0x1f#32 := by
  apply bitSlice_of_placed (by decide) (by decide)
  rw [← ho, ← h3, bitRange, sType]
  simp [BitVec.and_or_distrib_right, shiftLeft_and, BitVec.and_assoc]

theorem sImm_sType (ho : opc &&& 0x7f#32 = opc) (h3 : f3 &&& 7#32 = f3) :
    (sType opc f3 rs1 rs2 imm).sImm = (imm.setWidth 12).signExtend 32 := by
  have hhigh : bitRange (sType opc f3 rs1 rs2 imm) 31 25 = (imm &&& 0xfe0#32) <<< 20 := by
    rw [← ho, ← h3, bitRange, sType]
    simp [BitVec.and_or_distrib_right, shiftLeft_and, BitVec.and_assoc]
  have hlow : bitRange (sType opc f3 rs1 rs2 imm) 11 7 = (imm &&& 0x1f#32) <<< 7 := by
    rw [← ho, ← h3, bitRange, sType]
    simp [BitVec.and_or_distrib_right, shiftLeft_and, BitVec.and_assoc]
  rw [Instruction.sImm, hhigh, hlow]
  apply BitVec.eq_of_getLsbD_eq
  intro i hi
  simp only [BitVec.getLsbD_or, BitVec.getLsbD_sshiftRight, BitVec.getLsbD_signExtend,
    BitVec.msb_eq_getLsbD_last]
  interval_cases i <;> simp

theorem sType_and_mask (ho : opc &&& 0x7f#32 = opc) (h3 : f3 &&& 7#32 = f3) :
    sType opc f3 rs1 rs2 imm &&& 0x707f#32 = opc ||| (f3 <<< 12) := by
  rw [← ho, ← h3, sType]
  simp [BitVec.and_or_distrib_right, shiftLeft_and, BitVec.and_assoc]

theorem rd_shiftType (h3 : f3 &&& 7#32 = f3) :
    (shiftType f3 f7 rd rs1 shamt).rd = rd &&& 0x1f#32 := by
  apply bitSlice_of_placed (by decide) (by decide)
  rw [← h3, bitRange, shiftType]
  simp [BitVec.and_or_distrib_right, shiftLeft_and, BitVec.and_assoc]

theorem rs1_shiftType (h3 : f3 &&& 7#32 = f3) :
    (shiftType f3 f7 rd rs1 shamt).rs1 = rs1 &&& 0x1f#32 := by
  apply bitSlice_of_placed (by decide) (by decide)
  rw [← h3, bitRange, shiftType]
  simp [BitVec.and_or_distrib_right, shiftLeft_and, BitVec.and_assoc]

theorem shamt_shiftType (h3 : f3 &&& 7#32 = f3) (h7 : f7 &&& 0x7e#32 = f7) :
    (shiftType f3 f7 rd rs1 shamt).shamt = shamt &&& 0x3f#32 := by
  apply bitSlice_of_placed (by decide) (by decide)
  rw [← h3, ← h7, bitRange, shiftType]
  simp [BitVec.and_or_distrib_right, shiftLeft_and, BitVec.and_assoc]

theorem shiftType_and_mask (h3 : f3 &&& 7#32 = f3) :
    shiftType f3 f7 rd rs1 (shamt &&& 0x1f#32) &&& 0xfe00707f#32 =
      0x13#32 ||| (f3 <<< 12) ||| (f7 <<< 25) := by
  have h7 : (f7 &&& 0x7f#32) <<< 25 = f7 <<< 25 := and_shiftLeft_of_mask f7 (by decide)
  rw [← h3, shiftType]
  simp [BitVec.and_or_distrib_right, shiftLeft_and, BitVec.and_assoc, h7]

theorem bType_bit : (imm &&& (1#32 <<< 11)).sshiftRight 4 = (imm >>> 4) &&& 0x80#32 := by
  have hmsb : (imm &&& (1#32 <<< 11)).msb = false := by
    rw [BitVec.msb_and]
    exact Bool.and_false _
  rw [BitVec.sshiftRight_eq_of_msb_false hmsb, BitVec.ushiftRight_and_distrib]
  rfl

theorem rs1_bType (h3 : f3 &&& 7#32 = f3) : (bType f3 rs1 rs2 imm).rs1 = rs1 &&& 0x1f#32 := by
  apply bitSlice_of_placed (by decide) (by decide)
  rw [← h3, bitRange, bType, bType_bit]
  simp [BitVec.and_or_distrib_right, shiftLeft_and, BitVec.and_assoc]

theorem rs2_bType (h3 : f3 &&& 7#32 = f3) : (bType f3 rs1 rs2 imm).rs2 = rs2 &&& 0x1f#32 := by
  apply bitSlice_of_placed (by decide) (by decide)
  rw [← h3, bitRange, bType, bType_bit]
  simp [BitVec.and_or_distrib_right, shiftLeft_and, BitVec.and_assoc]

theorem bImm_bType (h3 : f3 &&& 7#32 = f3) (heven : imm.getLsbD 0 = false) :
    (bType f3 rs1 rs2 imm).bImm = (imm.setWidth 13).signExtend 32 := by
  have hsign : bitSingle (bType f3 rs1 rs2 imm) 31 = (imm &&& 0x1000#32) <<< 19 := by
    rw [← h3, bitSingle, bType, bType_bit]
    simp [BitVec.and_or_distrib_right, shiftLeft_and, BitVec.and_assoc]
  have heleventh : bitSingle (bType f3 rs1 rs2 imm) 7 = (imm >>> 4) &&& 0x80#32 := by
    rw [← h3, bitSingle, bType, bType_bit]
    simp [BitVec.and_or_distrib_right, shiftLeft_and, BitVec.and_assoc]
  have hhigh : bitRange (bType f3 rs1 rs2 imm) 30 25 = (imm &&& 0x7e0#32) <<< 20 := by
    rw [← h3, bitRange, bType, bType_bit]
    simp [BitVec.and_or_distrib_right, shiftLeft_and, BitVec.and_assoc]
  have hlow : bitRange (bType f3 rs1 rs2 imm) 11 8 = (imm &&& 0x1e#32) <<< 7 := by
    rw [← h3, bitRange, bType, bType_bit]
    simp [BitVec.and_or_distrib_right, shiftLeft_and, BitVec.and_assoc]
  have hzero : imm[0] = false := (BitVec.getLsbD_eq_getElem (by decide)).symm.trans heven
  rw [Instruction.bImm, hsign, heleventh, hhigh, hlow]
  apply BitVec.eq_of_getLsbD_eq
  intro i hi
  simp only [BitVec.getLsbD_or, BitVec.getLsbD_sshiftRight, BitVec.getLsbD_signExtend,
    BitVec.msb_eq_getLsbD_last]
  interval_cases i <;> simp [hzero]

theorem bType_and_mask (h3 : f3 &&& 7#32 = f3) :
    bType f3 rs1 rs2 imm &&& 0x707f#32 = 0x63#32 ||| (f3 <<< 12) := by
  rw [← h3, bType, bType_bit]
  simp [BitVec.and_or_distrib_right, shiftLeft_and, BitVec.and_assoc]

theorem rd_LUI : (LUI rd imm).rd = rd &&& 0x1f#32 := by
  apply bitSlice_of_placed (by decide) (by decide)
  rw [bitRange, LUI]
  simp [BitVec.and_or_distrib_right, shiftLeft_and, BitVec.and_assoc]

theorem uImm_LUI : (LUI rd imm).uImm = imm &&& 0xfffff000#32 := by
  apply BitVec.eq_of_getLsbD_eq
  intro i hi
  rw [Instruction.uImm, getLsbD_bitRange _ (by decide), LUI]
  interval_cases i <;> simp

theorem LUI_and_mask : LUI rd imm &&& 0x7f#32 = 0x37#32 := by
  rw [LUI]
  simp [BitVec.and_or_distrib_right, shiftLeft_and, BitVec.and_assoc]

theorem rd_JAL : (JAL rd imm).rd = rd &&& 0x1f#32 := by
  apply bitSlice_of_placed (by decide) (by decide)
  rw [bitRange, JAL]
  simp [BitVec.and_or_distrib_right, shiftLeft_and, BitVec.and_assoc]

theorem jImm_JAL (heven : imm.getLsbD 0 = false) :
    (JAL rd imm).jImm = (imm.setWidth 21).signExtend 32 := by
  have hsign : bitSingle (JAL rd imm) 31 = (imm &&& 0x100000#32) <<< 11 := by
    rw [bitSingle, JAL]
    simp [BitVec.and_or_distrib_right, shiftLeft_and, BitVec.and_assoc]
  have hmiddle : bitRange (JAL rd imm) 19 12 = imm &&& 0xff000#32 := by
    rw [bitRange, JAL]
    simp [BitVec.and_or_distrib_right, shiftLeft_and, BitVec.and_assoc]
  have heleventh : bitSingle (JAL rd imm) 20 = (imm &&& 0x800#32) <<< 9 := by
    rw [bitSingle, JAL]
    simp [BitVec.and_or_distrib_right, shiftLeft_and, BitVec.and_assoc]
  have hlow : bitRange (JAL rd imm) 30 21 = (imm &&& 0x7fe#32) <<< 20 := by
    rw [bitRange, JAL]
    simp [BitVec.and_or_distrib_right, shiftLeft_and, BitVec.and_assoc]
  have hzero : imm[0] = false := (BitVec.getLsbD_eq_getElem (by decide)).symm.trans heven
  rw [Instruction.jImm, hsign, hmiddle, heleventh, hlow]
  apply BitVec.eq_of_getLsbD_eq
  intro i hi
  simp only [BitVec.getLsbD_or, BitVec.getLsbD_sshiftRight, BitVec.getLsbD_signExtend,
    BitVec.msb_eq_getLsbD_last]
  interval_cases i <;> simp [hzero]

theorem JAL_and_mask : JAL rd imm &&& 0x7f#32 = 0x6f#32 := by
  rw [JAL]
  simp [BitVec.and_or_distrib_right, shiftLeft_and, BitVec.and_assoc]

end Fields

end CoverageVP.Instr.InstructionFactory
