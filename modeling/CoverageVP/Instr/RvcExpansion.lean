import CoverageVP.Instr.Rvc

/-!
# Rows of the RV32C table

The accessors of a compressed word depend on its low halfword alone and are the fields of the
table. A row of the table is realised by one application of a round trip of the instruction
factory.
-/

namespace CoverageVP.Instr.Rvc

open Lib Instruction InstructionFactory

/-! ## Accessors of compressed words -/

section Accessors

variable (w : Instruction)

theorem bitSlice_eq_field {upper lower : Nat} (hl : lower ≤ upper) (hu : upper < 16) :
    bitSlice w upper lower =
      (field (w.setWidth 16) lower (upper + 1 - lower)).setWidth 32 := by
  apply BitVec.eq_of_getLsbD_eq
  intro i hi
  rw [getLsbD_bitSlice w hl hi]
  simp only [BitVec.getLsbD_setWidth, BitVec.getLsbD_extractLsb']
  by_cases hlow : lower + i ≤ upper
  · have hmin : min (lower + i) 31 = lower + i := by omega
    have hlen : i < upper + 1 - lower := by omega
    have h16 : lower + i < 16 := by omega
    simp [hmin, hlow, hi, hlen, h16]
  · have hlen : ¬ i < upper + 1 - lower := by omega
    have hmin : ¬ min (lower + i) 31 ≤ upper := by omega
    simp [hlen, hmin]

theorem quadrant_eq_field : w.quadrant = (field (w.setWidth 16) 0 2).setWidth 32 := by
  apply BitVec.eq_of_getLsbD_eq
  intro i hi
  rw [quadrant]
  interval_cases i <;> simp

theorem cFormat_eq : w.cFormat = (w.setWidth 16).setWidth 32 := by
  apply BitVec.eq_of_getLsbD_eq
  intro i hi
  rw [cFormat]
  interval_cases i <;> simp

theorem cOpcode_eq_field : w.cOpcode = (field (w.setWidth 16) 13 3).setWidth 32 :=
  bitSlice_eq_field w (by decide) (by decide)

theorem cRd_eq_field : w.cRd = (field (w.setWidth 16) 7 5).setWidth 32 :=
  bitSlice_eq_field w (by decide) (by decide)

theorem cRs2_eq_field : w.cRs2 = (field (w.setWidth 16) 2 5).setWidth 32 :=
  bitSlice_eq_field w (by decide) (by decide)

theorem cF2High_eq_field : w.cF2High = (field (w.setWidth 16) 10 2).setWidth 32 :=
  bitSlice_eq_field w (by decide) (by decide)

theorem cF2Low_eq_field : w.cF2Low = (field (w.setWidth 16) 5 2).setWidth 32 :=
  bitSlice_eq_field w (by decide) (by decide)

theorem small_setWidth (r : BitVec 3) : r.setWidth 32 ||| 8#32 = (small r).setWidth 32 := by
  apply BitVec.eq_of_getLsbD_eq
  intro i hi
  simp only [small, BitVec.getLsbD_or, BitVec.getLsbD_setWidth, BitVec.getLsbD_append]
  interval_cases i <;> simp

theorem cRdSmall_eq_small : w.cRdSmall = (small (field (w.setWidth 16) 7 3)).setWidth 32 := by
  rw [cRdSmall, bitSlice_eq_field w (by decide) (by decide)]
  exact small_setWidth _

theorem cRs2Small_eq_small : w.cRs2Small = (small (field (w.setWidth 16) 2 3)).setWidth 32 := by
  rw [cRs2Small, bitSlice_eq_field w (by decide) (by decide)]
  exact small_setWidth _

theorem bitSingle_eq_bitRange (pos : Nat) : bitSingle w pos = bitRange w pos pos := by
  rw [bitSingle, bitRange, Nat.sub_self]
  rfl

theorem bitSingleP1_eq_field {pos : Nat} (hpos : pos < 16) :
    bitSingleP1 w pos = (field (w.setWidth 16) pos 1).setWidth 32 := by
  have hslice : bitSingleP1 w pos = bitSlice w pos pos := by
    rw [bitSingleP1, bitSingle_eq_bitRange, bitSlice]
  rw [hslice, bitSlice_eq_field w le_rfl hpos, Nat.add_sub_cancel_left]

theorem bitSliceU_eq_field {upper lower : Nat} (hl : lower ≤ upper) (hu : upper < 16) :
    bitSliceU w upper lower =
      (field (w.setWidth 16) lower (upper + 1 - lower)).setWidth 32 := by
  have hmsb : (bitRange w upper lower).msb = false := by
    rw [BitVec.msb_eq_getLsbD_last, getLsbD_bitRange w hl]
    have hlast : ¬ 32 - 1 ≤ upper := by omega
    simp [hlast]
  rw [← bitSlice_eq_field w hl hu, bitSliceU, bitSlice, BitVec.sshiftRight_eq_of_msb_false hmsb]

theorem bitSinglePNU_eq_field {pos : Nat} (newPos : Nat) (hpos : pos < 16) :
    bitSinglePNU w pos newPos = (field (w.setWidth 16) pos 1).setWidth 32 <<< newPos := by
  have hslice : bitSingle w pos >>> pos = bitSliceU w pos pos := by
    rw [bitSingle_eq_bitRange, bitSliceU]
  rw [bitSinglePNU, hslice, bitSliceU_eq_field w le_rfl hpos, Nat.add_sub_cancel_left]

theorem bitSinglePN_eq_field {pos : Nat} (newPos : Nat) (hpos : pos < 16) :
    bitSinglePN w pos newPos = (field (w.setWidth 16) pos 1).setWidth 32 <<< newPos := by
  rw [bitSinglePN, bitSingleP1_eq_field w hpos]

theorem extractSignBit_eq_field {pos : Nat} (newPos : Nat) (hpos : pos < 16) :
    extractSignBit w pos newPos =
      ((field (w.setWidth 16) pos 1).setWidth 32 <<< 31).sshiftRight (31 - newPos) := by
  rw [extractSignBit, bitSingleP1_eq_field w hpos]

theorem cB12_eq_field : w.cB12 = (field (w.setWidth 16) 12 1).setWidth 32 :=
  bitSingleP1_eq_field w (by decide)

/-! The immediates. Both sides are made of the same bits, so the proofs compare them bit by bit. -/

theorem cImm_eq : w.cImm = (ciImm (w.setWidth 16)).signExtend 32 := by
  rw [cImm, bitSlice_eq_field w (by decide) (by decide), extractSignBit_eq_field w _ (by decide),
    ciImm]
  generalize w.setWidth 16 = h
  apply BitVec.eq_of_getLsbD_eq
  intro i hi
  simp only [BitVec.getLsbD_signExtend, BitVec.msb_eq_getLsbD_last, BitVec.getLsbD_append]
  interval_cases i <;> simp [BitVec.getElem_sshiftRight, BitVec.msb_eq_getLsbD_last]

theorem cUimm_eq : w.cUimm = (ciImm (w.setWidth 16)).setWidth 32 := by
  rw [cUimm, bitSlice_eq_field w (by decide) (by decide), bitSingleP1_eq_field w (by decide), ciImm]
  generalize w.setWidth 16 = h
  apply BitVec.eq_of_getLsbD_eq
  intro i hi
  simp only [BitVec.getLsbD_setWidth, BitVec.getLsbD_append]
  interval_cases i <;> simp

theorem cAddi4spnNzuimm_eq :
    cAddi4spnNzuimm w = (addi4spnImm (w.setWidth 16)).setWidth 32 := by
  rw [cAddi4spnNzuimm, bitSliceU_eq_field w (by decide) (by decide),
    bitSliceU_eq_field w (by decide) (by decide), bitSinglePNU_eq_field w _ (by decide),
    bitSinglePNU_eq_field w _ (by decide), addi4spnImm]
  generalize w.setWidth 16 = h
  apply BitVec.eq_of_getLsbD_eq
  intro i hi
  simp only [BitVec.getLsbD_setWidth, BitVec.getLsbD_append]
  interval_cases i <;> simp

theorem cLwUimm_eq : cLwUimm w = (lwImm (w.setWidth 16)).setWidth 32 := by
  rw [cLwUimm, bitSliceU_eq_field w (by decide) (by decide), bitSinglePNU_eq_field w _ (by decide),
    bitSinglePNU_eq_field w _ (by decide), lwImm]
  generalize w.setWidth 16 = h
  apply BitVec.eq_of_getLsbD_eq
  intro i hi
  simp only [BitVec.getLsbD_setWidth, BitVec.getLsbD_append]
  interval_cases i <;> simp

theorem cLdUimm_eq : cLdUimm w = (ldImm (w.setWidth 16)).setWidth 32 := by
  rw [cLdUimm, bitSliceU_eq_field w (by decide) (by decide),
    bitSliceU_eq_field w (by decide) (by decide), ldImm]
  generalize w.setWidth 16 = h
  apply BitVec.eq_of_getLsbD_eq
  intro i hi
  simp only [BitVec.getLsbD_setWidth, BitVec.getLsbD_append]
  interval_cases i <;> simp

theorem cLwspUimm_eq : cLwspUimm w = (lwspImm (w.setWidth 16)).setWidth 32 := by
  rw [cLwspUimm, bitSliceU_eq_field w (by decide) (by decide),
    bitSliceU_eq_field w (by decide) (by decide), bitSinglePNU_eq_field w _ (by decide), lwspImm]
  generalize w.setWidth 16 = h
  apply BitVec.eq_of_getLsbD_eq
  intro i hi
  simp only [BitVec.getLsbD_setWidth, BitVec.getLsbD_append]
  interval_cases i <;> simp

theorem cLdspUimm_eq : cLdspUimm w = (ldspImm (w.setWidth 16)).setWidth 32 := by
  rw [cLdspUimm, bitSliceU_eq_field w (by decide) (by decide),
    bitSliceU_eq_field w (by decide) (by decide), bitSinglePNU_eq_field w _ (by decide), ldspImm]
  generalize w.setWidth 16 = h
  apply BitVec.eq_of_getLsbD_eq
  intro i hi
  simp only [BitVec.getLsbD_setWidth, BitVec.getLsbD_append]
  interval_cases i <;> simp

theorem cSwspUimm_eq : cSwspUimm w = (swspImm (w.setWidth 16)).setWidth 32 := by
  rw [cSwspUimm, bitSliceU_eq_field w (by decide) (by decide),
    bitSliceU_eq_field w (by decide) (by decide), swspImm]
  generalize w.setWidth 16 = h
  apply BitVec.eq_of_getLsbD_eq
  intro i hi
  simp only [BitVec.getLsbD_setWidth, BitVec.getLsbD_append]
  interval_cases i <;> simp

theorem cSdspUimm_eq : cSdspUimm w = (sdspImm (w.setWidth 16)).setWidth 32 := by
  rw [cSdspUimm, bitSliceU_eq_field w (by decide) (by decide),
    bitSliceU_eq_field w (by decide) (by decide), sdspImm]
  generalize w.setWidth 16 = h
  apply BitVec.eq_of_getLsbD_eq
  intro i hi
  simp only [BitVec.getLsbD_setWidth, BitVec.getLsbD_append]
  interval_cases i <;> simp

theorem cAddi16spNzimm_eq :
    cAddi16spNzimm w = (addi16spImm (w.setWidth 16)).signExtend 32 := by
  rw [cAddi16spNzimm, extractSignBit_eq_field w _ (by decide), bitSinglePN_eq_field w _ (by decide),
    bitSinglePN_eq_field w _ (by decide), bitSlice_eq_field w (by decide) (by decide),
    bitSinglePN_eq_field w _ (by decide), addi16spImm]
  generalize w.setWidth 16 = h
  apply BitVec.eq_of_getLsbD_eq
  intro i hi
  simp only [BitVec.getLsbD_signExtend, BitVec.msb_eq_getLsbD_last, BitVec.getLsbD_append]
  interval_cases i <;> simp [BitVec.getElem_sshiftRight, BitVec.msb_eq_getLsbD_last]

theorem cLuiNzimm_eq :
    cLuiNzimm w = ((ciImm (w.setWidth 16)).signExtend 20 ++ 0#12) := by
  rw [cLuiNzimm, extractSignBit_eq_field w _ (by decide), bitSlice_eq_field w (by decide) (by decide),
    ciImm]
  generalize w.setWidth 16 = h
  apply BitVec.eq_of_getLsbD_eq
  intro i hi
  simp only [BitVec.getLsbD_append, BitVec.getLsbD_signExtend, BitVec.msb_eq_getLsbD_last]
  interval_cases i <;> simp [BitVec.getElem_sshiftRight, BitVec.msb_eq_getLsbD_last]

theorem cJalImm_eq : cJalImm w = (jumpImm (w.setWidth 16)).signExtend 32 := by
  rw [cJalImm, extractSignBit_eq_field w _ (by decide), bitSinglePN_eq_field w _ (by decide),
    bitSlice_eq_field w (by decide) (by decide), bitSinglePN_eq_field w _ (by decide),
    bitSinglePN_eq_field w _ (by decide), bitSinglePN_eq_field w _ (by decide),
    bitSlice_eq_field w (by decide) (by decide), bitSinglePN_eq_field w _ (by decide), jumpImm]
  generalize w.setWidth 16 = h
  apply BitVec.eq_of_getLsbD_eq
  intro i hi
  simp only [BitVec.getLsbD_signExtend, BitVec.msb_eq_getLsbD_last, BitVec.getLsbD_append]
  interval_cases i <;> simp [BitVec.getElem_sshiftRight, BitVec.msb_eq_getLsbD_last]

theorem cBranchImm_eq : cBranchImm w = (branchImm (w.setWidth 16)).signExtend 32 := by
  rw [cBranchImm, extractSignBit_eq_field w _ (by decide),
    bitSlice_eq_field w (by decide) (by decide), bitSlice_eq_field w (by decide) (by decide),
    bitSlice_eq_field w (by decide) (by decide), bitSinglePN_eq_field w _ (by decide), branchImm]
  generalize w.setWidth 16 = h
  apply BitVec.eq_of_getLsbD_eq
  intro i hi
  simp only [BitVec.getLsbD_signExtend, BitVec.msb_eq_getLsbD_last, BitVec.getLsbD_append]
  interval_cases i <;> simp [BitVec.getElem_sshiftRight, BitVec.msb_eq_getLsbD_last]

end Accessors

/-! ## Agreement with a row of the table -/

/-- The opcode and the operands, as the executor's accessors read them, are those of `b`. -/
def BaseInstr.EncodedBy (op' : Opcode) (w : Instruction) : BaseInstr → Prop
  | .r op rd rs1 rs2 =>
    op' = op ∧ w.rd = rd.setWidth 32 ∧ w.rs1 = rs1.setWidth 32 ∧ w.rs2 = rs2.setWidth 32
  | .i op rd rs1 imm =>
    op' = op ∧ w.rd = rd.setWidth 32 ∧ w.rs1 = rs1.setWidth 32 ∧ w.iImm = imm.signExtend 32
  | .shift op rd rs1 shamt =>
    op' = op ∧ w.rd = rd.setWidth 32 ∧ w.rs1 = rs1.setWidth 32 ∧ w.shamt = shamt.setWidth 32
  | .s op rs1 rs2 imm =>
    op' = op ∧ w.rs1 = rs1.setWidth 32 ∧ w.rs2 = rs2.setWidth 32 ∧ w.sImm = imm.signExtend 32
  | .b op rs1 rs2 imm =>
    op' = op ∧ w.rs1 = rs1.setWidth 32 ∧ w.rs2 = rs2.setWidth 32 ∧ w.bImm = imm.signExtend 32
  | .u op rd imm => op' = op ∧ w.rd = rd.setWidth 32 ∧ w.uImm = imm ++ 0#12
  | .j op rd imm => op' = op ∧ w.rd = rd.setWidth 32 ∧ w.jImm = imm.signExtend 32
  | .system op => op' = op

/-- The register an arithmetic instruction writes, and the value. Other instructions are not
described. -/
def registerWrite (op : Opcode) (w : Instruction) (regs : BitVec 32 → BitVec 32) :
    Option (BitVec 32 × BitVec 32) :=
  match op with
  | .LUI => some (w.rd, w.uImm)
  | .ADDI => some (w.rd, regs w.rs1 + w.iImm)
  | .ANDI => some (w.rd, regs w.rs1 &&& w.iImm)
  | .SLLI => some (w.rd, regs w.rs1 <<< w.shamt.toNat)
  | .SRLI => some (w.rd, regs w.rs1 >>> w.shamt.toNat)
  | .SRAI => some (w.rd, (regs w.rs1).sshiftRight w.shamt.toNat)
  | .ADD => some (w.rd, regs w.rs1 + regs w.rs2)
  | .SUB => some (w.rd, regs w.rs1 - regs w.rs2)
  | .XOR => some (w.rd, regs w.rs1 ^^^ regs w.rs2)
  | .OR => some (w.rd, regs w.rs1 ||| regs w.rs2)
  | .AND => some (w.rd, regs w.rs1 &&& regs w.rs2)
  | _ => none

/-- An arithmetic instruction that leaves every register but `x0` as it was. -/
def NoEffect (op : Opcode) (w : Instruction) : Prop :=
  ∀ regs, ∃ rd value, registerWrite op w regs = some (rd, value) ∧ (rd = 0#32 ∨ value = regs rd)

def Outcome.Realizes (op : Opcode) (w : Instruction) : Outcome → Prop
  | .undefined => op = .UNDEF
  | .noEffect => NoEffect op w
  | .base b => b.EncodedBy op w

/-- The expansion `r` does what row `o` asks for, and decodes again to its own opcode. -/
structure Outcome.Agrees (o : Outcome) (r : Opcode × Instruction) : Prop where
  realizes : o.Realizes r.1 r.2
  decodes : r.1 ≠ .UNDEF → decodeNormal .RV32 r.2 = r.1

theorem agrees_undefined (w : Instruction) : Outcome.undefined.Agrees (.UNDEF, w) :=
  ⟨rfl, fun h ↦ absurd rfl h⟩

/-! ### Factory words in the rows -/

theorem setWidth_and_mask5 (r : BitVec 5) : r.setWidth 32 &&& 0x1f#32 = r.setWidth 32 := by
  apply BitVec.eq_of_getLsbD_eq
  intro i hi
  interval_cases i <;> simp

theorem setWidth_and_mask6 (r : BitVec 5) : r.setWidth 32 &&& 0x3f#32 = r.setWidth 32 := by
  apply BitVec.eq_of_getLsbD_eq
  intro i hi
  interval_cases i <;> simp

section Rows

variable {op : Opcode} {opc f3 f7 : BitVec 32}

theorem decodeNormal_rType (rd rs1 rs2 : BitVec 32)
    (ht : table .RV32 op = some ⟨0xfe00707f#32, opc ||| (f3 <<< 12) ||| (f7 <<< 25)⟩)
    (ho : opc &&& 0x7f#32 = opc) (h3 : f3 &&& 7#32 = f3) :
    decodeNormal .RV32 (rType opc f3 f7 rd rs1 rs2) = op :=
  decodeNormal_of_matches ht (rType_and_mask rd rs1 rs2 ho h3)

theorem decodeNormal_iType (rd rs1 imm : BitVec 32)
    (ht : table .RV32 op = some ⟨0x707f#32, opc ||| (f3 <<< 12)⟩)
    (ho : opc &&& 0x7f#32 = opc) (h3 : f3 &&& 7#32 = f3) :
    decodeNormal .RV32 (iType opc f3 rd rs1 imm) = op :=
  decodeNormal_of_matches ht (iType_and_mask rd rs1 imm ho h3)

theorem decodeNormal_shiftType (rd rs1 : BitVec 32) (shamt : BitVec 5)
    (ht : table .RV32 op = some ⟨0xfe00707f#32, 0x13#32 ||| (f3 <<< 12) ||| (f7 <<< 25)⟩)
    (h3 : f3 &&& 7#32 = f3) :
    decodeNormal .RV32 (shiftType f3 f7 rd rs1 (shamt.setWidth 32)) = op := by
  apply decodeNormal_of_matches ht
  rw [← setWidth_and_mask5]
  exact shiftType_and_mask rd rs1 (shamt.setWidth 32) h3

theorem agrees_rType (rd rs1 rs2 : BitVec 5)
    (ht : table .RV32 op = some ⟨0xfe00707f#32, opc ||| (f3 <<< 12) ||| (f7 <<< 25)⟩)
    (ho : opc &&& 0x7f#32 = opc) (h3 : f3 &&& 7#32 = f3) :
    (Outcome.base (.r op rd rs1 rs2)).Agrees
      (op, rType opc f3 f7 (rd.setWidth 32) (rs1.setWidth 32) (rs2.setWidth 32)) where
  realizes := by
    refine ⟨rfl, ?_, ?_, ?_⟩
    · rw [rd_rType _ _ _ ho h3, setWidth_and_mask5]
    · rw [rs1_rType _ _ _ ho h3, setWidth_and_mask5]
    · rw [rs2_rType _ _ _ ho h3, setWidth_and_mask5]
  decodes _ := decodeNormal_rType _ _ _ ht ho h3

theorem agrees_iType (rd rs1 : BitVec 5) {imm : BitVec 32} {imm' : BitVec 12}
    (himm : imm.setWidth 12 = imm')
    (ht : table .RV32 op = some ⟨0x707f#32, opc ||| (f3 <<< 12)⟩)
    (ho : opc &&& 0x7f#32 = opc) (h3 : f3 &&& 7#32 = f3) :
    (Outcome.base (.i op rd rs1 imm')).Agrees
      (op, iType opc f3 (rd.setWidth 32) (rs1.setWidth 32) imm) where
  realizes := by
    refine ⟨rfl, ?_, ?_, ?_⟩
    · rw [rd_iType _ _ _ ho h3, setWidth_and_mask5]
    · rw [rs1_iType _ _ _ ho h3, setWidth_and_mask5]
    · rw [iImm_iType _ _ _ ho h3, himm]
  decodes _ := decodeNormal_iType _ _ _ ht ho h3

theorem agrees_sType (rs1 rs2 : BitVec 5) {imm : BitVec 32} {imm' : BitVec 12}
    (himm : imm.setWidth 12 = imm')
    (ht : table .RV32 op = some ⟨0x707f#32, opc ||| (f3 <<< 12)⟩)
    (ho : opc &&& 0x7f#32 = opc) (h3 : f3 &&& 7#32 = f3) :
    (Outcome.base (.s op rs1 rs2 imm')).Agrees
      (op, sType opc f3 (rs1.setWidth 32) (rs2.setWidth 32) imm) where
  realizes := by
    refine ⟨rfl, ?_, ?_, ?_⟩
    · rw [rs1_sType _ _ _ ho h3, setWidth_and_mask5]
    · rw [rs2_sType _ _ _ ho h3, setWidth_and_mask5]
    · rw [sImm_sType _ _ _ ho h3, himm]
  decodes _ := decodeNormal_of_matches ht (sType_and_mask _ _ _ ho h3)

theorem agrees_shiftType (rd rs1 shamt : BitVec 5)
    (ht : table .RV32 op = some ⟨0xfe00707f#32, 0x13#32 ||| (f3 <<< 12) ||| (f7 <<< 25)⟩)
    (h3 : f3 &&& 7#32 = f3) (h7 : f7 &&& 0x7e#32 = f7) :
    (Outcome.base (.shift op rd rs1 shamt)).Agrees
      (op, shiftType f3 f7 (rd.setWidth 32) (rs1.setWidth 32) (shamt.setWidth 32)) where
  realizes := by
    refine ⟨rfl, ?_, ?_, ?_⟩
    · rw [rd_shiftType _ _ _ h3, setWidth_and_mask5]
    · rw [rs1_shiftType _ _ _ h3, setWidth_and_mask5]
    · rw [shamt_shiftType _ _ _ h3 h7, setWidth_and_mask6]
  decodes _ := decodeNormal_shiftType _ _ _ ht h3

theorem agrees_bType (rs1 rs2 : BitVec 5) {imm : BitVec 32} {imm' : BitVec 13}
    (himm : imm.setWidth 13 = imm')
    (ht : table .RV32 op = some ⟨0x707f#32, 0x63#32 ||| (f3 <<< 12)⟩)
    (h3 : f3 &&& 7#32 = f3) (heven : imm.getLsbD 0 = false) :
    (Outcome.base (.b op rs1 rs2 imm')).Agrees
      (op, bType f3 (rs1.setWidth 32) (rs2.setWidth 32) imm) where
  realizes := by
    refine ⟨rfl, ?_, ?_, ?_⟩
    · rw [rs1_bType _ _ _ h3, setWidth_and_mask5]
    · rw [rs2_bType _ _ _ h3, setWidth_and_mask5]
    · rw [bImm_bType _ _ _ h3 heven, himm]
  decodes _ := decodeNormal_of_matches ht (bType_and_mask _ _ _ h3)

theorem decodeNormal_JAL (rd imm : BitVec 32) : decodeNormal .RV32 (JAL rd imm) = .JAL := by
  have ht : table .RV32 .JAL = some ⟨0x7f#32, 0x6f#32⟩ := rfl
  exact decodeNormal_of_matches ht (JAL_and_mask rd imm)

theorem agrees_JAL (rd : BitVec 5) {imm : BitVec 32} {imm' : BitVec 21} (himm : imm.setWidth 21 = imm')
    (heven : imm.getLsbD 0 = false) :
    (Outcome.base (.j .JAL rd imm')).Agrees (.JAL, JAL (rd.setWidth 32) imm) where
  realizes := by
    refine ⟨rfl, ?_, ?_⟩
    · rw [rd_JAL, setWidth_and_mask5]
    · rw [jImm_JAL _ _ heven, himm]
  decodes _ := decodeNormal_JAL _ _

theorem decodeNormal_LUI (rd imm : BitVec 32) : decodeNormal .RV32 (LUI rd imm) = .LUI := by
  have ht : table .RV32 .LUI = some ⟨0x7f#32, 0x37#32⟩ := rfl
  exact decodeNormal_of_matches ht (LUI_and_mask rd imm)

theorem agrees_LUI (rd : BitVec 5) (imm : BitVec 20) :
    (Outcome.base (.u .LUI rd imm)).Agrees (.LUI, LUI (rd.setWidth 32) (imm ++ 0#12)) where
  realizes := by
    refine ⟨rfl, ?_, ?_⟩
    · rw [rd_LUI, setWidth_and_mask5]
    · rw [uImm_LUI]
      apply BitVec.eq_of_getLsbD_eq
      intro i hi
      rw [BitVec.getLsbD_and, BitVec.getLsbD_append]
      interval_cases i <;> simp
  decodes _ := decodeNormal_LUI _ _

variable {w : Instruction}

theorem noEffect_of_rd_eq_zero (hw : ∀ regs, ∃ value, registerWrite op w regs = some (w.rd, value))
    (hrd : w.rd = 0#32) : NoEffect op w := by
  intro regs
  obtain ⟨value, hvalue⟩ := hw regs
  exact ⟨w.rd, value, hvalue, .inl hrd⟩

theorem agrees_ADD_x0 (rs1 rs2 : BitVec 32) :
    Outcome.noEffect.Agrees (.ADD, ADD 0#32 rs1 rs2) where
  realizes := by
    apply noEffect_of_rd_eq_zero
    · exact fun regs ↦ ⟨_, rfl⟩
    · exact (rd_rType _ _ _ rfl rfl).trans rfl
  decodes _ := decodeNormal_rType _ _ _ rfl rfl rfl

theorem agrees_ADDI_x0 (rs1 imm : BitVec 32) :
    Outcome.noEffect.Agrees (.ADDI, ADDI 0#32 rs1 imm) where
  realizes := by
    apply noEffect_of_rd_eq_zero
    · exact fun regs ↦ ⟨_, rfl⟩
    · exact (rd_iType _ _ _ rfl rfl).trans rfl
  decodes _ := decodeNormal_iType _ _ _ rfl rfl rfl

theorem agrees_LUI_x0 (imm : BitVec 32) : Outcome.noEffect.Agrees (.LUI, LUI 0#32 imm) where
  realizes := by
    apply noEffect_of_rd_eq_zero
    · exact fun regs ↦ ⟨_, rfl⟩
    · exact (rd_LUI _ _).trans rfl
  decodes _ := decodeNormal_LUI _ _

theorem agrees_SLLI_x0 (rs1 : BitVec 32) (shamt : BitVec 5) :
    Outcome.noEffect.Agrees (.SLLI, SLLI 0#32 rs1 (shamt.setWidth 32)) where
  realizes := by
    apply noEffect_of_rd_eq_zero
    · exact fun regs ↦ ⟨_, rfl⟩
    · exact (rd_shiftType _ _ _ rfl).trans rfl
  decodes _ := decodeNormal_shiftType _ _ _ rfl rfl

theorem agrees_ADDI_self (r : BitVec 32) : Outcome.noEffect.Agrees (.ADDI, ADDI r r 0#32) where
  realizes := by
    intro regs
    refine ⟨_, _, rfl, .inr ?_⟩
    simp only [ADDI]
    rw [rd_iType _ _ _ rfl rfl, rs1_iType _ _ _ rfl rfl, iImm_iType _ _ _ rfl rfl]
    exact BitVec.add_zero _
  decodes _ := decodeNormal_iType _ _ _ rfl rfl rfl

/-- A shift by zero of a register into itself. -/
theorem agrees_shiftType_zero (r : BitVec 32)
    (ht : table .RV32 op = some ⟨0xfe00707f#32, 0x13#32 ||| (f3 <<< 12) ||| (f7 <<< 25)⟩)
    (h3 : f3 &&& 7#32 = f3) (h7 : f7 &&& 0x7e#32 = f7)
    (hop : op = .SLLI ∨ op = .SRLI ∨ op = .SRAI) :
    Outcome.noEffect.Agrees (op, shiftType f3 f7 r r 0#32) where
  realizes := by
    intro regs
    have hself : (shiftType f3 f7 r r 0#32).rs1 = (shiftType f3 f7 r r 0#32).rd := by
      rw [rd_shiftType _ _ _ h3, rs1_shiftType _ _ _ h3]
    have hshamt : (shiftType f3 f7 r r 0#32).shamt.toNat = 0 := by
      rw [shamt_shiftType _ _ _ h3 h7]
      rfl
    rcases hop with rfl | rfl | rfl
    all_goals
      refine ⟨_, _, rfl, .inr ?_⟩
      simp only [hself, hshamt, BitVec.shiftLeft_zero, BitVec.ushiftRight_zero,
        BitVec.sshiftRight_zero]
  decodes _ := decodeNormal_shiftType r r 0#5 ht h3

end Rows

end CoverageVP.Instr.Rvc
