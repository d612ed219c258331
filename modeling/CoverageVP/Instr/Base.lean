import CoverageVP.Instr.Jumps
import CoverageVP.Lib.Rv32i

/-!
# The decoder on RV32I

The instructions of RV32I as operations of the simulator. A word of RV32I is decoded to the operation
of its instruction, and the accessors deliver the operands of the instruction. The patterns of these
operations know the major opcode, the minor one, and some of them the seven bits of the function.
-/

namespace CoverageVP.Instr

open Lib

/-! ## Operations -/

def branchOpcode : Rv32i.BranchOp → Opcode
  | .beq => .BEQ
  | .bne => .BNE
  | .blt => .BLT
  | .bge => .BGE
  | .bltu => .BLTU
  | .bgeu => .BGEU

def loadOpcode : Rv32i.LoadOp → Opcode
  | .lb => .LB
  | .lh => .LH
  | .lw => .LW
  | .lbu => .LBU
  | .lhu => .LHU

def storeOpcode : Rv32i.StoreOp → Opcode
  | .sb => .SB
  | .sh => .SH
  | .sw => .SW

def immOpcode : Rv32i.ImmOp → Opcode
  | .add => .ADDI
  | .slt => .SLTI
  | .sltu => .SLTIU
  | .xor => .XORI
  | .or => .ORI
  | .and => .ANDI
  | .sll => .SLLI
  | .srl => .SRLI
  | .sra => .SRAI

def aluOpcode : Rv32i.AluOp → Opcode
  | .imm .add => .ADD
  | .imm .slt => .SLT
  | .imm .sltu => .SLTU
  | .imm .xor => .XOR
  | .imm .or => .OR
  | .imm .and => .AND
  | .imm .sll => .SLL
  | .imm .srl => .SRL
  | .imm .sra => .SRA
  | .sub => .SUB

section Masks

variable (w : BitVec 32)

theorem and_major : w &&& 0x7f#32 = (Rv32i.opcode w).setWidth 32 := by
  apply BitVec.eq_of_getLsbD_eq
  intro i hi
  simp only [Rv32i.opcode, BitVec.getLsbD_and, BitVec.getLsbD_setWidth, BitVec.getLsbD_extractLsb']
  interval_cases i <;> simp

theorem and_minor :
    w &&& 0x707f#32 = (Rv32i.funct3 w).setWidth 32 <<< 12 ||| (Rv32i.opcode w).setWidth 32 := by
  apply BitVec.eq_of_getLsbD_eq
  intro i hi
  simp only [Rv32i.opcode, Rv32i.funct3, BitVec.getLsbD_and, BitVec.getLsbD_or,
    BitVec.getLsbD_shiftLeft, BitVec.getLsbD_setWidth, BitVec.getLsbD_extractLsb']
  interval_cases i <;> simp

theorem and_function :
    w &&& 0xfe00707f#32 = (Rv32i.funct7 w).setWidth 32 <<< 25 |||
      (Rv32i.funct3 w).setWidth 32 <<< 12 ||| (Rv32i.opcode w).setWidth 32 := by
  apply BitVec.eq_of_getLsbD_eq
  intro i hi
  simp only [Rv32i.opcode, Rv32i.funct3, Rv32i.funct7, BitVec.getLsbD_and, BitVec.getLsbD_or,
    BitVec.getLsbD_shiftLeft, BitVec.getLsbD_setWidth, BitVec.getLsbD_extractLsb']
  interval_cases i <;> simp

end Masks

section Decoder

variable {w : Instruction} {op : Opcode} {major : BitVec 7} {minor : BitVec 3}

theorem decodeNormal_of_major (hmajor : Rv32i.opcode w = major)
    (htable : table .RV32 op = some ⟨0x7f#32, major.setWidth 32⟩) : decodeNormal .RV32 w = op := by
  apply decodeNormal_of_matches htable
  rw [Pattern.Matches, and_major, hmajor]

theorem decodeNormal_of_minor (hmajor : Rv32i.opcode w = major) (hminor : Rv32i.funct3 w = minor)
    (htable : table .RV32 op =
      some ⟨0x707f#32, minor.setWidth 32 <<< 12 ||| major.setWidth 32⟩) :
    decodeNormal .RV32 w = op := by
  apply decodeNormal_of_matches htable
  rw [Pattern.Matches, and_minor, hmajor, hminor]

theorem decodeNormal_of_function {function : BitVec 7} (hmajor : Rv32i.opcode w = major)
    (hminor : Rv32i.funct3 w = minor) (hfunction : Rv32i.funct7 w = function)
    (htable : table .RV32 op = some ⟨0xfe00707f#32, function.setWidth 32 <<< 25 |||
      minor.setWidth 32 <<< 12 ||| major.setWidth 32⟩) : decodeNormal .RV32 w = op := by
  apply decodeNormal_of_matches htable
  rw [Pattern.Matches, and_function, hmajor, hminor, hfunction]

end Decoder

/-! ## Operands -/

namespace Instruction

variable (w : Instruction)

theorem rd_eq : w.rd.setWidth 5 = Rv32i.rd w := by
  apply BitVec.eq_of_getLsbD_eq
  intro i hi
  simp only [rd, bitSlice, Rv32i.rd, BitVec.getLsbD_setWidth, BitVec.getLsbD_extractLsb',
    BitVec.getLsbD_sshiftRight, BitVec.msb_eq_getLsbD_last,
    getLsbD_bitRange w (show 7 ≤ 11 by decide)]
  interval_cases i <;> simp

theorem rs1_eq : w.rs1.setWidth 5 = Rv32i.rs1 w := by
  apply BitVec.eq_of_getLsbD_eq
  intro i hi
  simp only [rs1, bitSlice, Rv32i.rs1, BitVec.getLsbD_setWidth, BitVec.getLsbD_extractLsb',
    BitVec.getLsbD_sshiftRight, BitVec.msb_eq_getLsbD_last,
    getLsbD_bitRange w (show 15 ≤ 19 by decide)]
  interval_cases i <;> simp

theorem rs2_eq : w.rs2.setWidth 5 = Rv32i.rs2 w := by
  apply BitVec.eq_of_getLsbD_eq
  intro i hi
  simp only [rs2, bitSlice, Rv32i.rs2, BitVec.getLsbD_setWidth, BitVec.getLsbD_extractLsb',
    BitVec.getLsbD_sshiftRight, BitVec.msb_eq_getLsbD_last,
    getLsbD_bitRange w (show 20 ≤ 24 by decide)]
  interval_cases i <;> simp

theorem iImm_eq : w.iImm = Rv32i.immI w := by
  apply BitVec.eq_of_getLsbD_eq
  intro i hi
  simp only [iImm, bitSlice, Rv32i.immI, BitVec.getLsbD_signExtend, BitVec.getLsbD_extractLsb',
    BitVec.getLsbD_sshiftRight, BitVec.msb_eq_getLsbD_last,
    getLsbD_bitRange w (show 20 ≤ 31 by decide)]
  interval_cases i <;> simp

theorem sImm_eq : w.sImm = Rv32i.immS w := by
  apply BitVec.eq_of_getLsbD_eq
  intro i hi
  simp only [sImm, Rv32i.immS, BitVec.getLsbD_signExtend, BitVec.msb_eq_getLsbD_last,
    BitVec.getLsbD_append, BitVec.getLsbD_or, BitVec.getLsbD_sshiftRight,
    getLsbD_bitRange w (show 25 ≤ 31 by decide), getLsbD_bitRange w (show 7 ≤ 11 by decide)]
  interval_cases i <;> simp

theorem uImm_eq : w.uImm = Rv32i.immU w := by
  apply BitVec.eq_of_getLsbD_eq
  intro i hi
  rw [uImm, getLsbD_bitRange w (show 12 ≤ 31 by decide), Rv32i.immU]
  simp only [BitVec.getLsbD_append, BitVec.getLsbD_extractLsb']
  interval_cases i <;> simp

/-- The accessor has six bits, the highest of which is zero in the shifts of this architecture. -/
theorem shamt_eq (h : w.getLsbD 25 = false) : w.shamt = Rv32i.shamt w := by
  apply BitVec.eq_of_getLsbD_eq
  intro i hi
  simp only [shamt, bitSlice, Rv32i.shamt, Rv32i.rs2, BitVec.getLsbD_setWidth,
    BitVec.getLsbD_extractLsb', BitVec.getLsbD_sshiftRight, BitVec.msb_eq_getLsbD_last,
    getLsbD_bitRange w (show 20 ≤ 25 by decide)]
  rw [BitVec.getLsbD_eq_getElem (by decide)] at h
  interval_cases i <;> simp [h]

end Instruction

/-! ## Encoded instructions -/

/-- The instructions whose operands a word holds, with their operations. -/
inductive Encodes (w : Instruction) : Rv32i.Instr → Opcode → Prop
  | lui : Encodes w (.lui (Rv32i.rd w) (Rv32i.immU w)) .LUI
  | auipc : Encodes w (.auipc (Rv32i.rd w) (Rv32i.immU w)) .AUIPC
  | jal : Encodes w (.jal (Rv32i.rd w) (Rv32i.immJ w)) .JAL
  | jalr : Encodes w (.jalr (Rv32i.rd w) (Rv32i.rs1 w) (Rv32i.immI w)) .JALR
  | branch (op : Rv32i.BranchOp) :
      Encodes w (.branch op (Rv32i.rs1 w) (Rv32i.rs2 w) (Rv32i.immB w)) (branchOpcode op)
  | load (op : Rv32i.LoadOp) :
      Encodes w (.load op (Rv32i.rd w) (Rv32i.rs1 w) (Rv32i.immI w)) (loadOpcode op)
  | store (op : Rv32i.StoreOp) :
      Encodes w (.store op (Rv32i.rs1 w) (Rv32i.rs2 w) (Rv32i.immS w)) (storeOpcode op)
  | opImm (op : Rv32i.ImmOp) : op.isShift = false →
      Encodes w (.opImm op (Rv32i.rd w) (Rv32i.rs1 w) (Rv32i.immI w)) (immOpcode op)
  | shiftImm (op : Rv32i.ImmOp) : op.isShift = true → w.getLsbD 25 = false →
      Encodes w (.opImm op (Rv32i.rd w) (Rv32i.rs1 w) (Rv32i.shamt w)) (immOpcode op)
  | op (op : Rv32i.AluOp) :
      Encodes w (.op op (Rv32i.rd w) (Rv32i.rs1 w) (Rv32i.rs2 w)) (aluOpcode op)
  | fence : Encodes w .fence .FENCE
  | fenceI : Encodes w .fenceI .FENCE_I

section Encoded

variable {w : Instruction}

theorem decodeNormal_branch (hmajor : Rv32i.opcode w = 0b1100011#7) {op : Rv32i.BranchOp}
    (h : Rv32i.branchOp w = some op) : decodeNormal .RV32 w = branchOpcode op := by
  unfold Rv32i.branchOp at h
  repeat' split at h
  all_goals cases h
  all_goals exact decodeNormal_of_minor hmajor ‹_› rfl

theorem decodeNormal_load (hmajor : Rv32i.opcode w = 0b0000011#7) {op : Rv32i.LoadOp}
    (h : Rv32i.loadOp w = some op) : decodeNormal .RV32 w = loadOpcode op := by
  unfold Rv32i.loadOp at h
  repeat' split at h
  all_goals cases h
  all_goals exact decodeNormal_of_minor hmajor ‹_› rfl

theorem decodeNormal_store (hmajor : Rv32i.opcode w = 0b0100011#7) {op : Rv32i.StoreOp}
    (h : Rv32i.storeOp w = some op) : decodeNormal .RV32 w = storeOpcode op := by
  unfold Rv32i.storeOp at h
  repeat' split at h
  all_goals cases h
  all_goals exact decodeNormal_of_minor hmajor ‹_› rfl

theorem decodeNormal_opImm (hmajor : Rv32i.opcode w = 0b0010011#7) {op : Rv32i.ImmOp}
    (h : Rv32i.immOp w = some op) : decodeNormal .RV32 w = immOpcode op ∧ op.isShift = false := by
  unfold Rv32i.immOp at h
  repeat' split at h
  all_goals cases h
  all_goals exact ⟨decodeNormal_of_minor hmajor ‹_› rfl, rfl⟩

theorem decodeNormal_shiftImm (hmajor : Rv32i.opcode w = 0b0010011#7) {op : Rv32i.ImmOp}
    (h : Rv32i.shiftOp w = some op) :
    decodeNormal .RV32 w = immOpcode op ∧ op.isShift = true ∧ w.getLsbD 25 = false := by
  have hbit : w.getLsbD 25 = (Rv32i.funct7 w).getLsbD 0 := by simp [Rv32i.funct7]
  rw [hbit]
  unfold Rv32i.shiftOp at h
  repeat' split at h
  all_goals cases h
  all_goals
    obtain ⟨hminor, hfunction⟩ := ‹_ ∧ _›
    rw [hfunction]
    exact ⟨decodeNormal_of_function hmajor hminor hfunction rfl, rfl, rfl⟩

theorem decodeNormal_op (hmajor : Rv32i.opcode w = 0b0110011#7) {op : Rv32i.AluOp}
    (h : Rv32i.aluOp w = some op) : decodeNormal .RV32 w = aluOpcode op := by
  unfold Rv32i.aluOp at h
  split at h
  case isTrue hfunction =>
    obtain ⟨op', hop', rfl⟩ := Option.map_eq_some_iff.mp h
    rcases Option.or_eq_some_iff.mp hop' with himm | ⟨-, hshift⟩
    · unfold Rv32i.immOp at himm
      repeat' split at himm
      all_goals cases himm
      all_goals exact decodeNormal_of_function hmajor ‹Rv32i.funct3 w = _› hfunction rfl
    · unfold Rv32i.shiftOp at hshift
      repeat' split at hshift
      all_goals cases hshift
      all_goals
        obtain ⟨hminor, hfunction⟩ := ‹_ ∧ _›
        exact decodeNormal_of_function hmajor hminor hfunction rfl
  case isFalse hzero =>
    split at h
    case isTrue hfunction =>
      split at h
      case isTrue hminor =>
        cases h
        exact decodeNormal_of_function hmajor hminor hfunction rfl
      case isFalse =>
        obtain ⟨op', hshift, rfl⟩ := Option.map_eq_some_iff.mp h
        unfold Rv32i.shiftOp at hshift
        repeat' split at hshift
        all_goals cases hshift
        all_goals
          obtain ⟨hminor, hfunction⟩ := ‹_ ∧ _›
          exact decodeNormal_of_function hmajor hminor hfunction rfl
    case isFalse => cases h

/-- A word of RV32I is decoded to the operation of its instruction. -/
theorem encodes_of_decode {i : Rv32i.Instr} (h : Rv32i.decode w = some i) :
    Encodes w i (decodeNormal .RV32 w) := by
  unfold Rv32i.decode at h
  by_cases hlui : Rv32i.opcode w = 0b0110111#7
  · rw [if_pos hlui] at h
    cases h
    have hdecode : decodeNormal .RV32 w = .LUI := decodeNormal_of_major hlui rfl
    rw [hdecode]
    exact .lui
  rw [if_neg hlui] at h
  by_cases hauipc : Rv32i.opcode w = 0b0010111#7
  · rw [if_pos hauipc] at h
    cases h
    have hdecode : decodeNormal .RV32 w = .AUIPC := decodeNormal_of_major hauipc rfl
    rw [hdecode]
    exact .auipc
  rw [if_neg hauipc] at h
  by_cases hjal : Rv32i.opcode w = 0b1101111#7
  · rw [if_pos hjal] at h
    cases h
    have hdecode : decodeNormal .RV32 w = .JAL := decodeNormal_of_major hjal rfl
    rw [hdecode]
    exact .jal
  rw [if_neg hjal] at h
  by_cases hjalr : Rv32i.opcode w = 0b1100111#7
  · rw [if_pos hjalr] at h
    split at h
    case isTrue hminor =>
      cases h
      have hdecode : decodeNormal .RV32 w = .JALR := decodeNormal_of_minor hjalr hminor rfl
      rw [hdecode]
      exact .jalr
    case isFalse => cases h
  rw [if_neg hjalr] at h
  by_cases hbranch : Rv32i.opcode w = 0b1100011#7
  · rw [if_pos hbranch] at h
    obtain ⟨op, hop, rfl⟩ := Option.map_eq_some_iff.mp h
    rw [decodeNormal_branch hbranch hop]
    exact .branch op
  rw [if_neg hbranch] at h
  by_cases hload : Rv32i.opcode w = 0b0000011#7
  · rw [if_pos hload] at h
    obtain ⟨op, hop, rfl⟩ := Option.map_eq_some_iff.mp h
    rw [decodeNormal_load hload hop]
    exact .load op
  rw [if_neg hload] at h
  by_cases hstore : Rv32i.opcode w = 0b0100011#7
  · rw [if_pos hstore] at h
    obtain ⟨op, hop, rfl⟩ := Option.map_eq_some_iff.mp h
    rw [decodeNormal_store hstore hop]
    exact .store op
  rw [if_neg hstore] at h
  by_cases hopImm : Rv32i.opcode w = 0b0010011#7
  · rw [if_pos hopImm] at h
    rcases Option.or_eq_some_iff.mp h with h | ⟨-, h⟩
    · obtain ⟨op, hop, rfl⟩ := Option.map_eq_some_iff.mp h
      obtain ⟨hdecode, himm⟩ := decodeNormal_opImm hopImm hop
      rw [hdecode]
      exact .opImm op himm
    · obtain ⟨op, hop, rfl⟩ := Option.map_eq_some_iff.mp h
      obtain ⟨hdecode, hshift, hbit⟩ := decodeNormal_shiftImm hopImm hop
      rw [hdecode]
      exact .shiftImm op hshift hbit
  rw [if_neg hopImm] at h
  by_cases hop : Rv32i.opcode w = 0b0110011#7
  · rw [if_pos hop] at h
    obtain ⟨op, halu, rfl⟩ := Option.map_eq_some_iff.mp h
    rw [decodeNormal_op hop halu]
    exact .op op
  rw [if_neg hop] at h
  by_cases hfence : Rv32i.opcode w = 0b0001111#7
  · rw [if_pos hfence] at h
    split at h
    case isTrue hminor =>
      cases h
      have hdecode : decodeNormal .RV32 w = .FENCE := decodeNormal_of_minor hfence hminor rfl
      rw [hdecode]
      exact .fence
    split at h
    case isTrue hminor =>
      cases h
      have hdecode : decodeNormal .RV32 w = .FENCE_I := decodeNormal_of_minor hfence hminor rfl
      rw [hdecode]
      exact .fenceI
    case isFalse => cases h
  · rw [if_neg hfence] at h
    cases h

/-- The major opcodes of RV32I are those of uncompressed instructions. -/
theorem isCompressed_of_decode {i : Rv32i.Instr} (h : Rv32i.decode w = some i) :
    w.isCompressed = false := by
  have hlow : w.quadrant.toNat = (Rv32i.opcode w).toNat % 4 := by
    rw [Instruction.quadrant, BitVec.toNat_and, Rv32i.opcode, BitVec.extractLsb'_toNat,
      Nat.shiftRight_zero, Nat.mod_mod_of_dvd _ (by decide)]
    exact Nat.and_two_pow_sub_one_eq_mod w.toNat 2
  by_contra hcompressed
  rw [Bool.not_eq_false, Instruction.isCompressed, decide_eq_true_iff, hlow] at hcompressed
  have hne : ∀ major : BitVec 7, major.toNat % 4 = 3 → Rv32i.opcode w ≠ major := by
    rintro _ hmajor rfl
    omega
  rw [Rv32i.decode, if_neg (hne 0b0110111#7 rfl), if_neg (hne 0b0010111#7 rfl),
    if_neg (hne 0b1101111#7 rfl), if_neg (hne 0b1100111#7 rfl), if_neg (hne 0b1100011#7 rfl),
    if_neg (hne 0b0000011#7 rfl), if_neg (hne 0b0100011#7 rfl), if_neg (hne 0b0010011#7 rfl),
    if_neg (hne 0b0110011#7 rfl), if_neg (hne 0b0001111#7 rfl)] at h
  cases h

end Encoded

end CoverageVP.Instr
