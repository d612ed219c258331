import CoverageVP.Instr.Instruction

/-!
# The decoder of uncompressed instructions

`decodeNormal` selects on the major opcode and then on the function fields, and compares the word
with the pattern of the one opcode it arrives at. The table is a second description of the same
encodings; `decodeNormal_eq_iff` says that the selection never misses a pattern and never arrives
at a wrong one.
-/

namespace CoverageVP.Instr

open Lib

/-! ## Field values -/

@[match_pattern] abbrev OP_LUI : Nat := 0b0110111
@[match_pattern] abbrev OP_AUIPC : Nat := 0b0010111
@[match_pattern] abbrev OP_JAL : Nat := 0b1101111
@[match_pattern] abbrev OP_JALR : Nat := 0b1100111
@[match_pattern] abbrev OP_LB : Nat := 0b0000011
@[match_pattern] abbrev F3_LB : Nat := 0b000
@[match_pattern] abbrev F3_LH : Nat := 0b001
@[match_pattern] abbrev F3_LW : Nat := 0b010
@[match_pattern] abbrev F3_LBU : Nat := 0b100
@[match_pattern] abbrev F3_LHU : Nat := 0b101
@[match_pattern] abbrev F3_LWU : Nat := 0b110
@[match_pattern] abbrev F3_LD : Nat := 0b011
@[match_pattern] abbrev OP_SB : Nat := 0b0100011
@[match_pattern] abbrev F3_SB : Nat := 0b000
@[match_pattern] abbrev F3_SH : Nat := 0b001
@[match_pattern] abbrev F3_SW : Nat := 0b010
@[match_pattern] abbrev F3_SD : Nat := 0b011
@[match_pattern] abbrev OP_BEQ : Nat := 0b1100011
@[match_pattern] abbrev F3_BEQ : Nat := 0b000
@[match_pattern] abbrev F3_BNE : Nat := 0b001
@[match_pattern] abbrev F3_BLT : Nat := 0b100
@[match_pattern] abbrev F3_BGE : Nat := 0b101
@[match_pattern] abbrev F3_BLTU : Nat := 0b110
@[match_pattern] abbrev F3_BGEU : Nat := 0b111
@[match_pattern] abbrev OP_ADDI : Nat := 0b0010011
@[match_pattern] abbrev F3_ADDI : Nat := 0b000
@[match_pattern] abbrev F3_SLTI : Nat := 0b010
@[match_pattern] abbrev F3_SLTIU : Nat := 0b011
@[match_pattern] abbrev F3_XORI : Nat := 0b100
@[match_pattern] abbrev F3_ORI : Nat := 0b110
@[match_pattern] abbrev F3_ANDI : Nat := 0b111
@[match_pattern] abbrev F3_SLLI : Nat := 0b001
@[match_pattern] abbrev F3_SRLI : Nat := 0b101
@[match_pattern] abbrev F6_SRLI : Nat := 0b000000
@[match_pattern] abbrev F6_SRAI : Nat := 0b010000
@[match_pattern] abbrev OP_ADD : Nat := 0b0110011
@[match_pattern] abbrev F3_ADD : Nat := 0b000
@[match_pattern] abbrev F7_ADD : Nat := 0b0000000
@[match_pattern] abbrev F3_SUB : Nat := 0b000
@[match_pattern] abbrev F7_SUB : Nat := 0b0100000
@[match_pattern] abbrev F3_SLL : Nat := 0b001
@[match_pattern] abbrev F3_SLT : Nat := 0b010
@[match_pattern] abbrev F3_SLTU : Nat := 0b011
@[match_pattern] abbrev F3_XOR : Nat := 0b100
@[match_pattern] abbrev F3_SRL : Nat := 0b101
@[match_pattern] abbrev F3_SRA : Nat := 0b101
@[match_pattern] abbrev F3_OR : Nat := 0b110
@[match_pattern] abbrev F3_AND : Nat := 0b111
@[match_pattern] abbrev F3_MUL : Nat := 0b000
@[match_pattern] abbrev F7_MUL : Nat := 0b0000001
@[match_pattern] abbrev F3_MULH : Nat := 0b001
@[match_pattern] abbrev F3_MULHSU : Nat := 0b010
@[match_pattern] abbrev F3_MULHU : Nat := 0b011
@[match_pattern] abbrev F3_DIV : Nat := 0b100
@[match_pattern] abbrev F3_DIVU : Nat := 0b101
@[match_pattern] abbrev F3_REM : Nat := 0b110
@[match_pattern] abbrev F3_REMU : Nat := 0b111
@[match_pattern] abbrev OP_FENCE : Nat := 0b0001111
@[match_pattern] abbrev F3_FENCE : Nat := 0b000
@[match_pattern] abbrev F3_FENCE_I : Nat := 0b001
@[match_pattern] abbrev OP_ECALL : Nat := 0b1110011
@[match_pattern] abbrev F3_SYS : Nat := 0b000
@[match_pattern] abbrev F12_ECALL : Nat := 0b000000000000
@[match_pattern] abbrev F12_EBREAK : Nat := 0b000000000001
@[match_pattern] abbrev F12_URET : Nat := 0b000000000010
@[match_pattern] abbrev F12_SRET : Nat := 0b000100000010
@[match_pattern] abbrev F12_MRET : Nat := 0b001100000010
@[match_pattern] abbrev F12_WFI : Nat := 0b000100000101
@[match_pattern] abbrev F3_CSRRW : Nat := 0b001
@[match_pattern] abbrev F3_CSRRS : Nat := 0b010
@[match_pattern] abbrev F3_CSRRC : Nat := 0b011
@[match_pattern] abbrev F3_CSRRWI : Nat := 0b101
@[match_pattern] abbrev F3_CSRRSI : Nat := 0b110
@[match_pattern] abbrev F3_CSRRCI : Nat := 0b111
@[match_pattern] abbrev OP_AMO : Nat := 0b0101111
@[match_pattern] abbrev F5_LR_W : Nat := 0b00010
@[match_pattern] abbrev F5_SC_W : Nat := 0b00011
@[match_pattern] abbrev F5_AMOSWAP_W : Nat := 0b00001
@[match_pattern] abbrev F5_AMOADD_W : Nat := 0b00000
@[match_pattern] abbrev F5_AMOXOR_W : Nat := 0b00100
@[match_pattern] abbrev F5_AMOAND_W : Nat := 0b01100
@[match_pattern] abbrev F5_AMOOR_W : Nat := 0b01000
@[match_pattern] abbrev F5_AMOMIN_W : Nat := 0b10000
@[match_pattern] abbrev F5_AMOMAX_W : Nat := 0b10100
@[match_pattern] abbrev F5_AMOMINU_W : Nat := 0b11000
@[match_pattern] abbrev F5_AMOMAXU_W : Nat := 0b11100
@[match_pattern] abbrev F3_AMO_D : Nat := 0b011
@[match_pattern] abbrev OP_ADDIW : Nat := 0b0011011
@[match_pattern] abbrev F3_ADDIW : Nat := 0b000
@[match_pattern] abbrev F3_SLLIW : Nat := 0b001
@[match_pattern] abbrev F3_SRLIW : Nat := 0b101
@[match_pattern] abbrev F7_SRLIW : Nat := 0b0000000
@[match_pattern] abbrev F7_SRAIW : Nat := 0b0100000
@[match_pattern] abbrev OP_ADDW : Nat := 0b0111011
@[match_pattern] abbrev F3_ADDW : Nat := 0b000
@[match_pattern] abbrev F7_ADDW : Nat := 0b0000000
@[match_pattern] abbrev F3_SUBW : Nat := 0b000
@[match_pattern] abbrev F7_SUBW : Nat := 0b0100000
@[match_pattern] abbrev F3_SLLW : Nat := 0b001
@[match_pattern] abbrev F3_SRLW : Nat := 0b101
@[match_pattern] abbrev F3_SRAW : Nat := 0b101
@[match_pattern] abbrev F7_MULW : Nat := 0b0000001
@[match_pattern] abbrev F3_MULW : Nat := 0b000
@[match_pattern] abbrev F3_DIVW : Nat := 0b100
@[match_pattern] abbrev F3_DIVUW : Nat := 0b101
@[match_pattern] abbrev F3_REMW : Nat := 0b110
@[match_pattern] abbrev F3_REMUW : Nat := 0b111
@[match_pattern] abbrev OP_FMADD_S : Nat := 0b1000011
@[match_pattern] abbrev F2_FMADD_S : Nat := 0b00
@[match_pattern] abbrev F2_FMADD_D : Nat := 0b01
@[match_pattern] abbrev OP_FADD_S : Nat := 0b1010011
@[match_pattern] abbrev F7_FADD_S : Nat := 0b0000000
@[match_pattern] abbrev F7_FADD_D : Nat := 0b0000001
@[match_pattern] abbrev F7_FSUB_S : Nat := 0b0000100
@[match_pattern] abbrev F7_FSUB_D : Nat := 0b0000101
@[match_pattern] abbrev F7_FCVT_D_S : Nat := 0b0100001
@[match_pattern] abbrev F7_FMUL_S : Nat := 0b0001000
@[match_pattern] abbrev F7_FMUL_D : Nat := 0b0001001
@[match_pattern] abbrev F7_FDIV_S : Nat := 0b0001100
@[match_pattern] abbrev F7_FDIV_D : Nat := 0b0001101
@[match_pattern] abbrev F7_FLE_S : Nat := 0b1010000
@[match_pattern] abbrev F3_FLE_S : Nat := 0b000
@[match_pattern] abbrev F3_FLT_S : Nat := 0b001
@[match_pattern] abbrev F3_FEQ_S : Nat := 0b010
@[match_pattern] abbrev F7_FSGNJ_D : Nat := 0b0010001
@[match_pattern] abbrev F3_FSGNJ_D : Nat := 0b000
@[match_pattern] abbrev F3_FSGNJN_D : Nat := 0b001
@[match_pattern] abbrev F3_FSGNJX_D : Nat := 0b010
@[match_pattern] abbrev F7_FMIN_S : Nat := 0b0010100
@[match_pattern] abbrev F3_FMIN_S : Nat := 0b000
@[match_pattern] abbrev F3_FMAX_S : Nat := 0b001
@[match_pattern] abbrev F7_FMIN_D : Nat := 0b0010101
@[match_pattern] abbrev F3_FMIN_D : Nat := 0b000
@[match_pattern] abbrev F3_FMAX_D : Nat := 0b001
@[match_pattern] abbrev F7_FCVT_S_D : Nat := 0b0100000
@[match_pattern] abbrev F7_FSGNJ_S : Nat := 0b0010000
@[match_pattern] abbrev F3_FSGNJ_S : Nat := 0b000
@[match_pattern] abbrev F3_FSGNJN_S : Nat := 0b001
@[match_pattern] abbrev F3_FSGNJX_S : Nat := 0b010
@[match_pattern] abbrev F7_FLE_D : Nat := 0b1010001
@[match_pattern] abbrev F3_FLE_D : Nat := 0b000
@[match_pattern] abbrev F3_FLT_D : Nat := 0b001
@[match_pattern] abbrev F3_FEQ_D : Nat := 0b010
@[match_pattern] abbrev F7_FCVT_S_W : Nat := 0b1101000
@[match_pattern] abbrev RS2_FCVT_S_W : Nat := 0b00000
@[match_pattern] abbrev RS2_FCVT_S_WU : Nat := 0b00001
@[match_pattern] abbrev RS2_FCVT_S_L : Nat := 0b00010
@[match_pattern] abbrev RS2_FCVT_S_LU : Nat := 0b00011
@[match_pattern] abbrev F7_FCVT_D_W : Nat := 0b1101001
@[match_pattern] abbrev RS2_FCVT_D_W : Nat := 0b00000
@[match_pattern] abbrev RS2_FCVT_D_WU : Nat := 0b00001
@[match_pattern] abbrev RS2_FCVT_D_L : Nat := 0b00010
@[match_pattern] abbrev RS2_FCVT_D_LU : Nat := 0b00011
@[match_pattern] abbrev F7_FCVT_W_D : Nat := 0b1100001
@[match_pattern] abbrev RS2_FCVT_W_D : Nat := 0b00000
@[match_pattern] abbrev RS2_FCVT_WU_D : Nat := 0b00001
@[match_pattern] abbrev RS2_FCVT_L_D : Nat := 0b00010
@[match_pattern] abbrev RS2_FCVT_LU_D : Nat := 0b00011
@[match_pattern] abbrev F7_FSQRT_S : Nat := 0b0101100
@[match_pattern] abbrev F7_FSQRT_D : Nat := 0b0101101
@[match_pattern] abbrev F7_FCVT_W_S : Nat := 0b1100000
@[match_pattern] abbrev RS2_FCVT_W_S : Nat := 0b00000
@[match_pattern] abbrev RS2_FCVT_WU_S : Nat := 0b00001
@[match_pattern] abbrev RS2_FCVT_L_S : Nat := 0b00010
@[match_pattern] abbrev RS2_FCVT_LU_S : Nat := 0b00011
@[match_pattern] abbrev F7_FMV_X_W : Nat := 0b1110000
@[match_pattern] abbrev F3_FMV_X_W : Nat := 0b000
@[match_pattern] abbrev F3_FCLASS_S : Nat := 0b001
@[match_pattern] abbrev F7_FMV_X_D : Nat := 0b1110001
@[match_pattern] abbrev F3_FMV_X_D : Nat := 0b000
@[match_pattern] abbrev F3_FCLASS_D : Nat := 0b001
@[match_pattern] abbrev F7_FMV_W_X : Nat := 0b1111000
@[match_pattern] abbrev F7_FMV_D_X : Nat := 0b1111001
@[match_pattern] abbrev OP_FLW : Nat := 0b0000111
@[match_pattern] abbrev F3_FLW : Nat := 0b010
@[match_pattern] abbrev F3_FLD : Nat := 0b011
@[match_pattern] abbrev OP_FSW : Nat := 0b0100111
@[match_pattern] abbrev F3_FSW : Nat := 0b010
@[match_pattern] abbrev F3_FSD : Nat := 0b011
@[match_pattern] abbrev OP_FMSUB_S : Nat := 0b1000111
@[match_pattern] abbrev F2_FMSUB_S : Nat := 0b00
@[match_pattern] abbrev F2_FMSUB_D : Nat := 0b01
@[match_pattern] abbrev OP_FNMSUB_S : Nat := 0b1001011
@[match_pattern] abbrev F2_FNMSUB_S : Nat := 0b00
@[match_pattern] abbrev F2_FNMSUB_D : Nat := 0b01
@[match_pattern] abbrev OP_FNMADD_S : Nat := 0b1001111
@[match_pattern] abbrev F2_FNMADD_S : Nat := 0b00
@[match_pattern] abbrev F2_FNMADD_D : Nat := 0b01

/-! ## The selection tree -/

def matchAndReturnInstr2 (w : Instruction) (p : Pattern) (result : Opcode) : Opcode :=
  if w &&& p.mask ≠ p.encoding then .UNDEF else result

def matchAndReturnInstr (w : Instruction) (op : Opcode) : Opcode :=
  match pattern op with
  | some p => matchAndReturnInstr2 w p op
  | none => .UNDEF

def decodeBranch (w : Instruction) : Opcode :=
  match w.funct3.toNat with
  | F3_BEQ => matchAndReturnInstr w .BEQ
  | F3_BNE => matchAndReturnInstr w .BNE
  | F3_BLT => matchAndReturnInstr w .BLT
  | F3_BGE => matchAndReturnInstr w .BGE
  | F3_BLTU => matchAndReturnInstr w .BLTU
  | F3_BGEU => matchAndReturnInstr w .BGEU
  | _ => .UNDEF

def decodeLoad (w : Instruction) : Opcode :=
  match w.funct3.toNat with
  | F3_LB => matchAndReturnInstr w .LB
  | F3_LH => matchAndReturnInstr w .LH
  | F3_LW => matchAndReturnInstr w .LW
  | F3_LBU => matchAndReturnInstr w .LBU
  | F3_LHU => matchAndReturnInstr w .LHU
  | F3_LWU => matchAndReturnInstr w .LWU
  | F3_LD => matchAndReturnInstr w .LD
  | _ => .UNDEF

def decodeStore (w : Instruction) : Opcode :=
  match w.funct3.toNat with
  | F3_SB => matchAndReturnInstr w .SB
  | F3_SH => matchAndReturnInstr w .SH
  | F3_SW => matchAndReturnInstr w .SW
  | F3_SD => matchAndReturnInstr w .SD
  | _ => .UNDEF

def decodeOpImm (arch : Architecture) (w : Instruction) : Opcode :=
  match w.funct3.toNat with
  | F3_ADDI => matchAndReturnInstr w .ADDI
  | F3_SLTI => matchAndReturnInstr w .SLTI
  | F3_SLTIU => matchAndReturnInstr w .SLTIU
  | F3_XORI => matchAndReturnInstr w .XORI
  | F3_ORI => matchAndReturnInstr w .ORI
  | F3_ANDI => matchAndReturnInstr w .ANDI
  | F3_SLLI =>
      if arch = .RV32 then matchAndReturnInstr2 w slli32 .SLLI
      else matchAndReturnInstr w .SLLI
  | F3_SRLI =>
    match w.funct6.toNat with
    | F6_SRLI =>
        if arch = .RV32 then matchAndReturnInstr2 w srli32 .SRLI
        else matchAndReturnInstr w .SRLI
    | F6_SRAI =>
        if arch = .RV32 then matchAndReturnInstr2 w srai32 .SRAI
        else matchAndReturnInstr w .SRAI
    | _ => .UNDEF
  | _ => .UNDEF

def decodeOpImm32 (w : Instruction) : Opcode :=
  match w.funct3.toNat with
  | F3_ADDIW => matchAndReturnInstr w .ADDIW
  | F3_SLLIW => matchAndReturnInstr w .SLLIW
  | F3_SRLIW =>
    match w.funct7.toNat with
    | F7_SRLIW => matchAndReturnInstr w .SRLIW
    | F7_SRAIW => matchAndReturnInstr w .SRAIW
    | _ => .UNDEF
  | _ => .UNDEF

def decodeOp (w : Instruction) : Opcode :=
  match w.funct7.toNat with
  | F7_ADD =>
    match w.funct3.toNat with
    | F3_ADD => matchAndReturnInstr w .ADD
    | F3_SLL => matchAndReturnInstr w .SLL
    | F3_SLT => matchAndReturnInstr w .SLT
    | F3_SLTU => matchAndReturnInstr w .SLTU
    | F3_XOR => matchAndReturnInstr w .XOR
    | F3_SRL => matchAndReturnInstr w .SRL
    | F3_OR => matchAndReturnInstr w .OR
    | F3_AND => matchAndReturnInstr w .AND
    | _ => .UNDEF
  | F7_SUB =>
    match w.funct3.toNat with
    | F3_SUB => matchAndReturnInstr w .SUB
    | F3_SRA => matchAndReturnInstr w .SRA
    | _ => .UNDEF
  | F7_MUL =>
    match w.funct3.toNat with
    | F3_MUL => matchAndReturnInstr w .MUL
    | F3_MULH => matchAndReturnInstr w .MULH
    | F3_MULHSU => matchAndReturnInstr w .MULHSU
    | F3_MULHU => matchAndReturnInstr w .MULHU
    | F3_DIV => matchAndReturnInstr w .DIV
    | F3_DIVU => matchAndReturnInstr w .DIVU
    | F3_REM => matchAndReturnInstr w .REM
    | F3_REMU => matchAndReturnInstr w .REMU
    | _ => .UNDEF
  | _ => .UNDEF

def decodeOp32 (w : Instruction) : Opcode :=
  match w.funct7.toNat with
  | F7_ADDW =>
    match w.funct3.toNat with
    | F3_ADDW => matchAndReturnInstr w .ADDW
    | F3_SLLW => matchAndReturnInstr w .SLLW
    | F3_SRLW => matchAndReturnInstr w .SRLW
    | _ => .UNDEF
  | F7_SUBW =>
    match w.funct3.toNat with
    | F3_SUBW => matchAndReturnInstr w .SUBW
    | F3_SRAW => matchAndReturnInstr w .SRAW
    | _ => .UNDEF
  | F7_MULW =>
    match w.funct3.toNat with
    | F3_MULW => matchAndReturnInstr w .MULW
    | F3_DIVW => matchAndReturnInstr w .DIVW
    | F3_DIVUW => matchAndReturnInstr w .DIVUW
    | F3_REMW => matchAndReturnInstr w .REMW
    | F3_REMUW => matchAndReturnInstr w .REMUW
    | _ => .UNDEF
  | _ => .UNDEF

def decodeMiscMem (w : Instruction) : Opcode :=
  match w.funct3.toNat with
  | F3_FENCE => matchAndReturnInstr w .FENCE
  | F3_FENCE_I => matchAndReturnInstr w .FENCE_I
  | _ => .UNDEF

def decodeSystem (w : Instruction) : Opcode :=
  match w.funct3.toNat with
  | F3_SYS =>
    match w.funct12.toNat with
    | F12_ECALL => matchAndReturnInstr w .ECALL
    | F12_EBREAK => matchAndReturnInstr w .EBREAK
    | F12_URET => matchAndReturnInstr w .URET
    | F12_SRET => matchAndReturnInstr w .SRET
    | F12_MRET => matchAndReturnInstr w .MRET
    | F12_WFI => matchAndReturnInstr w .WFI
    | _ => matchAndReturnInstr w .SFENCE_VMA
  | F3_CSRRW => matchAndReturnInstr w .CSRRW
  | F3_CSRRS => matchAndReturnInstr w .CSRRS
  | F3_CSRRC => matchAndReturnInstr w .CSRRC
  | F3_CSRRWI => matchAndReturnInstr w .CSRRWI
  | F3_CSRRSI => matchAndReturnInstr w .CSRRSI
  | F3_CSRRCI => matchAndReturnInstr w .CSRRCI
  | _ => .UNDEF

def decodeAmo (w : Instruction) : Opcode :=
  match w.funct5.toNat with
  | F5_LR_W =>
      if w.funct3.toNat = F3_AMO_D then matchAndReturnInstr w .LR_D
      else matchAndReturnInstr w .LR_W
  | F5_SC_W =>
      if w.funct3.toNat = F3_AMO_D then matchAndReturnInstr w .SC_D
      else matchAndReturnInstr w .SC_W
  | F5_AMOSWAP_W =>
      if w.funct3.toNat = F3_AMO_D then matchAndReturnInstr w .AMOSWAP_D
      else matchAndReturnInstr w .AMOSWAP_W
  | F5_AMOADD_W =>
      if w.funct3.toNat = F3_AMO_D then matchAndReturnInstr w .AMOADD_D
      else matchAndReturnInstr w .AMOADD_W
  | F5_AMOXOR_W =>
      if w.funct3.toNat = F3_AMO_D then matchAndReturnInstr w .AMOXOR_D
      else matchAndReturnInstr w .AMOXOR_W
  | F5_AMOAND_W =>
      if w.funct3.toNat = F3_AMO_D then matchAndReturnInstr w .AMOAND_D
      else matchAndReturnInstr w .AMOAND_W
  | F5_AMOOR_W =>
      if w.funct3.toNat = F3_AMO_D then matchAndReturnInstr w .AMOOR_D
      else matchAndReturnInstr w .AMOOR_W
  | F5_AMOMIN_W =>
      if w.funct3.toNat = F3_AMO_D then matchAndReturnInstr w .AMOMIN_D
      else matchAndReturnInstr w .AMOMIN_W
  | F5_AMOMAX_W =>
      if w.funct3.toNat = F3_AMO_D then matchAndReturnInstr w .AMOMAX_D
      else matchAndReturnInstr w .AMOMAX_W
  | F5_AMOMINU_W =>
      if w.funct3.toNat = F3_AMO_D then matchAndReturnInstr w .AMOMINU_D
      else matchAndReturnInstr w .AMOMINU_W
  | F5_AMOMAXU_W =>
      if w.funct3.toNat = F3_AMO_D then matchAndReturnInstr w .AMOMAXU_D
      else matchAndReturnInstr w .AMOMAXU_W
  | _ => .UNDEF

def decodeFmadd (w : Instruction) : Opcode :=
  match w.funct2.toNat with
  | F2_FMADD_S => matchAndReturnInstr w .FMADD_S
  | F2_FMADD_D => matchAndReturnInstr w .FMADD_D
  | _ => .UNDEF

def decodeOpFp (w : Instruction) : Opcode :=
  match w.funct7.toNat with
  | F7_FADD_S => matchAndReturnInstr w .FADD_S
  | F7_FADD_D => matchAndReturnInstr w .FADD_D
  | F7_FSUB_S => matchAndReturnInstr w .FSUB_S
  | F7_FSUB_D => matchAndReturnInstr w .FSUB_D
  | F7_FCVT_D_S => matchAndReturnInstr w .FCVT_D_S
  | F7_FMUL_S => matchAndReturnInstr w .FMUL_S
  | F7_FMUL_D => matchAndReturnInstr w .FMUL_D
  | F7_FDIV_S => matchAndReturnInstr w .FDIV_S
  | F7_FDIV_D => matchAndReturnInstr w .FDIV_D
  | F7_FLE_S =>
    match w.funct3.toNat with
    | F3_FLE_S => matchAndReturnInstr w .FLE_S
    | F3_FLT_S => matchAndReturnInstr w .FLT_S
    | F3_FEQ_S => matchAndReturnInstr w .FEQ_S
    | _ => .UNDEF
  | F7_FSGNJ_D =>
    match w.funct3.toNat with
    | F3_FSGNJ_D => matchAndReturnInstr w .FSGNJ_D
    | F3_FSGNJN_D => matchAndReturnInstr w .FSGNJN_D
    | F3_FSGNJX_D => matchAndReturnInstr w .FSGNJX_D
    | _ => .UNDEF
  | F7_FMIN_S =>
    match w.funct3.toNat with
    | F3_FMIN_S => matchAndReturnInstr w .FMIN_S
    | F3_FMAX_S => matchAndReturnInstr w .FMAX_S
    | _ => .UNDEF
  | F7_FMIN_D =>
    match w.funct3.toNat with
    | F3_FMIN_D => matchAndReturnInstr w .FMIN_D
    | F3_FMAX_D => matchAndReturnInstr w .FMAX_D
    | _ => .UNDEF
  | F7_FCVT_S_D => matchAndReturnInstr w .FCVT_S_D
  | F7_FSGNJ_S =>
    match w.funct3.toNat with
    | F3_FSGNJ_S => matchAndReturnInstr w .FSGNJ_S
    | F3_FSGNJN_S => matchAndReturnInstr w .FSGNJN_S
    | F3_FSGNJX_S => matchAndReturnInstr w .FSGNJX_S
    | _ => .UNDEF
  | F7_FLE_D =>
    match w.funct3.toNat with
    | F3_FLE_D => matchAndReturnInstr w .FLE_D
    | F3_FLT_D => matchAndReturnInstr w .FLT_D
    | F3_FEQ_D => matchAndReturnInstr w .FEQ_D
    | _ => .UNDEF
  | F7_FCVT_S_W =>
    match w.rs2.toNat with
    | RS2_FCVT_S_W => matchAndReturnInstr w .FCVT_S_W
    | RS2_FCVT_S_WU => matchAndReturnInstr w .FCVT_S_WU
    | RS2_FCVT_S_L => matchAndReturnInstr w .FCVT_S_L
    | RS2_FCVT_S_LU => matchAndReturnInstr w .FCVT_S_LU
    | _ => .UNDEF
  | F7_FCVT_D_W =>
    match w.rs2.toNat with
    | RS2_FCVT_D_W => matchAndReturnInstr w .FCVT_D_W
    | RS2_FCVT_D_WU => matchAndReturnInstr w .FCVT_D_WU
    | RS2_FCVT_D_L => matchAndReturnInstr w .FCVT_D_L
    | RS2_FCVT_D_LU => matchAndReturnInstr w .FCVT_D_LU
    | _ => .UNDEF
  | F7_FCVT_W_D =>
    match w.rs2.toNat with
    | RS2_FCVT_W_D => matchAndReturnInstr w .FCVT_W_D
    | RS2_FCVT_WU_D => matchAndReturnInstr w .FCVT_WU_D
    | RS2_FCVT_L_D => matchAndReturnInstr w .FCVT_L_D
    | RS2_FCVT_LU_D => matchAndReturnInstr w .FCVT_LU_D
    | _ => .UNDEF
  | F7_FSQRT_S => matchAndReturnInstr w .FSQRT_S
  | F7_FSQRT_D => matchAndReturnInstr w .FSQRT_D
  | F7_FCVT_W_S =>
    match w.rs2.toNat with
    | RS2_FCVT_W_S => matchAndReturnInstr w .FCVT_W_S
    | RS2_FCVT_WU_S => matchAndReturnInstr w .FCVT_WU_S
    | RS2_FCVT_L_S => matchAndReturnInstr w .FCVT_L_S
    | RS2_FCVT_LU_S => matchAndReturnInstr w .FCVT_LU_S
    | _ => .UNDEF
  | F7_FMV_X_W =>
    match w.funct3.toNat with
    | F3_FMV_X_W => matchAndReturnInstr w .FMV_X_W
    | F3_FCLASS_S => matchAndReturnInstr w .FCLASS_S
    | _ => .UNDEF
  | F7_FMV_X_D =>
    match w.funct3.toNat with
    | F3_FMV_X_D => matchAndReturnInstr w .FMV_X_D
    | F3_FCLASS_D => matchAndReturnInstr w .FCLASS_D
    | _ => .UNDEF
  | F7_FMV_W_X => matchAndReturnInstr w .FMV_W_X
  | F7_FMV_D_X => matchAndReturnInstr w .FMV_D_X
  | _ => .UNDEF

def decodeLoadFp (w : Instruction) : Opcode :=
  match w.funct3.toNat with
  | F3_FLW => matchAndReturnInstr w .FLW
  | F3_FLD => matchAndReturnInstr w .FLD
  | _ => .UNDEF

def decodeStoreFp (w : Instruction) : Opcode :=
  match w.funct3.toNat with
  | F3_FSW => matchAndReturnInstr w .FSW
  | F3_FSD => matchAndReturnInstr w .FSD
  | _ => .UNDEF

def decodeFmsub (w : Instruction) : Opcode :=
  match w.funct2.toNat with
  | F2_FMSUB_S => matchAndReturnInstr w .FMSUB_S
  | F2_FMSUB_D => matchAndReturnInstr w .FMSUB_D
  | _ => .UNDEF

def decodeFnmsub (w : Instruction) : Opcode :=
  match w.funct2.toNat with
  | F2_FNMSUB_S => matchAndReturnInstr w .FNMSUB_S
  | F2_FNMSUB_D => matchAndReturnInstr w .FNMSUB_D
  | _ => .UNDEF

def decodeFnmadd (w : Instruction) : Opcode :=
  match w.funct2.toNat with
  | F2_FNMADD_S => matchAndReturnInstr w .FNMADD_S
  | F2_FNMADD_D => matchAndReturnInstr w .FNMADD_D
  | _ => .UNDEF

def decodeNormal (arch : Architecture) (w : Instruction) : Opcode :=
  match w.opcode.toNat with
  | OP_LUI => matchAndReturnInstr w .LUI
  | OP_AUIPC => matchAndReturnInstr w .AUIPC
  | OP_JAL => matchAndReturnInstr w .JAL
  | OP_JALR => matchAndReturnInstr w .JALR
  | OP_BEQ => decodeBranch w
  | OP_LB => decodeLoad w
  | OP_SB => decodeStore w
  | OP_ADDI => decodeOpImm arch w
  | OP_ADDIW => decodeOpImm32 w
  | OP_ADD => decodeOp w
  | OP_ADDW => decodeOp32 w
  | OP_FENCE => decodeMiscMem w
  | OP_ECALL => decodeSystem w
  | OP_AMO => decodeAmo w
  | OP_FMADD_S => decodeFmadd w
  | OP_FADD_S => decodeOpFp w
  | OP_FLW => decodeLoadFp w
  | OP_FSW => decodeStoreFp w
  | OP_FMSUB_S => decodeFmsub w
  | OP_FNMSUB_S => decodeFnmsub w
  | OP_FNMADD_S => decodeFnmadd w
  | _ => .UNDEF

/-! ## Agreement with the table -/

section Agreement

open Instruction

variable {arch : Architecture} {w : Instruction} {op : Opcode} {p : Pattern}

/-- The result of a selection is `UNDEF` or an opcode whose pattern matches the word. -/
def Selects (arch : Architecture) (w : Instruction) (result : Opcode) : Prop :=
  result = .UNDEF ∨ ∃ p, table arch result = some p ∧ p.Matches w

theorem matchAndReturnInstr2_selects (h : table arch op = some p) :
    Selects arch w (matchAndReturnInstr2 w p op) := by
  unfold matchAndReturnInstr2
  split
  · exact .inl rfl
  · rename_i hmatch
    exact .inr ⟨p, h, not_not.mp hmatch⟩

theorem matchAndReturnInstr_selects (h : table arch op = pattern op) :
    Selects arch w (matchAndReturnInstr w op) := by
  unfold matchAndReturnInstr
  split
  · rename_i p hp
    exact matchAndReturnInstr2_selects (h.trans hp)
  · exact .inl rfl

theorem matchAndReturnInstr2_of_matches (h : p.Matches w) : matchAndReturnInstr2 w p op = op := by
  unfold matchAndReturnInstr2
  exact if_neg (not_not.mpr h)

theorem matchAndReturnInstr_of_matches (hp : pattern op = some p) (h : p.Matches w) :
    matchAndReturnInstr w op = op := by
  unfold matchAndReturnInstr
  rw [hp]
  exact matchAndReturnInstr2_of_matches h

theorem decodeOpImm_selects : Selects arch w (decodeOpImm arch w) := by
  unfold decodeOpImm
  repeat' split
  all_goals first
    | exact .inl rfl
    | exact matchAndReturnInstr_selects rfl
    | (subst_vars; exact matchAndReturnInstr2_selects rfl)
    | (cases arch <;> first | contradiction | exact matchAndReturnInstr_selects rfl)

theorem decodeOpFp_selects : Selects arch w (decodeOpFp w) := by
  unfold decodeOpFp
  repeat' split
  all_goals first
    | exact .inl rfl
    | exact matchAndReturnInstr_selects rfl

/-- Every leaf of the tree checks the pattern of the opcode it returns. -/
theorem decodeNormal_selects (arch : Architecture) (w : Instruction) :
    Selects arch w (decodeNormal arch w) := by
  unfold decodeNormal
  split
  case h_8 => exact decodeOpImm_selects
  case h_16 => exact decodeOpFp_selects
  all_goals first
    | exact .inl rfl
    | exact matchAndReturnInstr_selects rfl
    | skip
  all_goals
    first
      | unfold decodeBranch
      | unfold decodeLoad
      | unfold decodeStore
      | unfold decodeOpImm32
      | unfold decodeOp
      | unfold decodeOp32
      | unfold decodeMiscMem
      | unfold decodeSystem
      | unfold decodeAmo
      | unfold decodeFmadd
      | unfold decodeLoadFp
      | unfold decodeStoreFp
      | unfold decodeFmsub
      | unfold decodeFnmsub
      | unfold decodeFnmadd
    repeat' split
    all_goals first
      | exact .inl rfl
      | exact matchAndReturnInstr_selects rfl

theorem funct7_eq_funct12_shift (w : Instruction) : w.funct7 = w.funct12 >>> 5 := by
  apply BitVec.eq_of_getLsbD_eq
  intro i _
  simp only [funct7, funct12, BitVec.getLsbD_ushiftRight]
  rw [getLsbD_bitRange w (by omega), getLsbD_bitRange w (by omega),
    show 20 + (5 + i) = 25 + i by omega]
  simp only [Nat.le_add_right, decide_true, show 20 ≤ 25 + i by omega]

/-- `SFENCE.VMA` sits in the default branch: its operand bits belong to the selector field, and no
other system instruction shares its upper seven bits. -/
theorem decodeSystem_of_matches_sfence (h3 : w.funct3.toNat = F3_SYS)
    (hm : ∀ p, pattern .SFENCE_VMA = some p → p.Matches w) : decodeSystem w = .SFENCE_VMA := by
  have hmatch := hm _ rfl
  have h7 : w.funct7 = 9#32 := (funct7_of_masked hmatch rfl).trans rfl
  rw [funct7_eq_funct12_shift] at h7
  have h12 : w.funct12.toNat / 32 = 9 := by
    simpa [Nat.shiftRight_eq_div_pow] using congrArg BitVec.toNat h7
  simp only [decodeSystem, h3]
  split
  case h_7 => exact matchAndReturnInstr_of_matches rfl hmatch
  all_goals
    rename_i hselect
    rw [hselect] at h12
    exact absurd h12 (by decide)

/-- A word that matches the pattern of an opcode is steered to that opcode's leaf. -/
theorem decodeNormal_of_matches (ht : table arch op = some p) (hm : p.Matches w) :
    decodeNormal arch w = op := by
  cases op
  case UNDEF => cases arch <;> cases ht
  case LUI | AUIPC | JAL | JALR =>
    obtain rfl := Option.some.inj ht
    rw [decodeNormal, opcode_of_masked hm rfl]
    exact matchAndReturnInstr_of_matches rfl hm
  case BEQ | BNE | BLT | BGE | BLTU | BGEU =>
    obtain rfl := Option.some.inj ht
    rw [decodeNormal, opcode_of_masked hm rfl]
    change decodeBranch w = _
    rw [decodeBranch, funct3_of_masked hm rfl]
    exact matchAndReturnInstr_of_matches rfl hm
  case LB | LH | LW | LBU | LHU | LWU | LD =>
    obtain rfl := Option.some.inj ht
    rw [decodeNormal, opcode_of_masked hm rfl]
    change decodeLoad w = _
    rw [decodeLoad, funct3_of_masked hm rfl]
    exact matchAndReturnInstr_of_matches rfl hm
  case SB | SH | SW | SD =>
    obtain rfl := Option.some.inj ht
    rw [decodeNormal, opcode_of_masked hm rfl]
    change decodeStore w = _
    rw [decodeStore, funct3_of_masked hm rfl]
    exact matchAndReturnInstr_of_matches rfl hm
  case ADDI | SLTI | SLTIU | XORI | ORI | ANDI =>
    obtain rfl := Option.some.inj ht
    rw [decodeNormal, opcode_of_masked hm rfl]
    change decodeOpImm arch w = _
    rw [decodeOpImm, funct3_of_masked hm rfl]
    exact matchAndReturnInstr_of_matches rfl hm
  case SLLI =>
    cases arch
    all_goals
      obtain rfl := Option.some.inj ht
      rw [decodeNormal, opcode_of_masked hm rfl]
      change decodeOpImm _ w = _
      rw [decodeOpImm, funct3_of_masked hm rfl]
      exact matchAndReturnInstr2_of_matches hm
  case SRLI | SRAI =>
    cases arch
    all_goals
      obtain rfl := Option.some.inj ht
      rw [decodeNormal, opcode_of_masked hm rfl]
      change decodeOpImm _ w = _
      rw [decodeOpImm, funct3_of_masked hm rfl, funct6_of_masked hm rfl]
      exact matchAndReturnInstr2_of_matches hm
  case ADDIW | SLLIW =>
    obtain rfl := Option.some.inj ht
    rw [decodeNormal, opcode_of_masked hm rfl]
    change decodeOpImm32 w = _
    rw [decodeOpImm32, funct3_of_masked hm rfl]
    exact matchAndReturnInstr_of_matches rfl hm
  case SRLIW | SRAIW =>
    obtain rfl := Option.some.inj ht
    rw [decodeNormal, opcode_of_masked hm rfl]
    change decodeOpImm32 w = _
    rw [decodeOpImm32, funct3_of_masked hm rfl, funct7_of_masked hm rfl]
    exact matchAndReturnInstr_of_matches rfl hm
  case ADD | SLL | SLT | SLTU | XOR | SRL | OR | AND | SUB | SRA | MUL | MULH | MULHSU | MULHU
      | DIV | DIVU | REM | REMU =>
    obtain rfl := Option.some.inj ht
    rw [decodeNormal, opcode_of_masked hm rfl]
    change decodeOp w = _
    rw [decodeOp, funct7_of_masked hm rfl, funct3_of_masked hm rfl]
    exact matchAndReturnInstr_of_matches rfl hm
  case ADDW | SLLW | SRLW | SUBW | SRAW | MULW | DIVW | DIVUW | REMW | REMUW =>
    obtain rfl := Option.some.inj ht
    rw [decodeNormal, opcode_of_masked hm rfl]
    change decodeOp32 w = _
    rw [decodeOp32, funct7_of_masked hm rfl, funct3_of_masked hm rfl]
    exact matchAndReturnInstr_of_matches rfl hm
  case FENCE | FENCE_I =>
    obtain rfl := Option.some.inj ht
    rw [decodeNormal, opcode_of_masked hm rfl]
    change decodeMiscMem w = _
    rw [decodeMiscMem, funct3_of_masked hm rfl]
    exact matchAndReturnInstr_of_matches rfl hm
  case ECALL | EBREAK | URET | SRET | MRET | WFI =>
    obtain rfl := Option.some.inj ht
    rw [decodeNormal, opcode_of_masked hm rfl]
    change decodeSystem w = _
    rw [decodeSystem, funct3_of_masked hm rfl, funct12_of_masked hm rfl]
    exact matchAndReturnInstr_of_matches rfl hm
  case SFENCE_VMA =>
    obtain rfl := Option.some.inj ht
    rw [decodeNormal, opcode_of_masked hm rfl]
    change decodeSystem w = _
    apply decodeSystem_of_matches_sfence
    · rw [funct3_of_masked hm rfl]
      rfl
    · intro p hp
      obtain rfl := Option.some.inj hp
      exact hm
  case CSRRW | CSRRS | CSRRC | CSRRWI | CSRRSI | CSRRCI =>
    obtain rfl := Option.some.inj ht
    rw [decodeNormal, opcode_of_masked hm rfl]
    change decodeSystem w = _
    rw [decodeSystem, funct3_of_masked hm rfl]
    exact matchAndReturnInstr_of_matches rfl hm
  case LR_D | LR_W | SC_D | SC_W | AMOSWAP_D | AMOSWAP_W | AMOADD_D | AMOADD_W | AMOXOR_D
      | AMOXOR_W | AMOAND_D | AMOAND_W | AMOOR_D | AMOOR_W | AMOMIN_D | AMOMIN_W | AMOMAX_D
      | AMOMAX_W | AMOMINU_D | AMOMINU_W | AMOMAXU_D | AMOMAXU_W =>
    obtain rfl := Option.some.inj ht
    rw [decodeNormal, opcode_of_masked hm rfl]
    change decodeAmo w = _
    rw [decodeAmo, funct5_of_masked hm rfl, funct3_of_masked hm rfl]
    first
      | exact (if_pos rfl).trans (matchAndReturnInstr_of_matches rfl hm)
      | exact (if_neg (by decide)).trans (matchAndReturnInstr_of_matches rfl hm)
  case FMADD_S | FMADD_D =>
    obtain rfl := Option.some.inj ht
    rw [decodeNormal, opcode_of_masked hm rfl]
    change decodeFmadd w = _
    rw [decodeFmadd, funct2_of_masked hm rfl]
    exact matchAndReturnInstr_of_matches rfl hm
  case FADD_S | FADD_D | FSUB_S | FSUB_D | FCVT_D_S | FMUL_S | FMUL_D | FDIV_S | FDIV_D
      | FCVT_S_D | FSQRT_S | FSQRT_D | FMV_W_X | FMV_D_X =>
    obtain rfl := Option.some.inj ht
    rw [decodeNormal, opcode_of_masked hm rfl]
    change decodeOpFp w = _
    rw [decodeOpFp, funct7_of_masked hm rfl]
    exact matchAndReturnInstr_of_matches rfl hm
  case FLE_S | FLT_S | FEQ_S | FSGNJ_D | FSGNJN_D | FSGNJX_D | FMIN_S | FMAX_S | FMIN_D | FMAX_D
      | FSGNJ_S | FSGNJN_S | FSGNJX_S | FLE_D | FLT_D | FEQ_D | FMV_X_W | FCLASS_S | FMV_X_D
      | FCLASS_D =>
    obtain rfl := Option.some.inj ht
    rw [decodeNormal, opcode_of_masked hm rfl]
    change decodeOpFp w = _
    rw [decodeOpFp, funct7_of_masked hm rfl, funct3_of_masked hm rfl]
    exact matchAndReturnInstr_of_matches rfl hm
  case FCVT_S_W | FCVT_S_WU | FCVT_S_L | FCVT_S_LU | FCVT_D_W | FCVT_D_WU | FCVT_D_L | FCVT_D_LU
      | FCVT_W_D | FCVT_WU_D | FCVT_L_D | FCVT_LU_D | FCVT_W_S | FCVT_WU_S | FCVT_L_S
      | FCVT_LU_S =>
    obtain rfl := Option.some.inj ht
    rw [decodeNormal, opcode_of_masked hm rfl]
    change decodeOpFp w = _
    rw [decodeOpFp, funct7_of_masked hm rfl, rs2_of_masked hm rfl]
    exact matchAndReturnInstr_of_matches rfl hm
  case FLW | FLD =>
    obtain rfl := Option.some.inj ht
    rw [decodeNormal, opcode_of_masked hm rfl]
    change decodeLoadFp w = _
    rw [decodeLoadFp, funct3_of_masked hm rfl]
    exact matchAndReturnInstr_of_matches rfl hm
  case FSW | FSD =>
    obtain rfl := Option.some.inj ht
    rw [decodeNormal, opcode_of_masked hm rfl]
    change decodeStoreFp w = _
    rw [decodeStoreFp, funct3_of_masked hm rfl]
    exact matchAndReturnInstr_of_matches rfl hm
  case FMSUB_S | FMSUB_D =>
    obtain rfl := Option.some.inj ht
    rw [decodeNormal, opcode_of_masked hm rfl]
    change decodeFmsub w = _
    rw [decodeFmsub, funct2_of_masked hm rfl]
    exact matchAndReturnInstr_of_matches rfl hm
  case FNMSUB_S | FNMSUB_D =>
    obtain rfl := Option.some.inj ht
    rw [decodeNormal, opcode_of_masked hm rfl]
    change decodeFnmsub w = _
    rw [decodeFnmsub, funct2_of_masked hm rfl]
    exact matchAndReturnInstr_of_matches rfl hm
  case FNMADD_S | FNMADD_D =>
    obtain rfl := Option.some.inj ht
    rw [decodeNormal, opcode_of_masked hm rfl]
    change decodeFnmadd w = _
    rw [decodeFnmadd, funct2_of_masked hm rfl]
    exact matchAndReturnInstr_of_matches rfl hm

theorem decodeNormal_eq_iff (hop : op ≠ .UNDEF) :
    decodeNormal arch w = op ↔ ∃ p, table arch op = some p ∧ p.Matches w := by
  constructor
  · rintro rfl
    exact (decodeNormal_selects arch w).resolve_left hop
  · rintro ⟨p, ht, hm⟩
    exact decodeNormal_of_matches ht hm

theorem table_undef : table arch .UNDEF = none := by cases arch <;> rfl

theorem decodeNormal_eq_undef_iff :
    decodeNormal arch w = .UNDEF ↔ ∀ op p, table arch op = some p → ¬ p.Matches w := by
  constructor
  · intro h op p ht hm
    rw [decodeNormal_of_matches ht hm] at h
    rw [h, table_undef] at ht
    cases ht
  · intro h
    rcases decodeNormal_selects arch w with hundef | ⟨p, ht, hm⟩
    · exact hundef
    · exact absurd hm (h _ p ht)

end Agreement

/-- The selection tree and the encoding table describe the same decoder: an opcode is returned
exactly for the words its pattern matches, patterns of different opcodes exclude each other, and
`UNDEF` is what remains. -/
theorem decodeNormal_agrees_with_table (arch : Architecture) (w : Instruction) :
    (∀ op, op ≠ .UNDEF →
      (decodeNormal arch w = op ↔ ∃ p, table arch op = some p ∧ p.Matches w)) ∧
    (∀ op op' p p', table arch op = some p → p.Matches w →
      table arch op' = some p' → p'.Matches w → op = op') ∧
    (decodeNormal arch w = .UNDEF ↔ ∀ op p, table arch op = some p → ¬ p.Matches w) := by
  refine ⟨fun op hop ↦ decodeNormal_eq_iff hop, ?_, decodeNormal_eq_undef_iff⟩
  intro op op' p p' ht hm ht' hm'
  rw [← decodeNormal_of_matches ht hm, decodeNormal_of_matches ht' hm']

end CoverageVP.Instr
