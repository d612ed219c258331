import CoverageVP.Lib.Bits

/-!
# Opcodes and their encoding table

The opcode enumeration of the decoder, the instruction formats it is classified into, and the
table of `MASK` and `ENCODING` constants. Every opcode but `UNDEF` owns one pattern; the three
immediate shifts own a second one on RV32, where the bit above the shift amount is part of the
encoding.
-/

namespace CoverageVP.Instr

inductive Architecture
  | RV32 | RV64 | RV128
  deriving DecidableEq, Repr

/-- The opcodes the decoder distinguishes, in the order of the source's enumeration. -/
inductive Opcode
  | UNDEF
  | LUI | AUIPC | JAL | JALR | BEQ | BNE | BLT | BGE | BLTU | BGEU | LB | LH | LW | LBU | LHU
  | SB | SH | SW | ADDI | SLTI | SLTIU | XORI | ORI | ANDI | SLLI | SRLI | SRAI | ADD | SUB | SLL
  | SLT | SLTU | XOR | SRL | SRA | OR | AND | FENCE | ECALL | EBREAK
  | FENCE_I
  | CSRRW | CSRRS | CSRRC | CSRRWI | CSRRSI | CSRRCI
  | MUL | MULH | MULHSU | MULHU | DIV | DIVU | REM | REMU
  | LR_W | SC_W | AMOSWAP_W | AMOADD_W | AMOXOR_W | AMOAND_W | AMOOR_W | AMOMIN_W | AMOMAX_W
  | AMOMINU_W | AMOMAXU_W
  | LWU | LD | SD | ADDIW | SLLIW | SRLIW | SRAIW | ADDW | SUBW | SLLW | SRLW | SRAW
  | MULW | DIVW | DIVUW | REMW | REMUW
  | LR_D | SC_D | AMOSWAP_D | AMOADD_D | AMOXOR_D | AMOAND_D | AMOOR_D | AMOMIN_D | AMOMAX_D
  | AMOMINU_D | AMOMAXU_D
  | FLW | FSW | FMADD_S | FMSUB_S | FNMADD_S | FNMSUB_S | FADD_S | FSUB_S | FMUL_S | FDIV_S
  | FSQRT_S | FSGNJ_S | FSGNJN_S | FSGNJX_S | FMIN_S | FMAX_S | FCVT_W_S | FCVT_WU_S | FMV_X_W
  | FEQ_S | FLT_S | FLE_S | FCLASS_S | FCVT_S_W | FCVT_S_WU | FMV_W_X
  | FCVT_L_S | FCVT_LU_S | FCVT_S_L | FCVT_S_LU
  | FLD | FSD | FMADD_D | FMSUB_D | FNMSUB_D | FNMADD_D | FADD_D | FSUB_D | FMUL_D | FDIV_D
  | FSQRT_D | FSGNJ_D | FSGNJN_D | FSGNJX_D | FMIN_D | FMAX_D | FCVT_S_D | FCVT_D_S | FEQ_D
  | FLT_D | FLE_D | FCLASS_D | FCVT_W_D | FCVT_WU_D | FCVT_D_W | FCVT_D_WU
  | FCVT_L_D | FCVT_LU_D | FMV_X_D | FCVT_D_L | FCVT_D_LU | FMV_D_X
  | URET | SRET | MRET | WFI | SFENCE_VMA
  deriving DecidableEq, Repr

/-- The instruction format an opcode is classified into. -/
inductive Format
  | UNKNOWN | R | I | S | B | U | J | R4
  deriving DecidableEq, Repr

def getType : Opcode → Format
  | .SLLI | .SRLI | .SRAI | .ADD | .SUB | .SLL | .SLT | .SLTU | .XOR | .SRL | .SRA | .OR
  | .AND | .MUL | .MULH | .MULHSU | .MULHU | .DIV | .DIVU | .REM | .REMU | .ADDW | .SUBW
  | .SLLW | .SRLW | .SRAW | .MULW | .DIVW | .DIVUW | .REMW | .REMUW | .LR_W | .SC_W
  | .AMOSWAP_W | .AMOADD_W | .AMOXOR_W | .AMOAND_W | .AMOOR_W | .AMOMIN_W | .AMOMAX_W
  | .AMOMINU_W | .AMOMAXU_W | .LR_D | .SC_D | .AMOSWAP_D | .AMOADD_D | .AMOXOR_D | .AMOAND_D
  | .AMOOR_D | .AMOMIN_D | .AMOMAX_D | .AMOMINU_D | .AMOMAXU_D | .FADD_S | .FSUB_S | .FMUL_S
  | .FDIV_S | .FSQRT_S | .FSGNJ_S | .FSGNJN_S | .FSGNJX_S | .FMIN_S | .FMAX_S | .FCVT_W_S
  | .FCVT_WU_S | .FMV_X_W | .FEQ_S | .FLT_S | .FLE_S | .FCLASS_S | .FCVT_S_W | .FCVT_S_WU
  | .FMV_W_X | .FCVT_L_S | .FCVT_LU_S | .FCVT_S_L | .FCVT_S_LU | .FADD_D | .FSUB_D | .FMUL_D
  | .FDIV_D | .FSQRT_D | .FSGNJ_D | .FSGNJN_D | .FSGNJX_D | .FMIN_D | .FMAX_D | .FCVT_S_D
  | .FCVT_D_S | .FEQ_D | .FLT_D | .FLE_D | .FCLASS_D | .FCVT_W_D | .FCVT_WU_D | .FCVT_D_W
  | .FCVT_D_WU | .FCVT_L_D | .FCVT_LU_D | .FMV_X_D | .FCVT_D_L | .FCVT_D_LU | .FMV_D_X => .R
  | .JALR | .LB | .LH | .LW | .LD | .LBU | .LHU | .LWU | .ADDI | .SLTI | .SLTIU | .XORI
  | .ORI | .ANDI | .ADDIW | .SLLIW | .SRLIW | .SRAIW | .FLW | .FLD => .I
  | .SB | .SH | .SW | .SD | .FSW | .FSD => .S
  | .BEQ | .BNE | .BLT | .BGE | .BLTU | .BGEU => .B
  | .LUI | .AUIPC => .U
  | .JAL => .J
  | .FMADD_S | .FMSUB_S | .FNMSUB_S | .FNMADD_S | .FMADD_D | .FMSUB_D | .FNMSUB_D | .FNMADD_D => .R4
  | _ => .UNKNOWN

/-- One row of the encoding table: the bits that are fixed and the values they are fixed to. -/
structure Pattern where
  mask : BitVec 32
  encoding : BitVec 32
  deriving DecidableEq, Repr

def Pattern.Matches (p : Pattern) (w : BitVec 32) : Prop := w &&& p.mask = p.encoding

instance (p : Pattern) (w : BitVec 32) : Decidable (p.Matches w) :=
  inferInstanceAs (Decidable (w &&& p.mask = p.encoding))

def pattern : Opcode → Option Pattern
  | .UNDEF => none
  | .LUI => some ⟨0b00000000000000000000000001111111,
      0b00000000000000000000000000110111⟩
  | .AUIPC => some ⟨0b00000000000000000000000001111111,
      0b00000000000000000000000000010111⟩
  | .JAL => some ⟨0b00000000000000000000000001111111,
      0b00000000000000000000000001101111⟩
  | .JALR => some ⟨0b00000000000000000111000001111111,
      0b00000000000000000000000001100111⟩
  | .BEQ => some ⟨0b00000000000000000111000001111111,
      0b00000000000000000000000001100011⟩
  | .BNE => some ⟨0b00000000000000000111000001111111,
      0b00000000000000000001000001100011⟩
  | .BLT => some ⟨0b00000000000000000111000001111111,
      0b00000000000000000100000001100011⟩
  | .BGE => some ⟨0b00000000000000000111000001111111,
      0b00000000000000000101000001100011⟩
  | .BLTU => some ⟨0b00000000000000000111000001111111,
      0b00000000000000000110000001100011⟩
  | .BGEU => some ⟨0b00000000000000000111000001111111,
      0b00000000000000000111000001100011⟩
  | .LB => some ⟨0b00000000000000000111000001111111,
      0b00000000000000000000000000000011⟩
  | .LH => some ⟨0b00000000000000000111000001111111,
      0b00000000000000000001000000000011⟩
  | .LW => some ⟨0b00000000000000000111000001111111,
      0b00000000000000000010000000000011⟩
  | .LBU => some ⟨0b00000000000000000111000001111111,
      0b00000000000000000100000000000011⟩
  | .LHU => some ⟨0b00000000000000000111000001111111,
      0b00000000000000000101000000000011⟩
  | .SB => some ⟨0b00000000000000000111000001111111,
      0b00000000000000000000000000100011⟩
  | .SH => some ⟨0b00000000000000000111000001111111,
      0b00000000000000000001000000100011⟩
  | .SW => some ⟨0b00000000000000000111000001111111,
      0b00000000000000000010000000100011⟩
  | .ADDI => some ⟨0b00000000000000000111000001111111,
      0b00000000000000000000000000010011⟩
  | .SLTI => some ⟨0b00000000000000000111000001111111,
      0b00000000000000000010000000010011⟩
  | .SLTIU => some ⟨0b00000000000000000111000001111111,
      0b00000000000000000011000000010011⟩
  | .XORI => some ⟨0b00000000000000000111000001111111,
      0b00000000000000000100000000010011⟩
  | .ORI => some ⟨0b00000000000000000111000001111111,
      0b00000000000000000110000000010011⟩
  | .ANDI => some ⟨0b00000000000000000111000001111111,
      0b00000000000000000111000000010011⟩
  | .SLLI => some ⟨0b11111100000000000111000001111111,
      0b00000000000000000001000000010011⟩
  | .SRLI => some ⟨0b11111100000000000111000001111111,
      0b00000000000000000101000000010011⟩
  | .SRAI => some ⟨0b11111100000000000111000001111111,
      0b01000000000000000101000000010011⟩
  | .ADD => some ⟨0b11111110000000000111000001111111,
      0b00000000000000000000000000110011⟩
  | .SUB => some ⟨0b11111110000000000111000001111111,
      0b01000000000000000000000000110011⟩
  | .SLL => some ⟨0b11111110000000000111000001111111,
      0b00000000000000000001000000110011⟩
  | .SLT => some ⟨0b11111110000000000111000001111111,
      0b00000000000000000010000000110011⟩
  | .SLTU => some ⟨0b11111110000000000111000001111111,
      0b00000000000000000011000000110011⟩
  | .XOR => some ⟨0b11111110000000000111000001111111,
      0b00000000000000000100000000110011⟩
  | .SRL => some ⟨0b11111110000000000111000001111111,
      0b00000000000000000101000000110011⟩
  | .SRA => some ⟨0b11111110000000000111000001111111,
      0b01000000000000000101000000110011⟩
  | .OR => some ⟨0b11111110000000000111000001111111,
      0b00000000000000000110000000110011⟩
  | .AND => some ⟨0b11111110000000000111000001111111,
      0b00000000000000000111000000110011⟩
  | .FENCE => some ⟨0b00000000000000000111000001111111,
      0b00000000000000000000000000001111⟩
  | .ECALL => some ⟨0b11111111111111111111111111111111,
      0b00000000000000000000000001110011⟩
  | .EBREAK => some ⟨0b11111111111111111111111111111111,
      0b00000000000100000000000001110011⟩
  | .FENCE_I => some ⟨0b00000000000000000111000001111111,
      0b00000000000000000001000000001111⟩
  | .CSRRW => some ⟨0b00000000000000000111000001111111,
      0b00000000000000000001000001110011⟩
  | .CSRRS => some ⟨0b00000000000000000111000001111111,
      0b00000000000000000010000001110011⟩
  | .CSRRC => some ⟨0b00000000000000000111000001111111,
      0b00000000000000000011000001110011⟩
  | .CSRRWI => some ⟨0b00000000000000000111000001111111,
      0b00000000000000000101000001110011⟩
  | .CSRRSI => some ⟨0b00000000000000000111000001111111,
      0b00000000000000000110000001110011⟩
  | .CSRRCI => some ⟨0b00000000000000000111000001111111,
      0b00000000000000000111000001110011⟩
  | .MUL => some ⟨0b11111110000000000111000001111111,
      0b00000010000000000000000000110011⟩
  | .MULH => some ⟨0b11111110000000000111000001111111,
      0b00000010000000000001000000110011⟩
  | .MULHSU => some ⟨0b11111110000000000111000001111111,
      0b00000010000000000010000000110011⟩
  | .MULHU => some ⟨0b11111110000000000111000001111111,
      0b00000010000000000011000000110011⟩
  | .DIV => some ⟨0b11111110000000000111000001111111,
      0b00000010000000000100000000110011⟩
  | .DIVU => some ⟨0b11111110000000000111000001111111,
      0b00000010000000000101000000110011⟩
  | .REM => some ⟨0b11111110000000000111000001111111,
      0b00000010000000000110000000110011⟩
  | .REMU => some ⟨0b11111110000000000111000001111111,
      0b00000010000000000111000000110011⟩
  | .LR_W => some ⟨0b11111001111100000111000001111111,
      0b00010000000000000010000000101111⟩
  | .SC_W => some ⟨0b11111000000000000111000001111111,
      0b00011000000000000010000000101111⟩
  | .AMOSWAP_W => some ⟨0b11111000000000000111000001111111,
      0b00001000000000000010000000101111⟩
  | .AMOADD_W => some ⟨0b11111000000000000111000001111111,
      0b00000000000000000010000000101111⟩
  | .AMOXOR_W => some ⟨0b11111000000000000111000001111111,
      0b00100000000000000010000000101111⟩
  | .AMOAND_W => some ⟨0b11111000000000000111000001111111,
      0b01100000000000000010000000101111⟩
  | .AMOOR_W => some ⟨0b11111000000000000111000001111111,
      0b01000000000000000010000000101111⟩
  | .AMOMIN_W => some ⟨0b11111000000000000111000001111111,
      0b10000000000000000010000000101111⟩
  | .AMOMAX_W => some ⟨0b11111000000000000111000001111111,
      0b10100000000000000010000000101111⟩
  | .AMOMINU_W => some ⟨0b11111000000000000111000001111111,
      0b11000000000000000010000000101111⟩
  | .AMOMAXU_W => some ⟨0b11111000000000000111000001111111,
      0b11100000000000000010000000101111⟩
  | .LWU => some ⟨0b00000000000000000111000001111111,
      0b00000000000000000110000000000011⟩
  | .LD => some ⟨0b00000000000000000111000001111111,
      0b00000000000000000011000000000011⟩
  | .SD => some ⟨0b00000000000000000111000001111111,
      0b00000000000000000011000000100011⟩
  | .ADDIW => some ⟨0b00000000000000000111000001111111,
      0b00000000000000000000000000011011⟩
  | .SLLIW => some ⟨0b11111110000000000111000001111111,
      0b00000000000000000001000000011011⟩
  | .SRLIW => some ⟨0b11111110000000000111000001111111,
      0b00000000000000000101000000011011⟩
  | .SRAIW => some ⟨0b11111110000000000111000001111111,
      0b01000000000000000101000000011011⟩
  | .ADDW => some ⟨0b11111110000000000111000001111111,
      0b00000000000000000000000000111011⟩
  | .SUBW => some ⟨0b11111110000000000111000001111111,
      0b01000000000000000000000000111011⟩
  | .SLLW => some ⟨0b11111110000000000111000001111111,
      0b00000000000000000001000000111011⟩
  | .SRLW => some ⟨0b11111110000000000111000001111111,
      0b00000000000000000101000000111011⟩
  | .SRAW => some ⟨0b11111110000000000111000001111111,
      0b01000000000000000101000000111011⟩
  | .MULW => some ⟨0b11111110000000000111000001111111,
      0b00000010000000000000000000111011⟩
  | .DIVW => some ⟨0b11111110000000000111000001111111,
      0b00000010000000000100000000111011⟩
  | .DIVUW => some ⟨0b11111110000000000111000001111111,
      0b00000010000000000101000000111011⟩
  | .REMW => some ⟨0b11111110000000000111000001111111,
      0b00000010000000000110000000111011⟩
  | .REMUW => some ⟨0b11111110000000000111000001111111,
      0b00000010000000000111000000111011⟩
  | .LR_D => some ⟨0b11111001111100000111000001111111,
      0b00010000000000000011000000101111⟩
  | .SC_D => some ⟨0b11111000000000000111000001111111,
      0b00011000000000000011000000101111⟩
  | .AMOSWAP_D => some ⟨0b11111000000000000111000001111111,
      0b00001000000000000011000000101111⟩
  | .AMOADD_D => some ⟨0b11111000000000000111000001111111,
      0b00000000000000000011000000101111⟩
  | .AMOXOR_D => some ⟨0b11111000000000000111000001111111,
      0b00100000000000000011000000101111⟩
  | .AMOAND_D => some ⟨0b11111000000000000111000001111111,
      0b01100000000000000011000000101111⟩
  | .AMOOR_D => some ⟨0b11111000000000000111000001111111,
      0b01000000000000000011000000101111⟩
  | .AMOMIN_D => some ⟨0b11111000000000000111000001111111,
      0b10000000000000000011000000101111⟩
  | .AMOMAX_D => some ⟨0b11111000000000000111000001111111,
      0b10100000000000000011000000101111⟩
  | .AMOMINU_D => some ⟨0b11111000000000000111000001111111,
      0b11000000000000000011000000101111⟩
  | .AMOMAXU_D => some ⟨0b11111000000000000111000001111111,
      0b11100000000000000011000000101111⟩
  | .FLW => some ⟨0b00000000000000000111000001111111,
      0b00000000000000000010000000000111⟩
  | .FSW => some ⟨0b00000000000000000111000001111111,
      0b00000000000000000010000000100111⟩
  | .FMADD_S => some ⟨0b00000110000000000000000001111111,
      0b00000000000000000000000001000011⟩
  | .FMSUB_S => some ⟨0b00000110000000000000000001111111,
      0b00000000000000000000000001000111⟩
  | .FNMADD_S => some ⟨0b00000110000000000000000001111111,
      0b00000000000000000000000001001111⟩
  | .FNMSUB_S => some ⟨0b00000110000000000000000001111111,
      0b00000000000000000000000001001011⟩
  | .FADD_S => some ⟨0b11111110000000000000000001111111,
      0b00000000000000000000000001010011⟩
  | .FSUB_S => some ⟨0b11111110000000000000000001111111,
      0b00001000000000000000000001010011⟩
  | .FMUL_S => some ⟨0b11111110000000000000000001111111,
      0b00010000000000000000000001010011⟩
  | .FDIV_S => some ⟨0b11111110000000000000000001111111,
      0b00011000000000000000000001010011⟩
  | .FSQRT_S => some ⟨0b11111111111100000000000001111111,
      0b01011000000000000000000001010011⟩
  | .FSGNJ_S => some ⟨0b11111110000000000111000001111111,
      0b00100000000000000000000001010011⟩
  | .FSGNJN_S => some ⟨0b11111110000000000111000001111111,
      0b00100000000000000001000001010011⟩
  | .FSGNJX_S => some ⟨0b11111110000000000111000001111111,
      0b00100000000000000010000001010011⟩
  | .FMIN_S => some ⟨0b11111110000000000111000001111111,
      0b00101000000000000000000001010011⟩
  | .FMAX_S => some ⟨0b11111110000000000111000001111111,
      0b00101000000000000001000001010011⟩
  | .FCVT_W_S => some ⟨0b11111111111100000000000001111111,
      0b11000000000000000000000001010011⟩
  | .FCVT_WU_S => some ⟨0b11111111111100000000000001111111,
      0b11000000000100000000000001010011⟩
  | .FMV_X_W => some ⟨0b11111111111100000111000001111111,
      0b11100000000000000000000001010011⟩
  | .FEQ_S => some ⟨0b11111110000000000111000001111111,
      0b10100000000000000010000001010011⟩
  | .FLT_S => some ⟨0b11111110000000000111000001111111,
      0b10100000000000000001000001010011⟩
  | .FLE_S => some ⟨0b11111110000000000111000001111111,
      0b10100000000000000000000001010011⟩
  | .FCLASS_S => some ⟨0b11111111111100000111000001111111,
      0b11100000000000000001000001010011⟩
  | .FCVT_S_W => some ⟨0b11111111111100000000000001111111,
      0b11010000000000000000000001010011⟩
  | .FCVT_S_WU => some ⟨0b11111111111100000000000001111111,
      0b11010000000100000000000001010011⟩
  | .FMV_W_X => some ⟨0b11111111111100000111000001111111,
      0b11110000000000000000000001010011⟩
  | .FCVT_L_S => some ⟨0b11111111111100000000000001111111,
      0b11000000001000000000000001010011⟩
  | .FCVT_LU_S => some ⟨0b11111111111100000000000001111111,
      0b11000000001100000000000001010011⟩
  | .FCVT_S_L => some ⟨0b11111111111100000000000001111111,
      0b11010000001000000000000001010011⟩
  | .FCVT_S_LU => some ⟨0b11111111111100000000000001111111,
      0b11010000001100000000000001010011⟩
  | .FLD => some ⟨0b00000000000000000111000001111111,
      0b00000000000000000011000000000111⟩
  | .FSD => some ⟨0b00000000000000000111000001111111,
      0b00000000000000000011000000100111⟩
  | .FMADD_D => some ⟨0b00000110000000000000000001111111,
      0b00000010000000000000000001000011⟩
  | .FMSUB_D => some ⟨0b00000110000000000000000001111111,
      0b00000010000000000000000001000111⟩
  | .FNMSUB_D => some ⟨0b00000110000000000000000001111111,
      0b00000010000000000000000001001011⟩
  | .FNMADD_D => some ⟨0b00000110000000000000000001111111,
      0b00000010000000000000000001001111⟩
  | .FADD_D => some ⟨0b11111110000000000000000001111111,
      0b00000010000000000000000001010011⟩
  | .FSUB_D => some ⟨0b11111110000000000000000001111111,
      0b00001010000000000000000001010011⟩
  | .FMUL_D => some ⟨0b11111110000000000000000001111111,
      0b00010010000000000000000001010011⟩
  | .FDIV_D => some ⟨0b11111110000000000000000001111111,
      0b00011010000000000000000001010011⟩
  | .FSQRT_D => some ⟨0b11111111111100000000000001111111,
      0b01011010000000000000000001010011⟩
  | .FSGNJ_D => some ⟨0b11111110000000000111000001111111,
      0b00100010000000000000000001010011⟩
  | .FSGNJN_D => some ⟨0b11111110000000000111000001111111,
      0b00100010000000000001000001010011⟩
  | .FSGNJX_D => some ⟨0b11111110000000000111000001111111,
      0b00100010000000000010000001010011⟩
  | .FMIN_D => some ⟨0b11111110000000000111000001111111,
      0b00101010000000000000000001010011⟩
  | .FMAX_D => some ⟨0b11111110000000000111000001111111,
      0b00101010000000000001000001010011⟩
  | .FCVT_S_D => some ⟨0b11111111111100000000000001111111,
      0b01000000000100000000000001010011⟩
  | .FCVT_D_S => some ⟨0b11111111111100000000000001111111,
      0b01000010000000000000000001010011⟩
  | .FEQ_D => some ⟨0b11111110000000000111000001111111,
      0b10100010000000000010000001010011⟩
  | .FLT_D => some ⟨0b11111110000000000111000001111111,
      0b10100010000000000001000001010011⟩
  | .FLE_D => some ⟨0b11111110000000000111000001111111,
      0b10100010000000000000000001010011⟩
  | .FCLASS_D => some ⟨0b11111111111100000111000001111111,
      0b11100010000000000001000001010011⟩
  | .FCVT_W_D => some ⟨0b11111111111100000000000001111111,
      0b11000010000000000000000001010011⟩
  | .FCVT_WU_D => some ⟨0b11111111111100000000000001111111,
      0b11000010000100000000000001010011⟩
  | .FCVT_D_W => some ⟨0b11111111111100000000000001111111,
      0b11010010000000000000000001010011⟩
  | .FCVT_D_WU => some ⟨0b11111111111100000000000001111111,
      0b11010010000100000000000001010011⟩
  | .FCVT_L_D => some ⟨0b11111111111100000000000001111111,
      0b11000010001000000000000001010011⟩
  | .FCVT_LU_D => some ⟨0b11111111111100000000000001111111,
      0b11000010001100000000000001010011⟩
  | .FMV_X_D => some ⟨0b11111111111100000111000001111111,
      0b11100010000000000000000001010011⟩
  | .FCVT_D_L => some ⟨0b11111111111100000000000001111111,
      0b11010010001000000000000001010011⟩
  | .FCVT_D_LU => some ⟨0b11111111111100000000000001111111,
      0b11010010001100000000000001010011⟩
  | .FMV_D_X => some ⟨0b11111111111100000111000001111111,
      0b11110010000000000000000001010011⟩
  | .URET => some ⟨0b11111111111111111111111111111111,
      0b00000000001000000000000001110011⟩
  | .SRET => some ⟨0b11111111111111111111111111111111,
      0b00010000001000000000000001110011⟩
  | .MRET => some ⟨0b11111111111111111111111111111111,
      0b00110000001000000000000001110011⟩
  | .WFI => some ⟨0b11111111111111111111111111111111,
      0b00010000010100000000000001110011⟩
  | .SFENCE_VMA => some ⟨0b11111110000000000111111111111111,
      0b00010010000000000000000001110011⟩

def slli32 : Pattern :=
  ⟨0b11111110000000000111000001111111, 0b00000000000000000001000000010011⟩

def srli32 : Pattern :=
  ⟨0b11111110000000000111000001111111, 0b00000000000000000101000000010011⟩

def srai32 : Pattern :=
  ⟨0b11111110000000000111000001111111, 0b01000000000000000101000000010011⟩

/-- The pattern the table defines for an opcode on an architecture. -/
def table (arch : Architecture) (op : Opcode) : Option Pattern :=
  match op, arch with
  | .SLLI, .RV32 => some slli32
  | .SRLI, .RV32 => some srli32
  | .SRAI, .RV32 => some srai32
  | op, _ => pattern op

end CoverageVP.Instr
