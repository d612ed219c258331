import CoverageVP.Instr.Instruction

/-!
# The decoder of compressed instructions

A compressed instruction is recognised by `decodeCompressed`, and `expandCompressed` rewrites it to
the 32-bit instruction it abbreviates. The immediates are taken from the compressed word by the
extractors below, and put back into an uncompressed word by the functions of `InstructionFactory`.
-/

namespace CoverageVP.Instr

open Lib

namespace Compressed

inductive Opcode
  | C_Illegal | C_Reserved | C_ADDI4SPN | C_FLD | C_LQ | C_LW | C_FLW | C_LD
  | C_FSD | C_SQ | C_SW | C_FSW | C_SD
  | C_NOP | C_ADDI | C_JAL | C_ADDIW | C_LI | C_ADDI16SP | C_LUI | C_SRLI | C_SRAI | C_ANDI
  | C_SUB | C_XOR | C_OR | C_AND | C_SUBW | C_ADDW | C_J | C_BEQZ | C_BNEZ
  | C_SLLI | C_FLDSP | C_LQSP | C_LWSP | C_FLWSP | C_LDSP | C_JR | C_MV | C_EBREAK | C_JALR
  | C_ADD | C_FSDSP | C_SQSP | C_SWSP | C_FSWSP | C_SDSP
  deriving DecidableEq, Repr

end Compressed

/-! ## Immediates

The extractors of unsigned immediates work on an unsigned copy of the word and shift logically. -/

def bitSliceU (n : BitVec 32) (upper lower : Nat) : BitVec 32 := bitRange n upper lower >>> lower

def bitSinglePNU (n : BitVec 32) (pos newPos : Nat) : BitVec 32 :=
  (bitSingle n pos >>> pos) <<< newPos

def cAddi4spnNzuimm (n : BitVec 32) : BitVec 32 :=
  (bitSliceU n 12 11 <<< 4) ||| (bitSliceU n 10 7 <<< 6) ||| bitSinglePNU n 6 2 |||
    bitSinglePNU n 5 3

def cLwUimm (n : BitVec 32) : BitVec 32 :=
  (bitSliceU n 12 10 <<< 3) ||| bitSinglePNU n 6 2 ||| bitSinglePNU n 5 6

def cLdUimm (n : BitVec 32) : BitVec 32 := (bitSliceU n 12 10 <<< 3) ||| (bitSliceU n 6 5 <<< 6)

def cSwUimm (n : BitVec 32) : BitVec 32 := cLwUimm n

def cSdUimm (n : BitVec 32) : BitVec 32 := cLdUimm n

def cJalImm (n : BitVec 32) : BitVec 32 :=
  extractSignBit n 12 11 ||| bitSinglePN n 11 4 ||| (bitSlice n 10 9 <<< 8) |||
    bitSinglePN n 8 10 ||| bitSinglePN n 7 6 ||| bitSinglePN n 6 7 ||| (bitSlice n 5 3 <<< 1) |||
    bitSinglePN n 2 5

def cAddi16spNzimm (n : BitVec 32) : BitVec 32 :=
  extractSignBit n 12 9 ||| bitSinglePN n 6 4 ||| bitSinglePN n 5 6 ||| (bitSlice n 4 3 <<< 7) |||
    bitSinglePN n 2 5

def cLuiNzimm (n : BitVec 32) : BitVec 32 := extractSignBit n 12 17 ||| (bitSlice n 6 2 <<< 12)

def cJImm (n : BitVec 32) : BitVec 32 := cJalImm n

def cBranchImm (n : BitVec 32) : BitVec 32 :=
  extractSignBit n 12 8 ||| (bitSlice n 11 10 <<< 3) ||| (bitSlice n 6 5 <<< 6) |||
    (bitSlice n 4 3 <<< 1) ||| bitSinglePN n 2 5

def cLwspUimm (n : BitVec 32) : BitVec 32 :=
  bitSinglePNU n 12 5 ||| (bitSliceU n 6 4 <<< 2) ||| (bitSliceU n 3 2 <<< 6)

def cSwspUimm (n : BitVec 32) : BitVec 32 := (bitSliceU n 12 9 <<< 2) ||| (bitSliceU n 8 7 <<< 6)

def cLdspUimm (n : BitVec 32) : BitVec 32 :=
  bitSinglePNU n 12 5 ||| (bitSliceU n 6 5 <<< 3) ||| (bitSliceU n 4 2 <<< 6)

def cSdspUimm (n : BitVec 32) : BitVec 32 := (bitSliceU n 12 10 <<< 3) ||| (bitSliceU n 9 7 <<< 6)

/-! ## Building uncompressed words -/

namespace InstructionFactory

def rType (opcode funct3 funct7 rd rs1 rs2 : BitVec 32) : Instruction :=
  ((rd &&& 0x1f#32) <<< 7) ||| ((rs1 &&& 0x1f#32) <<< 15) ||| ((rs2 &&& 0x1f#32) <<< 20) |||
    opcode ||| (funct3 <<< 12) ||| (funct7 <<< 25)

def iType (opcode funct3 rd rs1 imm : BitVec 32) : Instruction :=
  ((imm &&& 4095#32) <<< 20) ||| ((rd &&& 0x1f#32) <<< 7) ||| ((rs1 &&& 0x1f#32) <<< 15) |||
    opcode ||| (funct3 <<< 12)

def sType (opcode funct3 rs1 rs2 imm : BitVec 32) : Instruction :=
  (((imm &&& 0b11111#32) <<< 7) ||| ((imm &&& (0b1111111#32 <<< 5)) <<< 20)) |||
    ((rs1 &&& 0x1f#32) <<< 15) ||| ((rs2 &&& 0x1f#32) <<< 20) ||| opcode ||| (funct3 <<< 12)

def shiftType (funct3 funct7 rd rs1 shamt : BitVec 32) : Instruction :=
  ((rd &&& 0x1f#32) <<< 7) ||| ((rs1 &&& 0x1f#32) <<< 15) ||| ((shamt &&& 63#32) <<< 20) |||
    19#32 ||| (funct3 <<< 12) ||| (funct7 <<< 25)

def bType (funct3 rs1 rs2 imm : BitVec 32) : Instruction :=
  ((((imm &&& 0b11110#32) <<< 7) ||| (imm &&& (1#32 <<< 11)).sshiftRight 4) |||
      (((imm &&& (0b111111#32 <<< 5)) <<< 20) ||| ((imm &&& (1#32 <<< 12)) <<< 19))) |||
    ((rs1 &&& 0x1f#32) <<< 15) ||| ((rs2 &&& 0x1f#32) <<< 20) ||| 99#32 ||| (funct3 <<< 12)

def ADD (rd rs1 rs2 : BitVec 32) : Instruction := rType 51#32 0#32 0#32 rd rs1 rs2
def AND (rd rs1 rs2 : BitVec 32) : Instruction := rType 51#32 7#32 0#32 rd rs1 rs2
def OR (rd rs1 rs2 : BitVec 32) : Instruction := rType 51#32 6#32 0#32 rd rs1 rs2
def XOR (rd rs1 rs2 : BitVec 32) : Instruction := rType 51#32 4#32 0#32 rd rs1 rs2
def SUB (rd rs1 rs2 : BitVec 32) : Instruction := rType 51#32 0#32 32#32 rd rs1 rs2
def ADDW (rd rs1 rs2 : BitVec 32) : Instruction := rType 0x3b#32 0#32 0#32 rd rs1 rs2
def SUBW (rd rs1 rs2 : BitVec 32) : Instruction := rType 0x3b#32 0#32 32#32 rd rs1 rs2

def LW (rd rs1 imm : BitVec 32) : Instruction := iType 3#32 2#32 rd rs1 imm
def LD (rd rs1 imm : BitVec 32) : Instruction := iType 3#32 3#32 rd rs1 imm
def FLW (rd rs1 imm : BitVec 32) : Instruction := iType 7#32 2#32 rd rs1 imm
def FLD (rd rs1 imm : BitVec 32) : Instruction := iType 7#32 3#32 rd rs1 imm
def ADDI (rd rs1 imm : BitVec 32) : Instruction := iType 19#32 0#32 rd rs1 imm
def ANDI (rd rs1 imm : BitVec 32) : Instruction := iType 19#32 7#32 rd rs1 imm
def JALR (rd rs1 imm : BitVec 32) : Instruction := iType 103#32 0#32 rd rs1 imm

def SW (rs1 rs2 imm : BitVec 32) : Instruction := sType 35#32 2#32 rs1 rs2 imm
def SD (rs1 rs2 imm : BitVec 32) : Instruction := sType 35#32 3#32 rs1 rs2 imm
def FSW (rs1 rs2 imm : BitVec 32) : Instruction := sType 39#32 2#32 rs1 rs2 imm
def FSD (rs1 rs2 imm : BitVec 32) : Instruction := sType 39#32 3#32 rs1 rs2 imm

def SRLI (rd rs1 shamt : BitVec 32) : Instruction := shiftType 5#32 0#32 rd rs1 shamt
def SRAI (rd rs1 shamt : BitVec 32) : Instruction := shiftType 5#32 32#32 rd rs1 shamt
def SLLI (rd rs1 shamt : BitVec 32) : Instruction := shiftType 1#32 0#32 rd rs1 shamt

def BEQ (rs1 rs2 imm : BitVec 32) : Instruction := bType 0#32 rs1 rs2 imm
def BNE (rs1 rs2 imm : BitVec 32) : Instruction := bType 1#32 rs1 rs2 imm

def LUI (rd imm : BitVec 32) : Instruction :=
  (imm &&& (1048575#32 <<< 12)) ||| ((rd &&& 0x1f#32) <<< 7) ||| 55#32

def JAL (rd imm : BitVec 32) : Instruction :=
  111#32 ||| ((rd &&& 0x1f#32) <<< 7) |||
    ((imm &&& (0b11111111#32 <<< 12)) ||| ((imm &&& (1#32 <<< 11)) <<< 9) |||
      ((imm &&& 0b11111111110#32) <<< 20) ||| ((imm &&& (1#32 <<< 20)) <<< 11))

def EBREAK : Instruction := 1048691#32

end InstructionFactory

/-! ## Recognition and expansion -/

def decodeQuadrant0 (instr : Instruction) (arch : Architecture) : Compressed.Opcode :=
  match instr.cOpcode.toNat with
  | 0b000 => if instr.cFormat = 0#32 then .C_Illegal else .C_ADDI4SPN
  | 0b001 => .C_FLD
  | 0b010 => .C_LW
  | 0b011 => if arch = .RV32 then .C_FLW else .C_LD
  | 0b100 => .C_Reserved
  | 0b101 => .C_FSD
  | 0b110 => .C_SW
  | 0b111 => if arch = .RV32 then .C_FSW else .C_SD
  | _ => .C_Illegal

def decodeQuadrant1 (instr : Instruction) (arch : Architecture) : Compressed.Opcode :=
  match instr.cOpcode.toNat with
  | 0b000 => if instr.cFormat = 1#32 then .C_NOP else .C_ADDI
  | 0b001 => if arch = .RV32 then .C_JAL else .C_ADDIW
  | 0b010 => .C_LI
  | 0b011 => if instr.cRd = 2#32 then .C_ADDI16SP else .C_LUI
  | 0b100 =>
    match instr.cF2High.toNat with
    | 0b00 => .C_SRLI
    | 0b01 => .C_SRAI
    | 0b10 => .C_ANDI
    | 0b11 =>
      if instr.cB12 ≠ 0#32 then
        match instr.cF2Low.toNat with
        | 0b00 => .C_SUBW
        | 0b01 => .C_ADDW
        | _ => .C_Reserved
      else
        match instr.cF2Low.toNat with
        | 0b00 => .C_SUB
        | 0b01 => .C_XOR
        | 0b10 => .C_OR
        | 0b11 => .C_AND
        | _ => .C_Illegal
    | _ => .C_Illegal
  | 0b101 => .C_J
  | 0b110 => .C_BEQZ
  | 0b111 => .C_BNEZ
  | _ => .C_Illegal

def decodeQuadrant2 (instr : Instruction) (arch : Architecture) : Compressed.Opcode :=
  match instr.cOpcode.toNat with
  | 0b000 => .C_SLLI
  | 0b001 => .C_FLDSP
  | 0b010 => .C_LWSP
  | 0b011 => if arch = .RV32 then .C_FLWSP else .C_LDSP
  | 0b100 =>
    if instr.cB12 ≠ 0#32 then
      if instr.cRd ≠ 0#32 then
        if instr.cRs2 ≠ 0#32 then .C_ADD else .C_JALR
      else .C_EBREAK
    else
      if instr.cRs2 ≠ 0#32 then .C_MV else .C_JR
  | 0b101 => .C_FSDSP
  | 0b110 => .C_SWSP
  | 0b111 => if arch = .RV32 then .C_FSWSP else .C_SDSP
  | _ => .C_Illegal

/-- `none` is the `std::runtime_error` thrown for an uncompressed word. -/
def decodeCompressed (instr : Instruction) (arch : Architecture) : Option Compressed.Opcode :=
  match instr.quadrant.toNat with
  | 0 => some (decodeQuadrant0 instr arch)
  | 1 => some (decodeQuadrant1 instr arch)
  | 2 => some (decodeQuadrant2 instr arch)
  | 3 => none
  | _ => some .C_Illegal

/-- The opcode and the rewritten word. An undefined instruction is left as it was fetched. -/
def expandCompressed (instr : Instruction) (op : Compressed.Opcode) (arch : Architecture) :
    Opcode × Instruction :=
  match op with
  | .C_Illegal | .C_LQ | .C_LQSP | .C_SQ | .C_SQSP | .C_Reserved => (.UNDEF, instr)
  | .C_NOP => (.ADD, InstructionFactory.ADD 0#32 0#32 0#32)
  | .C_ADD => (.ADD, InstructionFactory.ADD instr.cRd instr.cRd instr.cRs2)
  | .C_MV => (.ADD, InstructionFactory.ADD instr.cRd 0#32 instr.cRs2)
  | .C_AND => (.AND, InstructionFactory.AND instr.cRdSmall instr.cRdSmall instr.cRs2Small)
  | .C_OR => (.OR, InstructionFactory.OR instr.cRdSmall instr.cRdSmall instr.cRs2Small)
  | .C_XOR => (.XOR, InstructionFactory.XOR instr.cRdSmall instr.cRdSmall instr.cRs2Small)
  | .C_SUB => (.SUB, InstructionFactory.SUB instr.cRdSmall instr.cRdSmall instr.cRs2Small)
  | .C_ADDW => (.ADDW, InstructionFactory.ADDW instr.cRdSmall instr.cRdSmall instr.cRs2Small)
  | .C_SUBW => (.SUBW, InstructionFactory.SUBW instr.cRdSmall instr.cRdSmall instr.cRs2Small)
  | .C_LW => (.LW, InstructionFactory.LW instr.cRs2Small instr.cRdSmall (cLwUimm instr))
  | .C_LD => (.LD, InstructionFactory.LD instr.cRs2Small instr.cRdSmall (cLdUimm instr))
  | .C_FLW => (.FLW, InstructionFactory.FLW instr.cRs2Small instr.cRdSmall (cLwUimm instr))
  | .C_FLD => (.FLD, InstructionFactory.FLD instr.cRs2Small instr.cRdSmall (cLdUimm instr))
  | .C_SW => (.SW, InstructionFactory.SW instr.cRdSmall instr.cRs2Small (cSwUimm instr))
  | .C_SD => (.SD, InstructionFactory.SD instr.cRdSmall instr.cRs2Small (cSdUimm instr))
  | .C_FSW => (.FSW, InstructionFactory.FSW instr.cRdSmall instr.cRs2Small (cSwUimm instr))
  | .C_FSD => (.FSD, InstructionFactory.FSD instr.cRdSmall instr.cRs2Small (cSdUimm instr))
  | .C_ADDI4SPN =>
    if cAddi4spnNzuimm instr = 0#32 then (.UNDEF, instr)
    else (.ADDI, InstructionFactory.ADDI instr.cRs2Small 2#32 (cAddi4spnNzuimm instr))
  | .C_ADDI => (.ADDI, InstructionFactory.ADDI instr.cRd instr.cRd instr.cImm)
  | .C_JAL => (.JAL, InstructionFactory.JAL 1#32 (cJalImm instr))
  | .C_ADDIW =>
    if instr.cRd = 0#32 then (.UNDEF, instr)
    else (.ADDIW, InstructionFactory.ADDI instr.cRd instr.cRd instr.cImm)
  | .C_LI => (.ADDI, InstructionFactory.ADDI instr.cRd 0#32 instr.cImm)
  | .C_ADDI16SP =>
    if cAddi16spNzimm instr = 0#32 then (.UNDEF, instr)
    else (.ADDI, InstructionFactory.ADDI 2#32 2#32 (cAddi16spNzimm instr))
  | .C_LUI =>
    if cLuiNzimm instr = 0#32 then (.UNDEF, instr)
    else (.LUI, InstructionFactory.LUI instr.cRd (cLuiNzimm instr))
  | .C_SLLI =>
    if arch = .RV32 ∧ instr.cUimm.toNat > 31 then (.UNDEF, instr)
    else (.SLLI, InstructionFactory.SLLI instr.cRd instr.cRd instr.cUimm)
  | .C_SRLI =>
    if arch = .RV32 ∧ instr.cUimm.toNat > 31 then (.UNDEF, instr)
    else (.SRLI, InstructionFactory.SRLI instr.cRdSmall instr.cRdSmall instr.cUimm)
  | .C_SRAI =>
    if arch = .RV32 ∧ instr.cUimm.toNat > 31 then (.UNDEF, instr)
    else (.SRAI, InstructionFactory.SRAI instr.cRdSmall instr.cRdSmall instr.cUimm)
  | .C_ANDI => (.ANDI, InstructionFactory.ANDI instr.cRdSmall instr.cRdSmall instr.cImm)
  | .C_J => (.JAL, InstructionFactory.JAL 0#32 (cJImm instr))
  | .C_BEQZ => (.BEQ, InstructionFactory.BEQ instr.cRdSmall 0#32 (cBranchImm instr))
  | .C_BNEZ => (.BNE, InstructionFactory.BNE instr.cRdSmall 0#32 (cBranchImm instr))
  | .C_LWSP =>
    if instr.cRd = 0#32 then (.UNDEF, instr)
    else (.LW, InstructionFactory.LW instr.cRd 2#32 (cLwspUimm instr))
  | .C_LDSP =>
    if instr.cRd = 0#32 then (.UNDEF, instr)
    else (.LD, InstructionFactory.LD instr.cRd 2#32 (cLdspUimm instr))
  | .C_FLWSP => (.FLW, InstructionFactory.FLW instr.cRd 2#32 (cLwspUimm instr))
  | .C_FLDSP => (.FLD, InstructionFactory.FLD instr.cRd 2#32 (cLdspUimm instr))
  | .C_SWSP => (.SW, InstructionFactory.SW 2#32 instr.cRs2 (cSwspUimm instr))
  | .C_SDSP => (.SD, InstructionFactory.SD 2#32 instr.cRs2 (cSdspUimm instr))
  | .C_FSWSP => (.FSW, InstructionFactory.FSW 2#32 instr.cRs2 (cSwspUimm instr))
  | .C_FSDSP => (.FSD, InstructionFactory.FSD 2#32 instr.cRs2 (cSdspUimm instr))
  | .C_EBREAK => (.EBREAK, InstructionFactory.EBREAK)
  | .C_JR =>
    if instr.cRd = 0#32 then (.UNDEF, instr)
    else (.JALR, InstructionFactory.JALR 0#32 instr.cRd 0#32)
  | .C_JALR => (.JALR, InstructionFactory.JALR 1#32 instr.cRd 0#32)

def decodeAndExpandCompressed (instr : Instruction) (arch : Architecture) :
    Option (Opcode × Instruction) :=
  (decodeCompressed instr arch).map fun op ↦ expandCompressed instr op arch

end CoverageVP.Instr
