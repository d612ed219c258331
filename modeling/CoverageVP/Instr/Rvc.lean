import CoverageVP.Instr.Factory

/-!
# The RV32C table

The compressed instruction set of RV32, stated on the sixteen bits of a compressed instruction and
independently of the decoder. A halfword is either undefined (reserved, or defined on RV64 only), or
it has no effect on the registers other than `x0` (`C.NOP` and the `HINT`s), or it abbreviates one
base instruction with given operands. The decoder is compared with this table.
-/

namespace CoverageVP.Instr.Rvc

/-- The `len` bits of a halfword from bit `low` on. -/
abbrev field (h : BitVec 16) (low len : Nat) : BitVec len := h.extractLsb' low len

/-- A register of the three-bit register fields, which address `x8` to `x15`. -/
def small (r : BitVec 3) : BitVec 5 := 0b01#2 ++ r

/-- A base instruction with its operands. -/
inductive BaseInstr
  | r (op : Opcode) (rd rs1 rs2 : BitVec 5)
  | i (op : Opcode) (rd rs1 : BitVec 5) (imm : BitVec 12)
  | shift (op : Opcode) (rd rs1 shamt : BitVec 5)
  | s (op : Opcode) (rs1 rs2 : BitVec 5) (imm : BitVec 12)
  | b (op : Opcode) (rs1 rs2 : BitVec 5) (imm : BitVec 13)
  | u (op : Opcode) (rd : BitVec 5) (imm : BitVec 20)
  | j (op : Opcode) (rd : BitVec 5) (imm : BitVec 21)
  | system (op : Opcode)
  deriving DecidableEq, Repr

inductive Outcome
  | undefined
  | noEffect
  | base (instr : BaseInstr)
  deriving DecidableEq, Repr

/-! ## Immediates of the table -/

section Immediates

variable (h : BitVec 16)

def addi4spnImm : BitVec 12 :=
  0#2 ++ field h 7 4 ++ field h 11 2 ++ field h 5 1 ++ field h 6 1 ++ 0#2

def lwImm : BitVec 12 := 0#5 ++ field h 5 1 ++ field h 10 3 ++ field h 6 1 ++ 0#2

def ldImm : BitVec 12 := 0#4 ++ field h 5 2 ++ field h 10 3 ++ 0#3

def lwspImm : BitVec 12 := 0#4 ++ field h 2 2 ++ field h 12 1 ++ field h 4 3 ++ 0#2

def ldspImm : BitVec 12 := 0#3 ++ field h 2 3 ++ field h 12 1 ++ field h 5 2 ++ 0#3

def swspImm : BitVec 12 := 0#4 ++ field h 7 2 ++ field h 9 4 ++ 0#2

def sdspImm : BitVec 12 := 0#3 ++ field h 7 3 ++ field h 10 3 ++ 0#3

def ciImm : BitVec 6 := field h 12 1 ++ field h 2 5

def addi16spImm : BitVec 10 :=
  field h 12 1 ++ field h 3 2 ++ field h 5 1 ++ field h 2 1 ++ field h 6 1 ++ 0#4

def jumpImm : BitVec 12 :=
  field h 12 1 ++ field h 8 1 ++ field h 9 2 ++ field h 6 1 ++ field h 7 1 ++ field h 2 1 ++
    field h 11 1 ++ field h 3 3 ++ 0#1

def branchImm : BitVec 9 :=
  field h 12 1 ++ field h 5 2 ++ field h 2 1 ++ field h 10 2 ++ field h 3 2 ++ 0#1

end Immediates

/-! ## The table -/

section Table

variable (h : BitVec 16)

def quadrant0 : Outcome :=
  match (field h 13 3).toNat with
  | 0b000 =>
    if addi4spnImm h = 0#12 then .undefined
    else .base (.i .ADDI (small (field h 2 3)) 2#5 (addi4spnImm h))
  | 0b001 => .base (.i .FLD (small (field h 2 3)) (small (field h 7 3)) (ldImm h))
  | 0b010 => .base (.i .LW (small (field h 2 3)) (small (field h 7 3)) (lwImm h))
  | 0b011 => .base (.i .FLW (small (field h 2 3)) (small (field h 7 3)) (lwImm h))
  | 0b101 => .base (.s .FSD (small (field h 7 3)) (small (field h 2 3)) (ldImm h))
  | 0b110 => .base (.s .SW (small (field h 7 3)) (small (field h 2 3)) (lwImm h))
  | 0b111 => .base (.s .FSW (small (field h 7 3)) (small (field h 2 3)) (lwImm h))
  | _ => .undefined

/-- The arithmetic group of quadrant 1. -/
def quadrant1Arith : Outcome :=
  match (field h 10 2).toNat with
  | 0b00 =>
    if field h 12 1 = 1#1 then .undefined
    else if field h 2 5 = 0#5 then .noEffect
    else .base (.shift .SRLI (small (field h 7 3)) (small (field h 7 3)) (field h 2 5))
  | 0b01 =>
    if field h 12 1 = 1#1 then .undefined
    else if field h 2 5 = 0#5 then .noEffect
    else .base (.shift .SRAI (small (field h 7 3)) (small (field h 7 3)) (field h 2 5))
  | 0b10 =>
    .base (.i .ANDI (small (field h 7 3)) (small (field h 7 3)) ((ciImm h).signExtend 12))
  | _ =>
    if field h 12 1 = 1#1 then .undefined
    else
      match (field h 5 2).toNat with
      | 0b00 => .base (.r .SUB (small (field h 7 3)) (small (field h 7 3)) (small (field h 2 3)))
      | 0b01 => .base (.r .XOR (small (field h 7 3)) (small (field h 7 3)) (small (field h 2 3)))
      | 0b10 => .base (.r .OR (small (field h 7 3)) (small (field h 7 3)) (small (field h 2 3)))
      | _ => .base (.r .AND (small (field h 7 3)) (small (field h 7 3)) (small (field h 2 3)))

def quadrant1 : Outcome :=
  match (field h 13 3).toNat with
  | 0b000 =>
    if field h 7 5 = 0#5 ∨ ciImm h = 0#6 then .noEffect
    else .base (.i .ADDI (field h 7 5) (field h 7 5) ((ciImm h).signExtend 12))
  | 0b001 => .base (.j .JAL 1#5 ((jumpImm h).signExtend 21))
  | 0b010 =>
    if field h 7 5 = 0#5 then .noEffect
    else .base (.i .ADDI (field h 7 5) 0#5 ((ciImm h).signExtend 12))
  | 0b011 =>
    if field h 7 5 = 2#5 then
      if addi16spImm h = 0#10 then .undefined
      else .base (.i .ADDI 2#5 2#5 ((addi16spImm h).signExtend 12))
    else if ciImm h = 0#6 then .undefined
    else if field h 7 5 = 0#5 then .noEffect
    else .base (.u .LUI (field h 7 5) ((ciImm h).signExtend 20))
  | 0b100 => quadrant1Arith h
  | 0b101 => .base (.j .JAL 0#5 ((jumpImm h).signExtend 21))
  | 0b110 => .base (.b .BEQ (small (field h 7 3)) 0#5 ((branchImm h).signExtend 13))
  | _ => .base (.b .BNE (small (field h 7 3)) 0#5 ((branchImm h).signExtend 13))

def quadrant2 : Outcome :=
  match (field h 13 3).toNat with
  | 0b000 =>
    if field h 12 1 = 1#1 then .undefined
    else if field h 7 5 = 0#5 ∨ field h 2 5 = 0#5 then .noEffect
    else .base (.shift .SLLI (field h 7 5) (field h 7 5) (field h 2 5))
  | 0b001 => .base (.i .FLD (field h 7 5) 2#5 (ldspImm h))
  | 0b010 => if field h 7 5 = 0#5 then .undefined else .base (.i .LW (field h 7 5) 2#5 (lwspImm h))
  | 0b011 => .base (.i .FLW (field h 7 5) 2#5 (lwspImm h))
  | 0b100 =>
    if field h 12 1 = 0#1 then
      if field h 2 5 = 0#5 then
        if field h 7 5 = 0#5 then .undefined else .base (.i .JALR 0#5 (field h 7 5) 0#12)
      else
        if field h 7 5 = 0#5 then .noEffect
        else .base (.r .ADD (field h 7 5) 0#5 (field h 2 5))
    else
      if field h 2 5 = 0#5 then
        if field h 7 5 = 0#5 then .base (.system .EBREAK)
        else .base (.i .JALR 1#5 (field h 7 5) 0#12)
      else
        if field h 7 5 = 0#5 then .noEffect
        else .base (.r .ADD (field h 7 5) (field h 7 5) (field h 2 5))
  | 0b101 => .base (.s .FSD 2#5 (field h 2 5) (sdspImm h))
  | 0b110 => .base (.s .SW 2#5 (field h 2 5) (swspImm h))
  | _ => .base (.s .FSW 2#5 (field h 2 5) (swspImm h))

/-- What RV32C assigns to a halfword whose low two bits are not both set. -/
def rvcTable : Outcome :=
  match (field h 0 2).toNat with
  | 0b00 => quadrant0 h
  | 0b01 => quadrant1 h
  | _ => quadrant2 h

end Table

end CoverageVP.Instr.Rvc
