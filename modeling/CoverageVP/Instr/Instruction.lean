import CoverageVP.Instr.Opcode

/-!
# Instruction words and their fields

An instruction is a signed 32-bit word, so a right shift of a field that holds the top bit extends
the sign. The accessors below follow the source's expressions; where the source casts to an
unsigned word first, the shift is the logical one.
-/

namespace CoverageVP.Instr

open Lib

abbrev Instruction := BitVec 32

def bitSlice (w : BitVec 32) (upper lower : Nat) : BitVec 32 :=
  (bitRange w upper lower).sshiftRight lower

def bitSingle (w : BitVec 32) (pos : Nat) : BitVec 32 := w &&& (1#32 <<< pos)

def bitSingleP1 (w : BitVec 32) (pos : Nat) : BitVec 32 := (bitSingle w pos).sshiftRight pos

def bitSinglePN (w : BitVec 32) (pos newPos : Nat) : BitVec 32 := bitSingleP1 w pos <<< newPos

def extractSignBit (w : BitVec 32) (pos newPos : Nat) : BitVec 32 :=
  (bitSingleP1 w pos <<< 31).sshiftRight (31 - newPos)

namespace Instruction

variable (instr : Instruction)

def quadrant : BitVec 32 := instr &&& 0x3#32
def isCompressed : Bool := (quadrant instr).toNat < 3
def cFormat : BitVec 32 := instr &&& 0xffff#32
def opcode : BitVec 32 := bitRange instr 6 0
def rd : BitVec 32 := bitSlice instr 11 7
def rs1 : BitVec 32 := bitSlice instr 19 15
def rs2 : BitVec 32 := bitSlice instr 24 20
def cOpcode : BitVec 32 := bitSlice instr 15 13
def cB12 : BitVec 32 := bitSingleP1 instr 12
def cRd : BitVec 32 := rd instr
def cRdSmall : BitVec 32 := bitSlice instr 9 7 ||| 8#32
def cRs2Small : BitVec 32 := bitSlice instr 4 2 ||| 8#32
def cRs2 : BitVec 32 := bitSlice instr 6 2
def cImm : BitVec 32 := bitSlice instr 6 2 ||| extractSignBit instr 12 5
def cUimm : BitVec 32 := bitSlice instr 6 2 ||| (bitSingleP1 instr 12 <<< 5)
def cF2High : BitVec 32 := bitSlice instr 11 10
def cF2Low : BitVec 32 := bitSlice instr 6 5
def csr : BitVec 32 := bitRange instr 31 20 >>> 20
def zimm : BitVec 32 := bitSlice instr 19 15
def shamt : BitVec 32 := bitSlice instr 25 20
def funct2 : BitVec 32 := bitSlice instr 26 25
def funct3 : BitVec 32 := bitSlice instr 14 12
def funct12 : BitVec 32 := bitRange instr 31 20 >>> 20
def funct7 : BitVec 32 := bitRange instr 31 25 >>> 25
def funct6 : BitVec 32 := bitRange instr 31 26 >>> 26
def funct5 : BitVec 32 := bitRange instr 31 27 >>> 27
def iImm : BitVec 32 := bitSlice instr 31 20

def jImm : BitVec 32 :=
  (bitSingle instr 31).sshiftRight 11 ||| bitRange instr 19 12 |||
    (bitSingle instr 20).sshiftRight 9 ||| (bitRange instr 30 21).sshiftRight 20

def sImm : BitVec 32 :=
  (bitRange instr 31 25).sshiftRight 20 ||| (bitRange instr 11 7).sshiftRight 7

def bImm : BitVec 32 :=
  (bitSingle instr 31).sshiftRight 19 ||| (bitSingle instr 7) <<< 4 |||
    (bitRange instr 30 25).sshiftRight 20 ||| (bitRange instr 11 8).sshiftRight 7

def uImm : BitVec 32 := bitRange instr 31 12

/-! ## Fields of words known under a mask -/

section Masked

variable {instr} {mask known : Instruction}

theorem bitSlice_of_masked {upper lower : Nat} (h : instr &&& mask = known)
    (hsub : bitRange mask upper lower = bitRange (BitVec.allOnes 32) upper lower) :
    bitSlice instr upper lower = bitSlice known upper lower := by
  unfold bitSlice
  rw [bitRange_eq_of_masked h hsub]

theorem opcode_of_masked (h : instr &&& mask = known)
    (hsub : bitRange mask 6 0 = bitRange (BitVec.allOnes 32) 6 0) : instr.opcode = known.opcode :=
  bitRange_eq_of_masked h hsub

theorem funct2_of_masked (h : instr &&& mask = known)
    (hsub : bitRange mask 26 25 = bitRange (BitVec.allOnes 32) 26 25) :
    instr.funct2 = known.funct2 :=
  bitSlice_of_masked h hsub

theorem funct3_of_masked (h : instr &&& mask = known)
    (hsub : bitRange mask 14 12 = bitRange (BitVec.allOnes 32) 14 12) :
    instr.funct3 = known.funct3 :=
  bitSlice_of_masked h hsub

theorem rs2_of_masked (h : instr &&& mask = known)
    (hsub : bitRange mask 24 20 = bitRange (BitVec.allOnes 32) 24 20) : instr.rs2 = known.rs2 :=
  bitSlice_of_masked h hsub

theorem funct5_of_masked (h : instr &&& mask = known)
    (hsub : bitRange mask 31 27 = bitRange (BitVec.allOnes 32) 31 27) :
    instr.funct5 = known.funct5 := by
  unfold funct5
  rw [bitRange_eq_of_masked h hsub]

theorem funct6_of_masked (h : instr &&& mask = known)
    (hsub : bitRange mask 31 26 = bitRange (BitVec.allOnes 32) 31 26) :
    instr.funct6 = known.funct6 := by
  unfold funct6
  rw [bitRange_eq_of_masked h hsub]

theorem funct7_of_masked (h : instr &&& mask = known)
    (hsub : bitRange mask 31 25 = bitRange (BitVec.allOnes 32) 31 25) :
    instr.funct7 = known.funct7 := by
  unfold funct7
  rw [bitRange_eq_of_masked h hsub]

theorem funct12_of_masked (h : instr &&& mask = known)
    (hsub : bitRange mask 31 20 = bitRange (BitVec.allOnes 32) 31 20) :
    instr.funct12 = known.funct12 := by
  unfold funct12
  rw [bitRange_eq_of_masked h hsub]

end Masked

end Instruction

end CoverageVP.Instr
