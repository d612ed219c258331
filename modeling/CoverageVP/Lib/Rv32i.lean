import Mathlib.Data.BitVec

/-!
# The instructions of RV32I

The unprivileged base instruction set as an abstract machine of registers, a program counter and
bytes of memory. An instruction is decoded from its word and then either changes the machine or
raises one of the exceptions of a misaligned address. Calls of the environment, breakpoints and the
instructions for control and status registers depend on more than this machine and are left out.
-/

namespace CoverageVP.Lib.Rv32i

/-! ## Instructions -/

inductive BranchOp
  | beq | bne | blt | bge | bltu | bgeu
  deriving DecidableEq, Repr

inductive LoadOp
  | lb | lh | lw | lbu | lhu
  deriving DecidableEq, Repr

inductive StoreOp
  | sb | sh | sw
  deriving DecidableEq, Repr

/-- The operations on an immediate; all of them exist on two registers, too. -/
inductive ImmOp
  | add | slt | sltu | xor | or | and | sll | srl | sra
  deriving DecidableEq, Repr

def ImmOp.isShift : ImmOp → Bool
  | sll | srl | sra => true
  | _ => false

inductive AluOp
  | imm (op : ImmOp)
  | sub
  deriving DecidableEq, Repr

/-- The immediate of a shift is the amount. -/
inductive Instr
  | lui (rd : BitVec 5) (imm : BitVec 32)
  | auipc (rd : BitVec 5) (imm : BitVec 32)
  | jal (rd : BitVec 5) (offset : BitVec 32)
  | jalr (rd rs1 : BitVec 5) (offset : BitVec 32)
  | branch (op : BranchOp) (rs1 rs2 : BitVec 5) (offset : BitVec 32)
  | load (op : LoadOp) (rd rs1 : BitVec 5) (offset : BitVec 32)
  | store (op : StoreOp) (rs1 rs2 : BitVec 5) (offset : BitVec 32)
  | opImm (op : ImmOp) (rd rs1 : BitVec 5) (imm : BitVec 32)
  | op (op : AluOp) (rd rs1 rs2 : BitVec 5)
  | fence
  | fenceI
  deriving DecidableEq, Repr

/-! ## Decoding -/

section Decode

variable (w : BitVec 32)

def opcode : BitVec 7 := w.extractLsb' 0 7
def rd : BitVec 5 := w.extractLsb' 7 5
def funct3 : BitVec 3 := w.extractLsb' 12 3
def rs1 : BitVec 5 := w.extractLsb' 15 5
def rs2 : BitVec 5 := w.extractLsb' 20 5
def funct7 : BitVec 7 := w.extractLsb' 25 7

def immI : BitVec 32 := (w.extractLsb' 20 12).signExtend 32

def immS : BitVec 32 := (w.extractLsb' 25 7 ++ w.extractLsb' 7 5).signExtend 32

def immB : BitVec 32 :=
  (w.extractLsb' 31 1 ++ w.extractLsb' 7 1 ++ w.extractLsb' 25 6 ++ w.extractLsb' 8 4 ++
    0#1).signExtend 32

def immU : BitVec 32 := w.extractLsb' 12 20 ++ 0#12

def immJ : BitVec 32 :=
  (w.extractLsb' 31 1 ++ w.extractLsb' 12 8 ++ w.extractLsb' 20 1 ++ w.extractLsb' 21 10 ++
    0#1).signExtend 32

def shamt : BitVec 32 := (rs2 w).setWidth 32

def branchOp : Option BranchOp :=
  if funct3 w = 0b000#3 then some .beq
  else if funct3 w = 0b001#3 then some .bne
  else if funct3 w = 0b100#3 then some .blt
  else if funct3 w = 0b101#3 then some .bge
  else if funct3 w = 0b110#3 then some .bltu
  else if funct3 w = 0b111#3 then some .bgeu
  else none

def loadOp : Option LoadOp :=
  if funct3 w = 0b000#3 then some .lb
  else if funct3 w = 0b001#3 then some .lh
  else if funct3 w = 0b010#3 then some .lw
  else if funct3 w = 0b100#3 then some .lbu
  else if funct3 w = 0b101#3 then some .lhu
  else none

def storeOp : Option StoreOp :=
  if funct3 w = 0b000#3 then some .sb
  else if funct3 w = 0b001#3 then some .sh
  else if funct3 w = 0b010#3 then some .sw
  else none

def immOp : Option ImmOp :=
  if funct3 w = 0b000#3 then some .add
  else if funct3 w = 0b010#3 then some .slt
  else if funct3 w = 0b011#3 then some .sltu
  else if funct3 w = 0b100#3 then some .xor
  else if funct3 w = 0b110#3 then some .or
  else if funct3 w = 0b111#3 then some .and
  else none

/-- A shift by an immediate has the minor opcode of a shift by a register. -/
def shiftOp : Option ImmOp :=
  if funct3 w = 0b001#3 ∧ funct7 w = 0b0000000#7 then some .sll
  else if funct3 w = 0b101#3 ∧ funct7 w = 0b0000000#7 then some .srl
  else if funct3 w = 0b101#3 ∧ funct7 w = 0b0100000#7 then some .sra
  else none

def aluOp : Option AluOp :=
  if funct7 w = 0b0000000#7 then ((immOp w).or (shiftOp w)).map .imm
  else if funct7 w = 0b0100000#7 then
    if funct3 w = 0b000#3 then some .sub else (shiftOp w).map .imm
  else none

def decode : Option Instr :=
  if opcode w = 0b0110111#7 then some (.lui (rd w) (immU w))
  else if opcode w = 0b0010111#7 then some (.auipc (rd w) (immU w))
  else if opcode w = 0b1101111#7 then some (.jal (rd w) (immJ w))
  else if opcode w = 0b1100111#7 then
    if funct3 w = 0b000#3 then some (.jalr (rd w) (rs1 w) (immI w)) else none
  else if opcode w = 0b1100011#7 then
    (branchOp w).map fun op ↦ .branch op (rs1 w) (rs2 w) (immB w)
  else if opcode w = 0b0000011#7 then (loadOp w).map fun op ↦ .load op (rd w) (rs1 w) (immI w)
  else if opcode w = 0b0100011#7 then (storeOp w).map fun op ↦ .store op (rs1 w) (rs2 w) (immS w)
  else if opcode w = 0b0010011#7 then
    ((immOp w).map fun op ↦ .opImm op (rd w) (rs1 w) (immI w)).or
      ((shiftOp w).map fun op ↦ .opImm op (rd w) (rs1 w) (shamt w))
  else if opcode w = 0b0110011#7 then (aluOp w).map fun op ↦ .op op (rd w) (rs1 w) (rs2 w)
  else if opcode w = 0b0001111#7 then
    if funct3 w = 0b000#3 then some .fence
    else if funct3 w = 0b001#3 then some .fenceI
    else none
  else none

end Decode

/-! ## Execution -/

structure Machine where
  regs : BitVec 5 → BitVec 32
  pc : BitVec 32
  mem : BitVec 32 → BitVec 8

/-- The exceptions of a misaligned address. -/
inductive Cause
  | instrAddrMisaligned | loadAddrMisaligned | storeAddrMisaligned
  deriving DecidableEq, Repr

structure Fault where
  cause : Cause
  addr : BitVec 32
  deriving DecidableEq, Repr

def BranchOp.taken (a b : BitVec 32) : BranchOp → Bool
  | beq => a = b
  | bne => a ≠ b
  | blt => a.slt b
  | bge => b.sle a
  | bltu => a.ult b
  | bgeu => b.ule a

/-- Comparisons give zero or one, and the amount of a shift is in the low five bits. -/
def ImmOp.eval (a b : BitVec 32) : ImmOp → BitVec 32
  | add => a + b
  | slt => if a.slt b then 1#32 else 0#32
  | sltu => if a.ult b then 1#32 else 0#32
  | xor => a ^^^ b
  | or => a ||| b
  | and => a &&& b
  | sll => a <<< b.extractLsb' 0 5
  | srl => a >>> b.extractLsb' 0 5
  | sra => a.sshiftRight (b.extractLsb' 0 5).toNat

def AluOp.eval (a b : BitVec 32) : AluOp → BitVec 32
  | imm op => op.eval a b
  | sub => a - b

def LoadOp.bytes : LoadOp → Nat
  | lb | lbu => 1
  | lh | lhu => 2
  | lw => 4

def StoreOp.bytes : StoreOp → Nat
  | sb => 1
  | sh => 2
  | sw => 4

namespace Machine

variable (m : Machine)

/-- The lower address holds the lower byte. -/
def half (addr : BitVec 32) : BitVec 16 := m.mem (addr + 1#32) ++ m.mem addr

def word (addr : BitVec 32) : BitVec 32 :=
  m.mem (addr + 3#32) ++ (m.mem (addr + 2#32) ++ m.half addr)

def loaded (addr : BitVec 32) : LoadOp → BitVec 32
  | .lb => (m.mem addr).signExtend 32
  | .lbu => (m.mem addr).setWidth 32
  | .lh => (m.half addr).signExtend 32
  | .lhu => (m.half addr).setWidth 32
  | .lw => m.word addr

def stored (addr value : BitVec 32) (n : Nat) (a : BitVec 32) : BitVec 8 :=
  if (a - addr).toNat < n then value.extractLsb' ((a - addr).toNat * 8) 8 else m.mem a

/-- Writes to `x0` have no effect. -/
def written (rd : BitVec 5) (value : BitVec 32) (i : BitVec 5) : BitVec 32 :=
  if i = rd ∧ rd ≠ 0#5 then value else m.regs i

def advance : Machine := { m with pc := m.pc + 4#32 }

def retire (rd : BitVec 5) (value : BitVec 32) : Machine :=
  { m with regs := m.written rd value, pc := m.pc + 4#32 }

/-- The target of a jump that is taken has to be aligned. -/
def jump (ialign : Nat) (target : BitVec 32) (regs : BitVec 5 → BitVec 32) : Except Fault Machine :=
  if target.toNat % ialign = 0 then .ok { m with regs := regs, pc := target }
  else .error ⟨.instrAddrMisaligned, target⟩

/-- The execution of an instruction. Instructions are aligned to `ialign` bytes, and data to its own
size. -/
def execute (ialign : Nat) : Instr → Except Fault Machine
  | .lui rd imm => .ok (m.retire rd imm)
  | .auipc rd imm => .ok (m.retire rd (m.pc + imm))
  | .jal rd offset => m.jump ialign (m.pc + offset) (m.written rd (m.pc + 4#32))
  | .jalr rd rs1 offset =>
    m.jump ialign ((m.regs rs1 + offset) &&& ~~~1#32) (m.written rd (m.pc + 4#32))
  | .branch op rs1 rs2 offset =>
    if op.taken (m.regs rs1) (m.regs rs2) then m.jump ialign (m.pc + offset) m.regs
    else .ok m.advance
  | .load op rd rs1 offset =>
    let addr := m.regs rs1 + offset
    if addr.toNat % op.bytes = 0 then .ok (m.retire rd (m.loaded addr op))
    else .error ⟨.loadAddrMisaligned, addr⟩
  | .store op rs1 rs2 offset =>
    let addr := m.regs rs1 + offset
    if addr.toNat % op.bytes = 0 then
      .ok { m.advance with mem := m.stored addr (m.regs rs2) op.bytes }
    else .error ⟨.storeAddrMisaligned, addr⟩
  | .opImm op rd rs1 imm => .ok (m.retire rd (op.eval (m.regs rs1) imm))
  | .op op rd rs1 rs2 => .ok (m.retire rd (op.eval (m.regs rs1) (m.regs rs2)))
  | .fence => .ok m.advance
  | .fenceI => .ok m.advance

/-- The bytes that an instruction loads or stores. -/
def access : Instr → Option (BitVec 32 × Nat)
  | .load op _ rs1 offset => some (m.regs rs1 + offset, op.bytes)
  | .store op rs1 _ offset => some (m.regs rs1 + offset, op.bytes)
  | _ => none

theorem written_zero (rd : BitVec 5) (value : BitVec 32) : m.written rd value 0#5 = m.regs 0#5 := by
  refine if_neg ?_
  rintro ⟨h, hne⟩
  exact hne h.symm

theorem regs_zero_of_jump {m' : Machine} {ialign : Nat} {target : BitVec 32}
    {regs : BitVec 5 → BitVec 32} (h : m.jump ialign target regs = .ok m') :
    m'.regs 0#5 = regs 0#5 := by
  unfold jump at h
  split at h <;> cases h
  rfl

/-- No instruction changes `x0`. -/
theorem regs_zero_of_execute {m' : Machine} {ialign : Nat} {i : Instr}
    (h : m.execute ialign i = .ok m') : m'.regs 0#5 = m.regs 0#5 := by
  cases i with
  | lui | auipc | opImm | op =>
    cases h
    exact m.written_zero _ _
  | jal | jalr => exact (m.regs_zero_of_jump h).trans (m.written_zero _ _)
  | branch =>
    rw [execute] at h
    split at h
    · exact m.regs_zero_of_jump h
    · cases h
      rfl
  | load =>
    rw [execute] at h
    split at h <;> cases h
    exact m.written_zero _ _
  | store =>
    rw [execute] at h
    split at h <;> cases h
    rfl
  | fence | fenceI =>
    cases h
    rfl

end Machine

end CoverageVP.Lib.Rv32i
