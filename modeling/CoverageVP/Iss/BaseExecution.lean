import CoverageVP.Instr.Base
import CoverageVP.Iss.Accesses

/-!
# The execution of RV32I

The concrete parts of the registers and the memory are a machine of RV32I. The results that the core
computes as concolic values have the concrete parts that the instruction set prescribes, for each
operation and at each width; an instruction that is executed changes the machine accordingly, or
traps where the instruction set demands it.
-/

namespace CoverageVP.Iss

open Lib Clover Instr

/-! ## Words -/

theorem concrete_of_width {value : ConcolicValue} (h : value.getWidth = 32) :
    value.concrete = ⟨32, getValue value⟩ := by
  obtain ⟨⟨width, bits⟩, symbolic, tainted⟩ := value
  obtain rfl : width = 32 := h
  refine congrArg (BV.mk 32) ?_
  exact ((BitVec.ofNat_toNat 32 bits).trans (BitVec.setWidth_eq bits)).symm

theorem getValue_of_concrete {value : ConcolicValue} {x : BitVec 32}
    (h : value.concrete = ⟨32, x⟩) : getValue value = x := by
  rw [getValue, h]
  exact (BitVec.ofNat_toNat 32 x).trans (BitVec.setWidth_eq x)

theorem concrete_constant (x : BitVec 32) : (constant x).concrete = ⟨32, x⟩ := by
  rw [constant_eq]

theorem getValue_constant (x : BitVec 32) : getValue (constant x) = x :=
  getValue_of_concrete (concrete_constant x)

theorem concrete_register (regs : RegFile) (i : BitVec 5) :
    (regs i).concrete = ⟨32, getValue (regs i)⟩ :=
  concrete_of_width (regs.width_value i)

/-- A narrower value is extended with zeros when it is written. -/
theorem getValue_write (regs : RegFile) (index i : BitVec 5) {value : ConcolicValue}
    (h : value.getWidth ≤ 32) :
    getValue (regs.write index value i) =
      if i = index then getValue value else getValue (regs i) := by
  split
  case isFalse hne => rw [RegFile.write_of_ne _ _ hne]
  case isTrue heq =>
    rw [heq, RegFile.write]
    split
    case isTrue hlt =>
      rw [RegFile.set_self]
      refine congrArg (BitVec.ofNat 32) ?_
      exact BitVec.toNat_setWidth_of_le h
    case isFalse hle =>
      rw [dif_pos (Nat.le_antisymm h (Nat.not_lt.mp hle)), RegFile.set_self]

theorem getValue_taint (regs : RegFile) (index i : BitVec 5) :
    getValue (regs.taint index i) = getValue (regs i) := by
  change getValue (if i = index then (regs index).taint else regs i) = _
  split
  case isTrue h =>
    rw [h]
    rfl
  case isFalse => rfl

/-- The operation of the solver that computes a result. -/
def binOp : Rv32i.ImmOp → BinOp
  | .add => .Add
  | .slt => .Slt
  | .sltu => .Ult
  | .xor => .Xor
  | .or => .Or
  | .and => .And
  | .sll => .Shl
  | .srl => .LShr
  | .sra => .AShr

/-- The concrete part of a result is a word or, for a comparison, a bit. -/
structure Computes (value : ConcolicValue) (x : BitVec 32) : Prop where
  width : value.getWidth ≤ 32
  word : getValue value = x

theorem computes_of_concrete {value : ConcolicValue} {x : BitVec 32}
    (h : value.concrete = ⟨32, x⟩) : Computes value x := by
  refine ⟨?_, getValue_of_concrete h⟩
  rw [ConcolicValue.getWidth, h]

theorem computes_of_ofBool {value : ConcolicValue} {b : Bool}
    (h : value.concrete = .ofBool b) : Computes value (if b then 1#32 else 0#32) := by
  constructor
  · rw [ConcolicValue.getWidth, h]
    exact Nat.one_le_two_pow (n := 5)
  · rw [getValue, h]
    cases b <;> rfl

section Results

variable {a b : ConcolicValue} {x y : BitVec 32} (ha : a.concrete = ⟨32, x⟩)

include ha

theorem concrete_binaryOperator (op : BinOp) (hb : b.concrete = ⟨32, y⟩) :
    (ConcolicValue.binaryOperator op a b).concrete = op.eval ⟨32, x⟩ ⟨32, y⟩ := by
  rw [ConcolicValue.binaryOperator, ha, hb]

theorem computes_binOp {op : Rv32i.ImmOp} (hop : op.isShift = false)
    (hb : b.concrete = ⟨32, y⟩) :
    Computes (ConcolicValue.binaryOperator (binOp op) a b) (op.eval x y) := by
  have hconcrete := concrete_binaryOperator ha (binOp op) hb
  cases op with
  | slt | sltu =>
    apply computes_of_ofBool
    rw [hconcrete]
    simp only [binOp, BinOp.eval, BitVec.setWidth_eq]
  | add | xor | or | and =>
    apply computes_of_concrete
    rw [hconcrete]
    simp only [binOp, BinOp.eval, BitVec.setWidth_eq, Rv32i.ImmOp.eval]
  | sll | srl | sra => cases hop

/-- The amount of a shift is a word with five bits. -/
theorem computes_shift {op : Rv32i.ImmOp} (hop : op.isShift = true)
    (hb : b.concrete = ⟨32, (y.extractLsb' 0 5).setWidth 32⟩) :
    Computes (ConcolicValue.binaryOperator (binOp op) a b) (op.eval x y) := by
  have hconcrete := concrete_binaryOperator ha (binOp op) hb
  have hamount : ((y.extractLsb' 0 5).setWidth 32).toNat = (y.extractLsb' 0 5).toNat :=
    BitVec.toNat_setWidth_of_le (by decide)
  apply computes_of_concrete
  rw [hconcrete]
  cases op with
  | sll | srl | sra =>
    simp only [binOp, BinOp.eval, BitVec.setWidth_eq, Rv32i.ImmOp.eval, BitVec.shiftLeft_eq',
      BitVec.ushiftRight_eq', hamount]
  | add | slt | sltu | xor | or | and => cases hop

theorem computes_sub (hb : b.concrete = ⟨32, y⟩) : Computes (a.sub b) (x - y) := by
  apply computes_of_concrete
  rw [ConcolicValue.sub, concrete_binaryOperator ha .Sub hb]
  simp only [BinOp.eval, BitVec.setWidth_eq]

theorem concrete_add (hb : b.concrete = ⟨32, y⟩) : (a.add b).concrete = ⟨32, x + y⟩ := by
  rw [ConcolicValue.add, concrete_binaryOperator ha .Add hb]
  simp only [BinOp.eval, BitVec.setWidth_eq]

end Results

/-! ## Registers and memory as a machine -/

namespace State

variable (s : State)

/-- The machine of the concrete parts. -/
def machine : Rv32i.Machine := ⟨fun i ↦ getValue (s.regs i), s.pc, s.mem.concreteByte⟩

/-- The machine before the instruction that is executed. -/
def before : Rv32i.Machine := { s.machine with pc := s.lastPc }

/-- The alignment of instructions in bytes. -/
def ialign : Nat := if s.csrs.hasCExtension then 2 else 4

theorem concrete_rs1 : (s.regs s.rs1).concrete = ⟨32, s.before.regs (Rv32i.rs1 s.instr)⟩ := by
  rw [rs1, s.instr.rs1_eq]
  exact concrete_register _ _

theorem concrete_rs2 : (s.regs s.rs2).concrete = ⟨32, s.before.regs (Rv32i.rs2 s.instr)⟩ := by
  rw [rs2, s.instr.rs2_eq]
  exact concrete_register _ _

theorem rd_eq : s.rd = Rv32i.rd s.instr := s.instr.rd_eq

theorem concrete_iImm : s.iImm.concrete = ⟨32, Rv32i.immI s.instr⟩ := by
  rw [← s.instr.iImm_eq]
  change BV.sext (constant s.instr.iImm).concrete 32 = _
  rw [concrete_constant, BV.sext, BitVec.signExtend_eq]

theorem concrete_sImm : s.sImm.concrete = ⟨32, Rv32i.immS s.instr⟩ := by
  rw [← s.instr.sImm_eq]
  change BV.sext (constant s.instr.sImm).concrete 32 = _
  rw [concrete_constant, BV.sext, BitVec.signExtend_eq]

theorem concrete_uImm : s.uImm.concrete = ⟨32, Rv32i.immU s.instr⟩ := by
  rw [← s.instr.uImm_eq]
  exact concrete_constant _

theorem concrete_shamtImm (h : s.instr.getLsbD 25 = false) :
    s.shamtImm.concrete = ⟨32, ((Rv32i.shamt s.instr).extractLsb' 0 5).setWidth 32⟩ := by
  have hamount : (Rv32i.shamt s.instr).extractLsb' 0 5 = Rv32i.rs2 s.instr := by
    rw [← BitVec.setWidth_eq_extractLsb' (by decide), Rv32i.shamt,
      BitVec.setWidth_setWidth_of_le _ (by decide), BitVec.setWidth_eq]
  rw [hamount]
  change (constant s.instr.shamt).concrete = _
  rw [s.instr.shamt_eq h]
  exact concrete_constant _

theorem concrete_shamt :
    (s.regs.shamt s.rs2).concrete =
      ⟨32, ((s.before.regs (Rv32i.rs2 s.instr)).extractLsb' 0 5).setWidth 32⟩ := by
  change BV.zext (BV.extract (s.regs s.rs2).concrete 0 5) 32 = _
  rw [s.concrete_rs2]
  rfl

theorem registerResult_opImm {op : Rv32i.ImmOp} (hop : op.isShift = false) :
    s.registerResult (immOpcode op) =
      some (ConcolicValue.binaryOperator (binOp op) (s.regs s.rs1) s.iImm) := by
  cases op <;> first
    | rfl
    | cases hop

theorem registerResult_shiftImm {op : Rv32i.ImmOp} (hop : op.isShift = true) :
    s.registerResult (immOpcode op) =
      some (ConcolicValue.binaryOperator (binOp op) (s.regs s.rs1) s.shamtImm) := by
  cases op <;> first
    | rfl
    | cases hop

/-- The operations on two registers. -/
theorem registerResult_op (op : Rv32i.AluOp) :
    ∃ value, s.registerResult (aluOpcode op) = some value ∧
      Computes value (op.eval (s.before.regs (Rv32i.rs1 s.instr))
        (s.before.regs (Rv32i.rs2 s.instr))) := by
  cases op with
  | sub => exact ⟨_, rfl, computes_sub s.concrete_rs1 s.concrete_rs2⟩
  | imm op =>
    cases hop : op.isShift with
    | false =>
      refine ⟨_, ?_, computes_binOp s.concrete_rs1 hop s.concrete_rs2⟩
      cases op <;> first
        | rfl
        | cases hop
    | true =>
      refine ⟨_, ?_, computes_shift s.concrete_rs1 hop s.concrete_shamt⟩
      cases op <;> first
        | rfl
        | cases hop

/-- The conditions of the branches. -/
theorem branchResult_branchOpcode (op : Rv32i.BranchOp) :
    ∃ res, s.branchResult (branchOpcode op) = some res ∧
      evalCondition res = op.taken (s.before.regs (Rv32i.rs1 s.instr))
        (s.before.regs (Rv32i.rs2 s.instr)) := by
  have hconcrete := fun op ↦ concrete_binaryOperator s.concrete_rs1 op s.concrete_rs2
  have htrue : ∀ b, decide (BV.ofBool b = BV.ofBool true) = b := by decide
  cases op
  all_goals
    refine ⟨_, rfl, ?_⟩
    simp only [evalCondition, ConcolicValue.eq, ConcolicValue.ne, ConcolicValue.slt,
      ConcolicValue.sge, ConcolicValue.ult, ConcolicValue.uge, hconcrete, BinOp.eval,
      BitVec.setWidth_eq, Rv32i.BranchOp.taken, htrue]
  case beq => exact beq_eq_decide _ _
  case bne => simp only [bne, beq_eq_decide, ne_eq, decide_not]

end State

/-! ## Loads and stores -/

theorem concrete_byteAt (m : ConcolicMemory) (addr : BitVec 32) :
    (m.byteAt addr).concrete = ⟨8, m.concreteByte addr⟩ := by
  have hwidth : (m.byteAt addr).concrete.width = 8 := m.width_byteAt addr
  rw [ConcolicMemory.concreteByte]
  generalize (m.byteAt addr).concrete = byte at hwidth
  obtain ⟨width, bits⟩ := byte
  obtain rfl : width = 8 := hwidth
  refine congrArg (BV.mk 8) ?_
  exact ((BitVec.ofNat_toNat 8 bits).trans (BitVec.setWidth_eq bits)).symm

def loadOp : Rv32i.LoadOp → LoadOp
  | .lb => .LB
  | .lh => .LH
  | .lw => .LW
  | .lbu => .LBU
  | .lhu => .LHU

def storeOp : Rv32i.StoreOp → StoreOp
  | .sb => .SB
  | .sh => .SH
  | .sw => .SW

theorem numBytes_loadOp (op : Rv32i.LoadOp) : (loadOp op).numBytes = op.bytes := by
  cases op <;> rfl

theorem numBytes_storeOp (op : Rv32i.StoreOp) : (storeOp op).numBytes = op.bytes := by
  cases op <;> rfl

section Load

variable {m : ConcolicMemory} {addr : BitVec 32} {data : ConcolicValue}

theorem concrete_load_one (h : m.load addr 1 = some data) :
    data.concrete = ⟨8, m.concreteByte addr⟩ := by
  obtain rfl := Option.some.inj h
  change (m.byteAt (addr + 0#32)).concrete = _
  rw [BitVec.add_zero]
  exact concrete_byteAt m addr

theorem concrete_load_two (h : m.load addr 2 = some data) :
    data.concrete = ⟨16, m.concreteByte (addr + 1#32) ++ m.concreteByte addr⟩ := by
  obtain rfl := Option.some.inj h
  change BinOp.Concat.eval (m.byteAt (addr + 1#32)).concrete (m.byteAt (addr + 0#32)).concrete = _
  rw [BitVec.add_zero, concrete_byteAt, concrete_byteAt]
  rfl

theorem concrete_load_four (h : m.load addr 4 = some data) :
    data.concrete = ⟨32, wordAt m addr⟩ := by
  obtain rfl := Option.some.inj h
  change BinOp.Concat.eval (m.byteAt (addr + 3#32)).concrete
    (BinOp.Concat.eval (m.byteAt (addr + 2#32)).concrete
      (BinOp.Concat.eval (m.byteAt (addr + 1#32)).concrete (m.byteAt (addr + 0#32)).concrete)) = _
  rw [concrete_byteAt, concrete_byteAt, concrete_byteAt, concrete_byteAt]
  rfl

end Load

theorem word_before (s : State) (addr : BitVec 32) : s.before.word addr = wordAt s.mem addr := by
  rw [wordAt, BitVec.add_zero]
  rfl

theorem concrete_sext {data : ConcolicValue} {n : Nat} {x : BitVec n}
    (h : data.concrete = ⟨n, x⟩) : (data.sext 32).concrete = ⟨32, x.signExtend 32⟩ := by
  change data.concrete.sext 32 = _
  rw [h]
  rfl

theorem concrete_zext {data : ConcolicValue} {n : Nat} {x : BitVec n}
    (h : data.concrete = ⟨n, x⟩) (hn : n < 32) :
    (if data.getWidth < 32 then data.zext 32 else data).concrete = ⟨32, x.setWidth 32⟩ := by
  have hwidth : data.getWidth < 32 := by
    rw [ConcolicValue.getWidth, h]
    exact hn
  rw [if_pos hwidth]
  change data.concrete.zext 32 = _
  rw [h]
  rfl

/-- A loaded value is extended as its operation demands. -/
theorem computes_load (s : State) (op : Rv32i.LoadOp) {addr : BitVec 32} {data : ConcolicValue}
    (h : s.mem.load addr op.bytes = some data) :
    Computes ((loadOp op).extend data) (s.before.loaded addr op) := by
  apply computes_of_concrete
  cases op with
  | lb => exact concrete_sext (concrete_load_one h)
  | lh => exact concrete_sext (concrete_load_two h)
  | lw =>
    rw [Rv32i.Machine.loaded, word_before]
    refine (concrete_sext (concrete_load_four h)).trans ?_
    rw [BitVec.signExtend_eq]
  | lbu => exact concrete_zext (concrete_load_one h) (by decide)
  | lhu => exact concrete_zext (concrete_load_two h) (by decide)

/-- A store leaves the bytes that the machine has after it. -/
theorem concreteByte_store_eq_stored (s : State) (op : Rv32i.StoreOp) (addr : BitVec 32)
    {value : ConcolicValue} {x : BitVec 32} (h : value.concrete = ⟨32, x⟩) :
    (s.mem.store addr value op.bytes).concreteByte = s.before.stored addr x op.bytes := by
  have hbytes : op.bytes ≤ 4 := by cases op <;> decide
  have hwidth : value.getWidth = 32 := by rw [ConcolicValue.getWidth, h]
  funext a
  rw [ConcolicMemory.concreteByte, ConcolicMemory.byteAt_store _ _ _ _ (by omega),
    Rv32i.Machine.stored]
  split
  case isTrue =>
    rw [if_neg (by omega)]
    change BitVec.ofNat 8 (value.concrete.extract _ 8).toNat = _
    rw [h]
    exact (BitVec.ofNat_toNat 8 _).trans (BitVec.setWidth_eq _)
  case isFalse => rfl

/-! ## Outcomes -/

def exceptionCode : Rv32i.Cause → ExceptionCode
  | .instrAddrMisaligned => .INSTR_ADDR_MISALIGNED
  | .loadAddrMisaligned => .LOAD_ADDR_MISALIGNED
  | .storeAddrMisaligned => .STORE_AMO_ADDR_MISALIGNED

/-- The state has the machine in it, but for `x0`, which is reset after the instruction. -/
structure State.Reflects (s : State) (m : Rv32i.Machine) : Prop where
  regs : ∀ i, i ≠ 0#5 → getValue (s.regs i) = m.regs i
  pc : s.pc = m.pc
  mem : s.mem.concreteByte = m.mem

/-- What instructions of RV32I leave alone. -/
structure ControlKept (s₀ s : State) : Prop extends Located s₀ s where
  csrs : s.csrs = s₀.csrs
  prv : s.prv = s₀.prv
  sys : s.sys = s₀.sys

theorem ControlKept.refl (s : State) : ControlKept s s := ⟨⟨rfl, rfl⟩, rfl, rfl, rfl⟩

/-- The instruction retires with the machine that it prescribes. -/
def Retires (s : State) (i : Rv32i.Instr) (s' : State) : Prop :=
  ControlKept s s' ∧ ∃ m, s.before.execute s.ialign i = .ok m ∧ s'.Reflects m

/-- The instruction traps as it prescribes, and has changed nothing else. -/
def Faults (s : State) (i : Rv32i.Instr) (e : Thrown) (s' : State) : Prop :=
  ControlKept s s' ∧ s'.regs = s.regs ∧ s'.mem = s.mem ∧
    ∃ f, s.before.execute s.ialign i = .error f ∧
      e = .trap (exceptionCode f.cause) (f.addr.setWidth 64)

/-- The program executes the instruction. -/
def Performs {α : Type} (s : State) (i : Rv32i.Instr) (m : IssM α) : Prop :=
  Triple (· = s) m (fun _ ↦ Retires s i) (Faults s i)

section Performs

variable {s : State} {i : Rv32i.Instr}

/-- The program counter is that of the next instruction. -/
theorem reflects_advance (hpc : s.pc = s.lastPc + 4#32) : s.Reflects s.before.advance :=
  ⟨fun _ _ ↦ rfl, hpc, rfl⟩

theorem reflects_written {value : ConcolicValue} {x : BitVec 32} (hvalue : Computes value x) :
    (s.writeReg s.rd value).Reflects
      ⟨s.before.written (Rv32i.rd s.instr) x, s.pc, s.before.mem⟩ := by
  refine ⟨fun i hi ↦ ?_, rfl, rfl⟩
  change getValue (s.regs.write s.rd value i) = s.before.written (Rv32i.rd s.instr) x i
  rw [getValue_write _ _ _ hvalue.width, hvalue.word, s.rd_eq, Rv32i.Machine.written]
  by_cases heq : i = Rv32i.rd s.instr
  · rw [if_pos heq, if_pos ⟨heq, heq ▸ hi⟩]
  · rw [if_neg heq, if_neg fun h ↦ heq h.1]
    rfl

/-- An instruction that computes a register. -/
theorem performs_register {value : ConcolicValue} {x : BitVec 32}
    (hvalue : Computes value x) (hpc : s.pc = s.lastPc + 4#32)
    (hi : s.before.execute s.ialign i = .ok (s.before.retire (Rv32i.rd s.instr) x)) :
    Performs s i (do modify (·.writeReg s.rd value); return false) := by
  refine Triple.bind (Q := fun _ ↦ Retires s i) (Triple.update fun s' hs' ↦ ?_) fun _ ↦
    Triple.ret fun _ h ↦ h
  rw [hs']
  refine ⟨⟨⟨rfl, rfl⟩, rfl, rfl, rfl⟩, _, hi, ?_⟩
  rw [Rv32i.Machine.retire]
  have hreflects := reflects_written (s := s) hvalue
  rw [hpc] at hreflects
  exact hreflects

theorem State.toNat_mod_ialign {target : BitVec 32} (heven : target &&& 1#32 = 0#32) :
    target.toNat % s.ialign = 0 ↔ ¬ (target &&& 3#32 ≠ 0#32 ∧ s.csrs.hasCExtension = false) := by
  rw [even_iff] at heven
  rw [Ne, aligned_iff, State.ialign]
  cases s.csrs.hasCExtension with
  | true => simpa using heven
  | false => simp

/-- A jump to an even address traps exactly if the machine does. -/
theorem triple_jump_ialign {target : BitVec 32} (heven : target &&& 1#32 = 0#32) :
    Triple (· = s) (jump target)
      (fun _ s' ↦ s' = { s with pc := target } ∧ target.toNat % s.ialign = 0)
      fun e s' ↦ s' = { s with pc := target } ∧ ¬ target.toNat % s.ialign = 0 ∧
        e = .trap .INSTR_ADDR_MISALIGNED (target.setWidth 64) := by
  rw [State.toNat_mod_ialign heven]
  refine Triple.bind (Q := fun _ s' ↦ s' = { s with pc := target })
    (Triple.update fun s' hs' ↦ by rw [hs']) fun _ ↦ Triple.read_bind fun s' hs' ↦ ?_
  rw [hs']
  refine Triple.bind (Q := fun _ s' ↦ s' = { s with pc := target })
    (triple_ensure (fun _ h _ ↦ h) fun _ _ hc ↦ absurd heven hc) fun _ ↦ ?_
  exact triple_raiseTrapIf (fun _ h hc ↦ ⟨h, hc⟩) fun _ h hc ↦ ⟨h, not_not.mpr hc, rfl⟩

theorem Faults.of_jump {target : BitVec 32} {regs : BitVec 5 → BitVec 32}
    (hi : s.before.execute s.ialign i = s.before.jump s.ialign target regs)
    (halign : ¬ target.toNat % s.ialign = 0) :
    Faults s i (.trap .INSTR_ADDR_MISALIGNED (target.setWidth 64)) { s with pc := target } := by
  refine ⟨⟨⟨rfl, rfl⟩, rfl, rfl, rfl⟩, rfl, rfl, ⟨.instrAddrMisaligned, target⟩, ?_, rfl⟩
  rw [hi, Rv32i.Machine.jump, if_neg halign]

/-- The link is the address of the next instruction. -/
theorem performs_jumpAndLink {target : BitVec 32} (heven : target &&& 1#32 = 0#32)
    (hpc : s.pc = s.lastPc + 4#32)
    (hi : s.before.execute s.ialign i = s.before.jump s.ialign target
      (s.before.written (Rv32i.rd s.instr) (s.lastPc + 4#32))) :
    Performs s i (jumpAndLink target) := by
  refine Triple.read_bind fun s' hs' ↦ ?_
  rw [hs']
  refine Triple.bind ((triple_jump_ialign heven).conseq (fun _ h ↦ h) (fun _ _ h ↦ h) ?_) fun _ ↦
    Triple.update fun s' hs' ↦ ?_
  · rintro e s' ⟨rfl, halign, rfl⟩
    exact Faults.of_jump hi halign
  · obtain ⟨rfl, halign⟩ := hs'
    refine ⟨⟨⟨rfl, rfl⟩, rfl, rfl, rfl⟩, _, ?_, reflects_written (s := { s with pc := target })
      (computes_of_concrete (concrete_constant s.pc))⟩
    rw [hi, Rv32i.Machine.jump, if_pos halign, hpc]
    rfl

theorem performs_execBranch {res : ConcolicValue} {op : Rv32i.BranchOp} {rs1 rs2 : BitVec 5}
    (hres : evalCondition res = op.taken (s.before.regs rs1) (s.before.regs rs2))
    (hlast : s.lastPc &&& 1#32 = 0#32) (hpc : s.pc = s.lastPc + 4#32) :
    Performs s (.branch op rs1 rs2 (Rv32i.immB s.instr)) (execBranch res) := by
  set i := Rv32i.Instr.branch op rs1 rs2 (Rv32i.immB s.instr) with hi
  have htarget : s.lastPc + s.instr.bImm = s.before.pc + Rv32i.immB s.instr := by
    rw [s.instr.bImm_eq]
    rfl
  have heven : (s.before.pc + Rv32i.immB s.instr) &&& 1#32 = 0#32 := by
    rw [← htarget]
    exact even_add hlast (even_bImm _)
  refine Triple.read_bind fun s' hs' ↦ ?_
  rw [hs', htarget, hres]
  refine Triple.bind (Q := fun _ ↦ Retires s i) ?_ fun _ ↦ ?_
  · refine Triple.ite (fun htaken ↦ ?_) fun htaken ↦ ?_
    · have hjump : s.before.execute s.ialign i =
          s.before.jump s.ialign (s.before.pc + Rv32i.immB s.instr) s.before.regs := by
        rw [hi, Rv32i.Machine.execute, if_pos htaken]
      refine (triple_jump_ialign heven).conseq (fun _ h ↦ h) ?_ ?_
      · rintro _ s' ⟨rfl, halign⟩
        refine ⟨⟨⟨rfl, rfl⟩, rfl, rfl, rfl⟩, ⟨s.before.regs, _, s.before.mem⟩, ?_,
          ⟨fun _ _ ↦ rfl, rfl, rfl⟩⟩
        rw [hjump, Rv32i.Machine.jump, if_pos halign]
      · rintro e s' ⟨rfl, halign, rfl⟩
        exact Faults.of_jump hjump halign
    · refine Triple.ret fun s' hs' ↦ ?_
      rw [hs']
      refine ⟨ControlKept.refl s, _, ?_, reflects_advance hpc⟩
      rw [hi, Rv32i.Machine.execute, if_neg htaken]
  · unfold trackAndTraceBranch
    split
    · refine Triple.update fun s' hs' ↦ ?_
      obtain ⟨hkept, m, hm, hreflects⟩ := hs'
      exact ⟨⟨⟨hkept.lastPc, hkept.coverage⟩, hkept.csrs, hkept.prv, hkept.sys⟩, m, hm,
        ⟨hreflects.regs, hreflects.pc, hreflects.mem⟩⟩
    · exact Triple.ret fun _ h ↦ h

theorem triple_trapCheckAddrAlignment {alignment : Nat} {reason : ExceptionCode}
    {addr : ConcolicValue} {x : BitVec 32} (haddr : addr.concrete = ⟨32, x⟩) :
    Triple (· = s) (trapCheckAddrAlignment alignment reason addr)
      (fun _ s' ↦ s' = s ∧ x.toNat % alignment = 0)
      fun e s' ↦ s' = s ∧ ¬ x.toNat % alignment = 0 ∧ e = .trap reason (x.setWidth 64) := by
  rw [trapCheckAddrAlignment, getValue_of_concrete haddr]
  exact triple_raiseTrapIf (fun _ h hc ↦ ⟨h, not_not.mp hc⟩) fun _ h hc ↦ ⟨h, hc, rfl⟩

theorem setWidth_setWidth_word (x : BitVec 32) : (x.setWidth 64).setWidth 32 = x := by
  rw [BitVec.setWidth_setWidth_of_le _ (by decide), BitVec.setWidth_eq]

section Accesses

variable (hoff : s.Untranslated .STORE)

include hoff

/-- A load within the memory. -/
theorem triple_run_load {op : Rv32i.LoadOp} {addr : ConcolicValue} {x : BitVec 32}
    (haddr : addr.concrete = ⟨32, x⟩) (hrange : x.toNat + op.bytes ≤ s.memSize) :
    Triple (· = s) ((loadOp op).run addr)
      (fun value s' ↦ s' = s ∧ Computes value (s.before.loaded x op)) fun _ _ ↦ False := by
  have hbytes : 0 < op.bytes := by cases op <;> decide
  have htoNat : (x.setWidth 64).toNat = x.toNat := BitVec.toNat_setWidth_of_le (by decide)
  rw [LoadOp.run_eq, LoadOp.translation, getValue_of_concrete haddr]
  refine Triple.bind (Q := fun paddr s' ↦ paddr = x.setWidth 64 ∧ s' = s) ?_ fun paddr ↦ ?_
  · rintro _ rfl
    rw [v2p_of_untranslated hoff]
    exact ⟨rfl, rfl⟩
  · refine Triple.of_start fun s' hs' ↦ ?_
    obtain ⟨rfl, rfl⟩ := hs'
    rw [LoadOp.transaction, numBytes_loadOp]
    refine Triple.bind ((triple_transportRead s' (x.setWidth 64) hbytes).conseq (fun _ h ↦ h)
      (fun _ _ h ↦ h) fun _ _ h ↦ ?_) fun data ↦ Triple.ret fun s'' h ↦ ⟨h.1, ?_⟩
    · rw [htoNat] at h
      exact absurd hrange (Nat.not_le.mpr h.2.1)
    · rw [setWidth_setWidth_word] at h
      exact computes_load s' op h.2.2

theorem performs_execLoad (op : Rv32i.LoadOp) (hpc : s.pc = s.lastPc + 4#32)
    (hrange : (s.before.regs (Rv32i.rs1 s.instr) + Rv32i.immI s.instr).toNat + op.bytes ≤
      s.memSize) :
    Performs s (.load op (Rv32i.rd s.instr) (Rv32i.rs1 s.instr) (Rv32i.immI s.instr))
      (execLoad op.bytes (loadOp op).run) := by
  set i := Rv32i.Instr.load op (Rv32i.rd s.instr) (Rv32i.rs1 s.instr) (Rv32i.immI s.instr) with hi
  set x := s.before.regs (Rv32i.rs1 s.instr) + Rv32i.immI s.instr with hx
  have haddr : ((s.regs s.rs1).add s.iImm).concrete = ⟨32, x⟩ :=
    concrete_add s.concrete_rs1 s.concrete_iImm
  refine Triple.read_bind fun s' hs' ↦ ?_
  rw [hs']
  refine Triple.bind ((triple_trapCheckAddrAlignment haddr).conseq (fun _ h ↦ h) (fun _ _ h ↦ h) ?_)
    fun _ ↦ Triple.of_start fun s' h ↦ ?_
  · rintro e s' ⟨rfl, halign, rfl⟩
    refine ⟨ControlKept.refl _, rfl, rfl, ⟨.loadAddrMisaligned, x⟩, ?_, rfl⟩
    rw [hi, Rv32i.Machine.execute, if_neg halign]
  · obtain ⟨rfl, halign⟩ := h
    have hexecute : s'.before.execute s'.ialign i =
        .ok (s'.before.retire (Rv32i.rd s'.instr) (s'.before.loaded x op)) := by
      rw [hi, Rv32i.Machine.execute, if_pos halign]
    refine Triple.bind ((triple_run_load hoff haddr hrange).conseq (fun _ h ↦ h) (fun _ _ h ↦ h)
      fun _ _ h ↦ h.elim) fun value ↦ Triple.bind (Q := fun _ ↦ Retires s' i)
      (Triple.update fun s'' h ↦ ?_) fun _ ↦ ?_
    · obtain ⟨rfl, hvalue⟩ := h
      refine ⟨⟨⟨rfl, rfl⟩, rfl, rfl, rfl⟩, _, hexecute, ?_⟩
      have hreflects := reflects_written (s := s'') hvalue
      rw [hpc] at hreflects
      exact hreflects
    · refine Triple.ite (fun _ ↦ Triple.bind (Q := fun _ ↦ Retires s' i) (Triple.update
        fun s'' h ↦ ?_) fun _ ↦ Triple.ret fun _ h ↦ h) fun _ ↦ Triple.ret fun _ h ↦ h
      obtain ⟨hkept, m, hm, hreflects⟩ := h
      refine ⟨⟨⟨hkept.lastPc, hkept.coverage⟩, hkept.csrs, hkept.prv, hkept.sys⟩, m, hm,
        ⟨fun j hj ↦ ?_, hreflects.pc, hreflects.mem⟩⟩
      exact (getValue_taint _ _ _).trans (hreflects.regs j hj)

theorem performs_execStore (op : Rv32i.StoreOp) (hpc : s.pc = s.lastPc + 4#32)
    (hrange : (s.before.regs (Rv32i.rs1 s.instr) + Rv32i.immS s.instr).toNat + op.bytes ≤
      s.memSize) :
    Performs s (.store op (Rv32i.rs1 s.instr) (Rv32i.rs2 s.instr) (Rv32i.immS s.instr))
      (execStore op.bytes (storeOp op).run) := by
  set i := Rv32i.Instr.store op (Rv32i.rs1 s.instr) (Rv32i.rs2 s.instr) (Rv32i.immS s.instr)
    with hi
  set x := s.before.regs (Rv32i.rs1 s.instr) + Rv32i.immS s.instr with hx
  have haddr : ((s.regs s.rs1).add s.sImm).concrete = ⟨32, x⟩ :=
    concrete_add s.concrete_rs1 s.concrete_sImm
  have htoNat : (x.setWidth 64).toNat = x.toNat := BitVec.toNat_setWidth_of_le (by decide)
  refine Triple.read_bind fun s' hs' ↦ ?_
  rw [hs']
  refine Triple.bind ((triple_trapCheckAddrAlignment haddr).conseq (fun _ h ↦ h) (fun _ _ h ↦ h) ?_)
    fun _ ↦ Triple.of_start fun s' h ↦ ?_
  · rintro e s' ⟨rfl, halign, rfl⟩
    refine ⟨ControlKept.refl _, rfl, rfl, ⟨.storeAddrMisaligned, x⟩, ?_, rfl⟩
    rw [hi, Rv32i.Machine.execute, if_neg halign]
  · obtain ⟨rfl, halign⟩ := h
    rw [StoreOp.run_eq, getValue_of_concrete haddr, numBytes_storeOp]
    refine Triple.bind (Q := fun paddr s'' ↦ paddr = x.setWidth 64 ∧ s'' = s') ?_ fun paddr ↦
      Triple.of_start fun s'' h ↦ ?_
    · rintro _ rfl
      rw [v2p_of_untranslated hoff]
      exact ⟨rfl, rfl⟩
    · obtain ⟨rfl, rfl⟩ := h
      refine Triple.read_bind fun s₁ hs₁ ↦ ?_
      rw [hs₁]
      refine Triple.bind (Q := fun _ s₁ ↦ s₁ = s'') (triple_raiseTrapIf (fun _ h _ ↦ h)
        fun _ _ hc ↦ ?_) fun _ ↦ Triple.update fun s₁ hs₁ ↦ ?_
      · rw [htoNat] at hc
        exact absurd hrange (Nat.not_le.mpr hc)
      · rw [hs₁, setWidth_setWidth_word]
        have hexecute : s''.before.execute s''.ialign i = .ok { s''.before.advance with
            mem := s''.before.stored x (s''.before.regs (Rv32i.rs2 s''.instr)) op.bytes } := by
          rw [hi, Rv32i.Machine.execute, if_pos halign]
        exact ⟨⟨⟨rfl, rfl⟩, rfl, rfl, rfl⟩, _, hexecute, ⟨fun _ _ ↦ rfl, hpc,
          concreteByte_store_eq_stored s'' op x s''.concrete_rs2⟩⟩

end Accesses

theorem Performs.returning {m : IssM Unit} (h : Performs s i m) :
    Performs s i (do m; return false) :=
  Triple.bind h fun _ ↦ Triple.ret fun _ h ↦ h

theorem execute_register {value : ConcolicValue} (env : Env)
    (h : s.registerResult s.op = some value)
    (hperforms : Performs s i (do modify (·.writeReg s.rd value); return false)) :
    Performs s i (execute env) := by
  refine Triple.read_bind fun s' hs' ↦ ?_
  rw [hs', h]
  exact hperforms

theorem execute_other (env : Env) (hregister : s.registerResult s.op = none)
    (hbranch : s.branchResult s.op = none) (hperforms : Performs s i (executeOther env s.op)) :
    Performs s i (execute env) := by
  refine Triple.read_bind fun s' hs' ↦ ?_
  rw [hs', hregister, hbranch]
  exact hperforms

/-- An instruction of RV32I whose accesses hit the memory is executed as prescribed. -/
theorem performs_execute (env : Env) (h : Encodes s.instr i s.op)
    (hlast : s.lastPc &&& 1#32 = 0#32) (hpc : s.pc = s.lastPc + 4#32)
    (hoff : s.Untranslated .STORE)
    (hrange : ∀ addr n, s.before.access i = some (addr, n) → addr.toNat + n ≤ s.memSize) :
    Performs s i (execute env) := by
  have hother : ∀ op, s.op = op → s.registerResult op = none → s.branchResult op = none →
      Performs s i (executeOther env op) → Performs s i (execute env) := by
    rintro op rfl hregister hbranch hperforms
    exact execute_other env hregister hbranch hperforms
  generalize hop : s.op = op at h
  cases h with
  | lui =>
    refine execute_register env (by rw [hop]; rfl) (performs_register ?_ hpc rfl)
    exact computes_of_concrete s.concrete_uImm
  | auipc =>
    refine execute_register env (by rw [hop]; rfl) (performs_register ?_ hpc rfl)
    exact computes_of_concrete (concrete_add (concrete_constant _) s.concrete_uImm)
  | jal =>
    refine hother _ hop rfl rfl (Triple.read_bind fun s' hs' ↦ ?_)
    rw [hs', s.instr.jImm_eq]
    refine (performs_jumpAndLink ?_ hpc rfl).returning
    have heven := even_jImm s.instr
    rw [s.instr.jImm_eq] at heven
    exact even_add hlast heven
  | jalr =>
    refine hother _ hop rfl rfl (Triple.read_bind fun s' hs' ↦ ?_)
    rw [hs', getValue_of_concrete s.concrete_rs1, s.instr.iImm_eq]
    exact (performs_jumpAndLink (even_and_not_one _) hpc rfl).returning
  | branch op =>
    obtain ⟨res, hres, htaken⟩ := s.branchResult_branchOpcode op
    refine Triple.read_bind fun s' hs' ↦ ?_
    have hregister : s.registerResult (branchOpcode op) = none := by cases op <;> rfl
    rw [hs', hop, hregister, hres]
    exact (performs_execBranch htaken hlast hpc).returning
  | load op =>
    refine hother _ hop (by cases op <;> rfl) (by cases op <;> rfl) ?_
    have hload : executeOther env (loadOpcode op) = execLoad op.bytes (loadOp op).run := by
      cases op <;> rfl
    rw [hload]
    exact performs_execLoad hoff op hpc (hrange _ _ rfl)
  | store op =>
    refine hother _ hop (by cases op <;> rfl) (by cases op <;> rfl) ?_
    have hstore : executeOther env (storeOpcode op) =
        (do execStore op.bytes (storeOp op).run; return false) := by
      cases op <;> rfl
    rw [hstore]
    exact (performs_execStore hoff op hpc (hrange _ _ rfl)).returning
  | opImm op himm =>
    refine execute_register env (by rw [hop]; exact s.registerResult_opImm himm)
      (performs_register ?_ hpc rfl)
    exact computes_binOp s.concrete_rs1 himm s.concrete_iImm
  | shiftImm op hshift hbit =>
    refine execute_register env (by rw [hop]; exact s.registerResult_shiftImm hshift)
      (performs_register ?_ hpc rfl)
    exact computes_shift s.concrete_rs1 hshift (s.concrete_shamtImm hbit)
  | op op =>
    obtain ⟨value, hvalue, hcomputes⟩ := s.registerResult_op op
    exact execute_register env (by rw [hop]; exact hvalue) (performs_register hcomputes hpc rfl)
  | fence =>
    refine hother _ hop rfl rfl (Triple.ret fun s' hs' ↦ ?_)
    rw [hs']
    exact ⟨ControlKept.refl s, _, rfl, reflects_advance hpc⟩
  | fenceI =>
    refine hother _ hop rfl rfl (Triple.ret fun s' hs' ↦ ?_)
    rw [hs']
    exact ⟨ControlKept.refl s, _, rfl, reflects_advance hpc⟩

end Performs

end CoverageVP.Iss
