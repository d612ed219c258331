import CoverageVP.Clover.Expr

/-!
# Concolic values and memory

A concolic value has a concrete part, which is always a constant, an optional symbolic part and a
taint flag. Each operation computes the two parts side by side. `Consistent` relates them: under
the assignment that the concrete inputs were taken from, the symbolic part evaluates to the
concrete one. Every operation preserves it.
-/

namespace CoverageVP.Clover

/-! ## Integers of the concrete inputs -/

/-- The alternatives of `IntValue`. -/
inductive IntType
  | uint8 | uint32
  deriving DecidableEq, Repr

inductive IntValue
  | uint8 (v : BitVec 8)
  | uint32 (v : BitVec 32)
  deriving DecidableEq, Repr

def IntType.byteSize : IntType → Nat
  | .uint8 => 1
  | .uint32 => 4

/-- The conversion of a host integer to the type. -/
def IntType.cast (T : IntType) (n : Nat) : IntValue :=
  match T with
  | .uint8 => .uint8 (BitVec.ofNat 8 n)
  | .uint32 => .uint32 (BitVec.ofNat 32 n)

namespace IntValue

def type : IntValue → IntType
  | .uint8 _ => .uint8
  | .uint32 _ => .uint32

def intByteSize (value : IntValue) : Nat := value.type.byteSize

def intToUint : IntValue → Nat
  | .uint8 v => v.toNat
  | .uint32 v => v.toNat

/-- The constant expression made of an integer. -/
def toBV (value : IntValue) : BV :=
  ⟨8 * value.intByteSize, BitVec.ofNat _ value.intToUint⟩

/-- The integer a byte vector of the solver holds, least significant byte first. Other sizes fail
an assertion. -/
def intFromVector : List (BitVec 8) → Option IntValue
  | [b0] => some (.uint8 b0)
  | [b0, b1, b2, b3] => some (.uint32 (b3 ++ b2 ++ b1 ++ b0))
  | _ => none

@[simp]
theorem toBV_uint8 (v : BitVec 8) : (IntValue.uint8 v).toBV = ⟨8, v⟩ := by
  simp only [toBV, intByteSize, type, IntType.byteSize, intToUint, BitVec.ofNat_toNat,
    BitVec.setWidth_eq]

@[simp]
theorem toBV_uint32 (v : BitVec 32) : (IntValue.uint32 v).toBV = ⟨32, v⟩ := by
  simp only [toBV, intByteSize, type, IntType.byteSize, intToUint, BitVec.ofNat_toNat,
    BitVec.setWidth_eq]

theorem toBV_injective : Function.Injective toBV := by
  intro a b h
  cases a <;> cases b <;> simp_all

@[simp]
theorem type_cast (T : IntType) (n : Nat) : (T.cast n).type = T := by
  cases T <;> rfl

end IntValue

structure ConcolicValue where
  concrete : BV
  symbolic : Option Expr
  tainted : Bool
  deriving DecidableEq, Repr

namespace ConcolicValue

def taint (value : ConcolicValue) : ConcolicValue := { value with tainted := true }

def getWidth (value : ConcolicValue) : Nat := value.concrete.width

/-- The symbolic part, or the concrete part as an expression. -/
def symbolicOrConcrete (value : ConcolicValue) : Expr :=
  value.symbolic.getD (.constant value.concrete)

/-- The common shape of the operators of two values. -/
def binaryOperator (op : BinOp) (this other : ConcolicValue) : ConcolicValue where
  concrete := op.eval this.concrete other.concrete
  symbolic :=
    if this.symbolic.isSome || other.symbolic.isSome then
      some (.binary op this.symbolicOrConcrete other.symbolicOrConcrete)
    else none
  tainted := this.tainted || other.tainted

def eq := binaryOperator .Eq
def ne := binaryOperator .Ne
def lshl := binaryOperator .Shl
def lshr := binaryOperator .LShr
def ashr := binaryOperator .AShr
def add := binaryOperator .Add
def mul := binaryOperator .Mul
def udiv := binaryOperator .UDiv
def sdiv := binaryOperator .SDiv
def urem := binaryOperator .URem
def srem := binaryOperator .SRem
def sub := binaryOperator .Sub
def slt := binaryOperator .Slt
def sge := binaryOperator .Sge
def ult := binaryOperator .Ult
def uge := binaryOperator .Uge
def band := binaryOperator .And
def bor := binaryOperator .Or
def bxor := binaryOperator .Xor
def concat := binaryOperator .Concat

/-- The common shape of the operators of one value. -/
def unaryOperator (f : BV → BV) (g : Expr → Expr) (this : ConcolicValue) : ConcolicValue where
  concrete := f this.concrete
  symbolic := this.symbolic.map g
  tainted := this.tainted

def bnot := unaryOperator BV.not Expr.not

def extract (this : ConcolicValue) (offset width : Nat) : ConcolicValue :=
  unaryOperator (·.extract offset width) (.extract · offset width) this

def sext (this : ConcolicValue) (width : Nat) : ConcolicValue :=
  unaryOperator (·.sext width) (.sext · width) this

def zext (this : ConcolicValue) (width : Nat) : ConcolicValue :=
  unaryOperator (·.zext width) (.zext · width) this

theorem getWidth_extract (this : ConcolicValue) (offset width : Nat) :
    (this.extract offset width).getWidth = width := rfl

theorem getWidth_zext (this : ConcolicValue) (width : Nat) : (this.zext width).getWidth = width :=
  rfl

end ConcolicValue

namespace Solver

/-- A constant, or the read of the symbolic array `name` next to its concrete value. -/
def BVC (name : Option String) (value : IntValue) : ConcolicValue where
  concrete := value.toBV
  symbolic := name.map fun n ↦ .read ⟨n, value.intByteSize⟩
  tainted := false

/-- One turn of the loops that assemble a value from its bytes: a later byte is more
significant. -/
def concatByte (result : Option ConcolicValue) (byte : ConcolicValue) : Option ConcolicValue :=
  match result with
  | none => some byte
  | some r => some (byte.concat r)

/-- The value of a buffer; there is no value for an empty one. -/
def BVCOfBytes (buf : List (BitVec 8)) : Option ConcolicValue :=
  buf.foldl (fun result b ↦ concatByte result (BVC none (.uint8 b))) none

def BVCToBytes (value : ConcolicValue) (buflen : Nat) : List (BitVec 8) :=
  let value := if value.getWidth < buflen * 8 then value.zext (buflen * 8) else value
  (List.range buflen).map fun i ↦ BitVec.ofNat 8 (value.extract (i * 8) 8).concrete.toNat

section Parts

variable {part : ConcolicValue → BV}
  (hconcat : ∀ a b, part (a.concat b) = BinOp.Concat.eval (part a) (part b))

include hconcat

theorem foldl_concatByte_some (bytes : List ConcolicValue)
    (hwidth : ∀ b ∈ bytes, (part b).width = 8) (lower : ConcolicValue) (n : Nat)
    (hlower : (part lower).width = n * 8) :
    ∃ value, bytes.foldl concatByte (some lower) = some value ∧
      (part value).width = (n + bytes.length) * 8 ∧
      (∀ i < n, (part value).extract (i * 8) 8 = (part lower).extract (i * 8) 8) ∧
      ∀ i byte, bytes[i]? = some byte → (part value).extract ((n + i) * 8) 8 = part byte := by
  induction bytes generalizing lower n with
  | nil => exact ⟨lower, rfl, hlower, fun _ _ ↦ rfl, by simp⟩
  | cons b bytes ih =>
    have hb : (part b).width = 8 := hwidth b (by simp)
    have hstep : (part (b.concat lower)).width = (n + 1) * 8 := by
      rw [hconcat]
      change (part b).width + (part lower).width = _
      omega
    obtain ⟨value, hvalue, hw, hlow, hhigh⟩ :=
      ih (fun b hb ↦ hwidth b (by simp [hb])) (b.concat lower) (n + 1) hstep
    refine ⟨value, hvalue, ?_, ?_, ?_⟩
    · rw [hw, List.length_cons]
      omega
    · intro i hi
      rw [hlow i (by omega), hconcat]
      exact BV.extract_concat_low _ _ (by omega)
    · intro i byte hi
      cases i with
      | zero =>
        obtain rfl : b = byte := by simpa using hi
        rw [Nat.add_zero, hlow n (by omega), hconcat, ← hlower]
        have hhigh := BV.extract_concat_high (part b) (part lower)
        rw [hb] at hhigh
        exact hhigh
      | succ i =>
        have htail := hhigh i byte (by simpa using hi)
        rwa [show n + 1 + i = n + (i + 1) by omega] at htail

/-- A part of a value assembled from bytes consists of the parts of these bytes, the first one
lowest. -/
theorem foldl_concatByte_part {bytes : List ConcolicValue}
    (hwidth : ∀ b ∈ bytes, (part b).width = 8) {value : ConcolicValue}
    (h : bytes.foldl concatByte none = some value) :
    (part value).width = bytes.length * 8 ∧
      ∀ i byte, bytes[i]? = some byte → (part value).extract (i * 8) 8 = part byte := by
  cases bytes with
  | nil => cases h
  | cons b bytes =>
    have hb : (part b).width = 1 * 8 := hwidth b (by simp)
    obtain ⟨value', hvalue, hw, hlow, hhigh⟩ :=
      foldl_concatByte_some hconcat bytes (fun b hb ↦ hwidth b (by simp [hb])) b 1 hb
    obtain rfl : value' = value := Option.some.inj (hvalue.symm.trans h)
    refine ⟨by rw [hw, List.length_cons]; omega, ?_⟩
    intro i byte hi
    cases i with
    | zero =>
      obtain rfl : b = byte := by simpa using hi
      rw [hlow 0 (by decide)]
      have hself := BV.extract_self (part b)
      rwa [hb] at hself
    | succ i =>
      have htail := hhigh i byte (by simpa using hi)
      rwa [show 1 + i = i + 1 by omega] at htail

end Parts

/-- A value assembled from bytes consists of these bytes, the first one lowest. -/
theorem foldl_concatByte_spec {bytes : List ConcolicValue} (hwidth : ∀ b ∈ bytes, b.getWidth = 8)
    {value : ConcolicValue} (h : bytes.foldl concatByte none = some value) :
    value.getWidth = bytes.length * 8 ∧
      ∀ i byte, bytes[i]? = some byte → value.concrete.extract (i * 8) 8 = byte.concrete :=
  @foldl_concatByte_part (·.concrete) (fun _ _ ↦ rfl) bytes hwidth value h

end Solver

/-! ## Memory -/

/-- A memory of bytes. An address that was never stored to reads as zero. -/
structure ConcolicMemory where
  data : BitVec 32 → Option ConcolicValue
  width_data : ∀ addr byte, data addr = some byte → byte.getWidth = 8

namespace ConcolicMemory

def byteAt (m : ConcolicMemory) (addr : BitVec 32) : ConcolicValue :=
  (m.data addr).getD (Solver.BVC none (.uint8 0#8))

def load (m : ConcolicMemory) (addr : BitVec 32) (bytesize : Nat) : Option ConcolicValue :=
  (List.range bytesize).foldl
    (fun result off ↦ Solver.concatByte result (m.byteAt (addr + BitVec.ofNat 32 off))) none

theorem width_byteAt (m : ConcolicMemory) (addr : BitVec 32) : (m.byteAt addr).getWidth = 8 := by
  unfold byteAt
  cases hd : m.data addr with
  | none => rfl
  | some byte => exact m.width_data addr byte hd

def set (m : ConcolicMemory) (addr : BitVec 32) (byte : ConcolicValue)
    (hwidth : byte.getWidth = 8) : ConcolicMemory where
  data := fun a ↦ if a = addr then some byte else m.data a
  width_data := by
    intro a b hb
    split at hb
    · obtain rfl := Option.some.inj hb
      exact hwidth
    · exact m.width_data a b hb

/-- One turn of the loop of a store. -/
def setPart (m : ConcolicMemory) (addr : BitVec 32) (value : ConcolicValue) (off : Nat) :
    ConcolicMemory :=
  m.set (addr + BitVec.ofNat 32 off) (value.extract (off * 8) 8) (value.getWidth_extract _ _)

def store (m : ConcolicMemory) (addr : BitVec 32) (value : ConcolicValue) (bytesize : Nat) :
    ConcolicMemory :=
  let value := if value.getWidth < bytesize * 8 then value.zext (bytesize * 8) else value
  (List.range bytesize).foldl (fun m off ↦ m.setPart addr value off) m

theorem byteAt_set (m : ConcolicMemory) (addr a : BitVec 32) (byte : ConcolicValue)
    (hwidth : byte.getWidth = 8) :
    (m.set addr byte hwidth).byteAt a = if a = addr then byte else m.byteAt a := by
  simp only [byteAt, set]
  split <;> rfl

theorem eq_add_ofNat_iff (a addr : BitVec 32) {n : Nat} (hn : n < 2 ^ 32) :
    a = addr + BitVec.ofNat 32 n ↔ (a - addr).toNat = n := by
  have hmod : (BitVec.ofNat 32 n).toNat = n := Nat.mod_eq_of_lt hn
  constructor
  · rintro rfl
    rw [BitVec.add_comm, BitVec.add_sub_cancel, hmod]
  · intro h
    have hsub : a - addr = BitVec.ofNat 32 n := by rw [← h, BitVec.ofNat_toNat, BitVec.setWidth_eq]
    rw [← hsub, BitVec.add_comm, BitVec.sub_add_cancel]

/-- A store changes the bytes of its range, each to its part of the value. -/
theorem byteAt_store (m : ConcolicMemory) (addr a : BitVec 32) (value : ConcolicValue) {n : Nat}
    (hn : n ≤ 2 ^ 32) :
    (m.store addr value n).byteAt a =
      if (a - addr).toNat < n then
        (if value.getWidth < n * 8 then value.zext (n * 8) else value).extract
          ((a - addr).toNat * 8) 8
      else m.byteAt a := by
  unfold store
  generalize (if value.getWidth < n * 8 then value.zext (n * 8) else value) = v
  dsimp only
  induction n with
  | zero => rfl
  | succ n ih =>
    rw [List.range_succ, List.foldl_append, List.foldl_cons, List.foldl_nil, setPart, byteAt_set,
      ih (Nat.le_of_succ_le hn)]
    have hiff := eq_add_ofNat_iff a addr (Nat.lt_of_succ_le hn)
    by_cases heq : (a - addr).toNat = n
    · rw [if_pos (hiff.mpr heq), if_pos (by omega), heq]
    · rw [if_neg (mt hiff.mp heq)]
      by_cases hlt : (a - addr).toNat < n
      · rw [if_pos hlt, if_pos (by omega)]
      · rw [if_neg hlt, if_neg (by omega)]

/-- The concrete part of a byte. -/
def concreteByte (m : ConcolicMemory) (addr : BitVec 32) : BitVec 8 :=
  BitVec.ofNat 8 (m.byteAt addr).concrete.toNat

theorem concreteByte_congr {m m' : ConcolicMemory} {addr : BitVec 32}
    (h : m'.byteAt addr = m.byteAt addr) : m'.concreteByte addr = m.concreteByte addr := by
  rw [concreteByte, h, concreteByte]

/-- The bytes that a sufficiently wide value leaves in its range. -/
theorem concreteByte_store (m : ConcolicMemory) (addr : BitVec 32) (value : ConcolicValue)
    {n i : Nat} (hn : n ≤ 2 ^ 32) (hwidth : n * 8 ≤ value.getWidth) (hi : i < n) :
    (m.store addr value n).concreteByte (addr + BitVec.ofNat 32 i) =
      value.concrete.bits.extractLsb' (i * 8) 8 := by
  have hoff : (addr + BitVec.ofNat 32 i - addr).toNat = i :=
    (eq_add_ofNat_iff _ _ (Nat.lt_of_lt_of_le hi hn)).mp rfl
  rw [concreteByte, byteAt_store m addr _ value hn, hoff, if_pos hi, if_neg (Nat.not_lt.mpr hwidth)]
  exact (BitVec.ofNat_toNat 8 _).trans (BitVec.setWidth_eq _)

theorem byteAt_store_of_le (m : ConcolicMemory) {addr a : BitVec 32} (value : ConcolicValue)
    {n : Nat} (hn : n ≤ 2 ^ 32) (ha : n ≤ (a - addr).toNat) :
    (m.store addr value n).byteAt a = m.byteAt a := by
  rw [byteAt_store m addr a value hn, if_neg (Nat.not_lt.mpr ha)]

theorem load_eq_foldl (m : ConcolicMemory) (addr : BitVec 32) (n : Nat) :
    m.load addr n =
      ((List.range n).map fun off ↦ m.byteAt (addr + BitVec.ofNat 32 off)).foldl
        Solver.concatByte none := by
  rw [List.foldl_map]
  rfl

theorem load_isSome (m : ConcolicMemory) (addr : BitVec 32) {n : Nat} (hn : 0 < n) :
    (m.load addr n).isSome = true := by
  obtain ⟨n, rfl⟩ := Nat.exists_eq_succ_of_ne_zero hn.ne'
  rw [load, List.range_succ, List.foldl_append]
  cases (List.range n).foldl
    (fun result off ↦ Solver.concatByte result (m.byteAt (addr + BitVec.ofNat 32 off))) none <;> rfl

theorem getWidth_load {m : ConcolicMemory} {addr : BitVec 32} {n : Nat} {data : ConcolicValue}
    (h : m.load addr n = some data) : data.getWidth = n * 8 := by
  rw [load_eq_foldl] at h
  have hspec := (Solver.foldl_concatByte_spec (fun b hb ↦ ?_) h).1
  · rwa [List.length_map, List.length_range] at hspec
  · obtain ⟨off, -, rfl⟩ := List.mem_map.mp hb
    exact m.width_byteAt _

/-- The bytes of a loaded value are those of its range. -/
theorem BVCToBytes_load {m : ConcolicMemory} {addr : BitVec 32} {n : Nat} {data : ConcolicValue}
    (h : m.load addr n = some data) :
    Solver.BVCToBytes data n =
      (List.range n).map fun off ↦ m.concreteByte (addr + BitVec.ofNat 32 off) := by
  have hwidth := getWidth_load h
  rw [load_eq_foldl] at h
  obtain ⟨-, hbytes⟩ := Solver.foldl_concatByte_spec (by
    intro b hb
    obtain ⟨off, -, rfl⟩ := List.mem_map.mp hb
    exact m.width_byteAt _) h
  have hnot : ¬ data.getWidth < n * 8 := by omega
  simp only [Solver.BVCToBytes, hnot, if_false]
  apply List.map_congr_left
  intro i hi
  have hbyte := hbytes i (m.byteAt (addr + BitVec.ofNat 32 i)) (by
    rw [List.getElem?_map, List.getElem?_range (List.mem_range.mp hi)]
    rfl)
  rw [concreteByte, ← hbyte]
  rfl

end ConcolicMemory

/-! ## Consistency of the two parts -/

namespace ConcolicValue

/-- Under `σ` the symbolic part, if there is one, evaluates to the concrete part. Both are bit
vectors with their widths, so the widths agree as well. -/
def Consistent (σ : Assignment) (value : ConcolicValue) : Prop :=
  ∀ e, value.symbolic = some e → e.eval σ = value.concrete

section Consistency

variable {σ : Assignment} {a b : ConcolicValue}

theorem Consistent.eval_symbolicOrConcrete (h : a.Consistent σ) :
    a.symbolicOrConcrete.eval σ = a.concrete := by
  unfold symbolicOrConcrete
  cases hs : a.symbolic with
  | none => rfl
  | some e => exact h e hs

theorem consistent_of_symbolic_eq_none (h : a.symbolic = none) : a.Consistent σ := by
  intro e he
  rw [h] at he
  cases he

theorem Consistent.taint (h : a.Consistent σ) : a.taint.Consistent σ := h

theorem Consistent.binaryOperator (op : BinOp) (ha : a.Consistent σ) (hb : b.Consistent σ) :
    (binaryOperator op a b).Consistent σ := by
  intro e he
  simp only [ConcolicValue.binaryOperator] at he
  split at he
  · obtain rfl := Option.some.inj he
    rw [Expr.eval, ha.eval_symbolicOrConcrete, hb.eval_symbolicOrConcrete]
    rfl
  · cases he

theorem Consistent.unaryOperator {f : BV → BV} {g : Expr → Expr}
    (hfg : ∀ e, (g e).eval σ = f (e.eval σ)) (ha : a.Consistent σ) :
    (unaryOperator f g a).Consistent σ := by
  intro e he
  obtain ⟨e', he', rfl⟩ := Option.map_eq_some_iff.mp he
  rw [hfg, ha e' he']
  rfl

theorem Consistent.extract (h : a.Consistent σ) (offset width : Nat) :
    (a.extract offset width).Consistent σ :=
  h.unaryOperator fun _ ↦ rfl

theorem Consistent.sext (h : a.Consistent σ) (width : Nat) : (a.sext width).Consistent σ :=
  h.unaryOperator fun _ ↦ rfl

theorem Consistent.zext (h : a.Consistent σ) (width : Nat) : (a.zext width).Consistent σ :=
  h.unaryOperator fun _ ↦ rfl

/-- Widening a value to a minimal width, as stores and register writes do. -/
theorem Consistent.zextIf (h : a.Consistent σ) (c : Prop) [Decidable c] (width : Nat) :
    (if c then a.zext width else a).Consistent σ := by
  split
  · exact h.zext width
  · exact h

end Consistency

end ConcolicValue

namespace ConcolicMemory

open ConcolicValue

/-- Every byte of the memory has consistent parts. -/
def Consistent (σ : Assignment) (m : ConcolicMemory) : Prop :=
  ∀ a byte, m.data a = some byte → byte.Consistent σ

section Consistency

variable {σ : Assignment} {m : ConcolicMemory}

theorem Consistent.byteAt (h : m.Consistent σ) (addr : BitVec 32) :
    (m.byteAt addr).Consistent σ := by
  unfold ConcolicMemory.byteAt
  cases hd : m.data addr with
  | none => exact consistent_of_symbolic_eq_none rfl
  | some byte => exact h addr byte hd

theorem consistent_concatByte {result : Option ConcolicValue} {byte : ConcolicValue}
    (hr : ∀ v ∈ result, v.Consistent σ) (hb : byte.Consistent σ) :
    ∀ v ∈ Solver.concatByte result byte, v.Consistent σ := by
  cases result with
  | none =>
    intro v hv
    obtain rfl := Option.some.inj hv
    exact hb
  | some r =>
    intro v hv
    obtain rfl := Option.some.inj hv
    exact hb.binaryOperator _ (hr r rfl)

theorem Consistent.load (h : m.Consistent σ) (addr : BitVec 32) (bytesize : Nat) :
    ∀ v ∈ m.load addr bytesize, v.Consistent σ := by
  have hfold : ∀ (offs : List Nat) (result : Option ConcolicValue),
      (∀ v ∈ result, v.Consistent σ) →
      ∀ v ∈ offs.foldl (fun result off ↦
        Solver.concatByte result (m.byteAt (addr + BitVec.ofNat 32 off))) result,
        v.Consistent σ := by
    intro offs
    induction offs with
    | nil => exact fun result hr ↦ hr
    | cons off offs ih =>
      intro result hr
      exact ih _ (consistent_concatByte hr (h.byteAt _))
  exact hfold _ none (by simp)

theorem Consistent.set (h : m.Consistent σ) {addr : BitVec 32} {byte : ConcolicValue}
    (hbyte : byte.Consistent σ) (hwidth : byte.getWidth = 8) :
    (m.set addr byte hwidth).Consistent σ := by
  intro a b hb
  simp only [ConcolicMemory.set] at hb
  split at hb
  · obtain rfl := Option.some.inj hb
    exact hbyte
  · exact h a b hb

theorem Consistent.store (h : m.Consistent σ) (addr : BitVec 32) {value : ConcolicValue}
    (hvalue : value.Consistent σ) (bytesize : Nat) :
    (m.store addr value bytesize).Consistent σ := by
  have hfold : ∀ (offs : List Nat) (m : ConcolicMemory) (v : ConcolicValue),
      m.Consistent σ → v.Consistent σ →
      (offs.foldl (fun m off ↦ m.setPart addr v off) m).Consistent σ := by
    intro offs
    induction offs with
    | nil => exact fun m v hm _ ↦ hm
    | cons off offs ih =>
      intro m v hm hv
      exact ih _ v (hm.set (hv.extract _ _) (v.getWidth_extract _ _)) hv
  exact hfold _ m _ h (hvalue.zextIf _ _)

end Consistency

end ConcolicMemory

end CoverageVP.Clover
