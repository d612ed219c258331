import CoverageVP.Clover.Expr

/-!
# Expressions of the solver library

The expressions that the expression builders, the constraint manager and the solvers of KLEE pass
around. A symbolic array is read byte by byte at constant indices, which is the only way in which
the concolic engine reads one, so update lists and constant arrays do not occur.

The value of an expression is computed at a demanded width. At the width of the expression it is
the value, and every operation but the comparisons, the extractions and the extensions demands the
same width of its operands.
-/

namespace CoverageVP.Klee

open Clover (BV SymArray Assignment)

inductive ArithmeticKind
  | Add | Sub | Mul | UDiv | SDiv | URem | SRem | And | Or | Xor | Shl | LShr | AShr
  deriving DecidableEq, Repr

inductive CmpKind
  | Eq | Ne | Ult | Ule | Ugt | Uge | Slt | Sle | Sgt | Sge
  deriving DecidableEq, Repr

namespace ArithmeticKind

def apply {w : Nat} : ArithmeticKind → BitVec w → BitVec w → BitVec w
  | Add, x, y => x + y
  | Sub, x, y => x - y
  | Mul, x, y => x * y
  | UDiv, x, y => x.smtUDiv y
  | SDiv, x, y => x.smtSDiv y
  | URem, x, y => x.umod y
  | SRem, x, y => x.srem y
  | And, x, y => x &&& y
  | Or, x, y => x ||| y
  | Xor, x, y => x ^^^ y
  | Shl, x, y => x <<< y
  | LShr, x, y => x >>> y
  | AShr, x, y => x.sshiftRight y.toNat

/-- On one bit the library takes the divisor to be `1`. -/
def IsDivision : ArithmeticKind → Prop
  | UDiv | SDiv | URem | SRem => True
  | _ => False

instance : DecidablePred IsDivision
  | UDiv | SDiv | URem | SRem => .isTrue trivial
  | Add | Sub | Mul | And | Or | Xor | Shl | LShr | AShr => .isFalse id

/-- The shifts that the builder of the core solver may translate to something else: it takes an
arithmetic shift that is too far to be zero, and it truncates a constant amount to 32 bits. -/
def IsDelicate (width : Nat) : ArithmeticKind → Prop
  | AShr => True
  | Shl | LShr => 32 < width
  | _ => False

instance (width : Nat) : DecidablePred (IsDelicate width)
  | AShr => .isTrue trivial
  | Shl | LShr => inferInstanceAs (Decidable (32 < width))
  | Add | Sub | Mul | UDiv | SDiv | URem | SRem | And | Or | Xor => .isFalse id

/-- The later stages ask about the divisions and the shifts, which may have parts of their own. -/
def IsRestricted : ArithmeticKind → Prop
  | UDiv | SDiv | URem | SRem | Shl | LShr | AShr => True
  | _ => False

instance : DecidablePred IsRestricted
  | UDiv | SDiv | URem | SRem | Shl | LShr | AShr => .isTrue trivial
  | Add | Sub | Mul | And | Or | Xor => .isFalse id

variable {kind : ArithmeticKind}

theorem IsDivision.isRestricted (h : kind.IsDivision) : kind.IsRestricted := by
  cases kind <;> trivial

theorem IsDelicate.isRestricted {width : Nat} (h : kind.IsDelicate width) :
    kind.IsRestricted := by
  cases kind <;> trivial

end ArithmeticKind

namespace CmpKind

def apply {w : Nat} : CmpKind → BitVec w → BitVec w → Bool
  | Eq, x, y => x == y
  | Ne, x, y => x != y
  | Ult, x, y => x.ult y
  | Ule, x, y => x.ule y
  | Ugt, x, y => y.ult x
  | Uge, x, y => y.ule x
  | Slt, x, y => x.slt y
  | Sle, x, y => x.sle y
  | Sgt, x, y => y.slt x
  | Sge, x, y => y.sle x

/-- The builder of the solver expresses the other comparisons by these. -/
def IsCanonical : CmpKind → Prop
  | Eq | Ult | Ule | Slt | Sle => True
  | Ne | Ugt | Uge | Sgt | Sge => False

instance : DecidablePred IsCanonical
  | Eq | Ult | Ule | Slt | Sle => .isTrue trivial
  | Ne | Ugt | Uge | Sgt | Sge => .isFalse id

end CmpKind

inductive Expr
  | constant (value : BV)
  | read (array : SymArray) (index : Nat)
  | concat (left right : Expr)
  | extract (expr : Expr) (offset width : Nat)
  | not (expr : Expr)
  | zext (src : Expr) (width : Nat)
  | sext (src : Expr) (width : Nat)
  | arithmetic (kind : ArithmeticKind) (left right : Expr)
  | comparison (kind : CmpKind) (left right : Expr)
  deriving DecidableEq, Repr

namespace Expr

def getWidth : Expr → Nat
  | constant value => value.width
  | read _ _ => 8
  | concat left right => left.getWidth + right.getWidth
  | extract _ _ width | zext _ width | sext _ width => width
  | not expr => expr.getWidth
  | arithmetic _ left _ => left.getWidth
  | comparison _ _ _ => 1

/-- The value of an expression, as a vector of the demanded width. -/
def bits (σ : Assignment) : Expr → (w : Nat) → BitVec w
  | constant value, w => value.bits.setWidth w
  | read array index, w => ((σ array).extractLsb' (8 * index) 8).setWidth w
  | concat left right, w =>
    (left.bits σ left.getWidth ++ right.bits σ right.getWidth).setWidth w
  | extract expr offset width, w =>
    ((expr.bits σ expr.getWidth).extractLsb' offset width).setWidth w
  | not expr, w => ~~~ expr.bits σ w
  | zext src width, w => ((src.bits σ src.getWidth).setWidth width).setWidth w
  | sext src width, w => ((src.bits σ src.getWidth).signExtend width).setWidth w
  | arithmetic kind left right, w => kind.apply (left.bits σ w) (right.bits σ w)
  | comparison kind left right, w =>
    (BitVec.ofBool (kind.apply (left.bits σ left.getWidth) (right.bits σ left.getWidth))).setWidth w

def eval (σ : Assignment) (e : Expr) : BV := ⟨e.getWidth, e.bits σ e.getWidth⟩

/-- What the assertions of the constructors ask for. -/
def WellTyped : Expr → Prop
  | constant value => 0 < value.width
  | read array index => index < array.size
  | concat left right => left.WellTyped ∧ right.WellTyped
  | extract expr offset width => expr.WellTyped ∧ 0 < width ∧ offset + width ≤ expr.getWidth
  | not expr => expr.WellTyped
  | zext src width | sext src width => src.WellTyped ∧ src.getWidth ≤ width
  | arithmetic kind left right => left.WellTyped ∧ right.WellTyped ∧
      left.getWidth = right.getWidth ∧ (kind.IsDivision → left.getWidth ≠ 1)
  | comparison _ left right => left.WellTyped ∧ right.WellTyped ∧ left.getWidth = right.getWidth

def decWellTyped : (e : Expr) → Decidable e.WellTyped
  | constant value => inferInstanceAs (Decidable (0 < value.width))
  | read array index => inferInstanceAs (Decidable (index < array.size))
  | concat left right =>
    have := left.decWellTyped
    have := right.decWellTyped
    inferInstanceAs (Decidable (_ ∧ _))
  | extract expr offset width =>
    have := expr.decWellTyped
    inferInstanceAs (Decidable (_ ∧ 0 < width ∧ offset + width ≤ expr.getWidth))
  | not expr => expr.decWellTyped
  | zext src width | sext src width =>
    have := src.decWellTyped
    inferInstanceAs (Decidable (_ ∧ src.getWidth ≤ width))
  | arithmetic kind left right =>
    have := left.decWellTyped
    have := right.decWellTyped
    inferInstanceAs (Decidable (_ ∧ _ ∧ left.getWidth = right.getWidth ∧
      (kind.IsDivision → left.getWidth ≠ 1)))
  | comparison _ left right =>
    have := left.decWellTyped
    have := right.decWellTyped
    inferInstanceAs (Decidable (_ ∧ _ ∧ left.getWidth = right.getWidth))

instance : DecidablePred WellTyped := decWellTyped

/-- The arrays an expression reads. -/
def findSymbolicObjects : Expr → List SymArray
  | constant _ => []
  | read array _ => [array]
  | concat left right | arithmetic _ left right | comparison _ left right =>
    left.findSymbolicObjects ++ right.findSymbolicObjects
  | extract expr _ _ | not expr | zext expr _ | sext expr _ => expr.findSymbolicObjects

/-- What the later stages ask about an expression: which bytes it reads, whether it divides or
shifts in a delicate way, and whether it compares in a way that the builder of the solver expresses
by another one. -/
inductive Part
  | byte (array : SymArray) (index : Nat)
  | division
  | delicateShift
  | uncanonical
  deriving DecidableEq, Repr

def addArithmetic (kind : ArithmeticKind) (width : Nat) (parts : List Part) : List Part :=
  match kind with
  | .UDiv | .SDiv | .URem | .SRem => .division :: parts
  | .Shl | .LShr | .AShr => if kind.IsDelicate width then .delicateShift :: parts else parts
  | .Add | .Sub | .Mul | .And | .Or | .Xor => parts

def addComparison (kind : CmpKind) (parts : List Part) : List Part :=
  match kind with
  | .Ne | .Ugt | .Uge | .Sgt | .Sge => .uncanonical :: parts
  | .Eq | .Ult | .Ule | .Slt | .Sle => parts

def parts : Expr → List Part
  | constant _ => []
  | read array index => [.byte array index]
  | concat left right => left.parts ++ right.parts
  | arithmetic kind left right => addArithmetic kind left.getWidth (left.parts ++ right.parts)
  | comparison kind left right => addComparison kind (left.parts ++ right.parts)
  | extract expr _ _ | not expr | zext expr _ | sext expr _ => expr.parts

attribute [local simp] findSymbolicObjects addArithmetic addComparison parts bits

theorem mem_addArithmetic {kind : ArithmeticKind} {width : Nat} {part : Part}
    {parts : List Part} :
    part ∈ addArithmetic kind width parts ↔ part = .division ∧ kind.IsDivision ∨
      part = .delicateShift ∧ kind.IsDelicate width ∨ part ∈ parts := by
  have hshift : part ∈ (if kind.IsDelicate width then .delicateShift :: parts else parts) ↔
      part = .delicateShift ∧ kind.IsDelicate width ∨ part ∈ parts := by
    split_ifs with h <;> simp [h]
  cases kind with
  | Shl | LShr | AShr => exact hshift.trans (or_iff_right fun h ↦ h.2).symm
  | _ => simp [ArithmeticKind.IsDivision, ArithmeticKind.IsDelicate]

theorem mem_addComparison {kind : CmpKind} {part : Part} {parts : List Part} :
    part ∈ addComparison kind parts ↔ part = .uncanonical ∧ ¬ kind.IsCanonical ∨ part ∈ parts := by
  cases kind <;> simp [CmpKind.IsCanonical]

theorem mem_parts_arithmetic {kind : ArithmeticKind} (hkind : ¬ kind.IsRestricted) {part : Part}
    {l r : Expr} : part ∈ (arithmetic kind l r).parts ↔ part ∈ l.parts ∨ part ∈ r.parts := by
  rw [parts, mem_addArithmetic, List.mem_append, or_iff_right fun h ↦ hkind h.2.isRestricted,
    or_iff_right fun h ↦ hkind h.2.isRestricted]

theorem mem_parts_comparison {kind : CmpKind} (hkind : kind.IsCanonical) {part : Part}
    {l r : Expr} : part ∈ (comparison kind l r).parts ↔ part ∈ l.parts ∨ part ∈ r.parts := by
  rw [parts, mem_addComparison, List.mem_append, or_iff_right fun h ↦ h.2 hkind]

theorem mem_parts_arithmetic_of_mem {kind : ArithmeticKind} {part : Part} {l r : Expr}
    (h : part ∈ l.parts ∨ part ∈ r.parts) : part ∈ (arithmetic kind l r).parts :=
  mem_addArithmetic.mpr (.inr (.inr (List.mem_append.mpr h)))

theorem mem_parts_comparison_of_mem {kind : CmpKind} {part : Part} {l r : Expr}
    (h : part ∈ l.parts ∨ part ∈ r.parts) : part ∈ (comparison kind l r).parts :=
  mem_addComparison.mpr (.inr (List.mem_append.mpr h))

theorem mem_findSymbolicObjects {array : SymArray} {e : Expr} :
    array ∈ e.findSymbolicObjects ↔ ∃ index, .byte array index ∈ e.parts := by
  induction e with
  | constant value => simp
  | read array' index => simp
  | extract expr offset width ih => exact ih
  | not expr ih => exact ih
  | zext src width ih => exact ih
  | sext src width ih => exact ih
  | concat left right ihl ihr =>
    simp only [findSymbolicObjects, parts, List.mem_append, ihl, ihr, exists_or]
  | arithmetic kind left right ihl ihr =>
    simp only [findSymbolicObjects, parts, mem_addArithmetic, List.mem_append, ihl, ihr, exists_or,
      reduceCtorEq, false_and, false_or]
  | comparison kind left right ihl ihr =>
    simp only [findSymbolicObjects, parts, mem_addComparison, List.mem_append, ihl, ihr, exists_or,
      reduceCtorEq, false_and, false_or]

theorem getWidth_pos {e : Expr} (h : e.WellTyped) : 0 < e.getWidth := by
  induction e with
  | constant value => exact h
  | read array index => exact Nat.zero_lt_succ 7
  | concat left right ihl ihr => exact Nat.add_pos_left (ihl h.1) _
  | extract expr offset width ih => exact h.2.1
  | not expr ih => exact ih h
  | zext src width ih => exact (ih h.1).trans_le h.2
  | sext src width ih => exact (ih h.1).trans_le h.2
  | arithmetic kind left right ihl ihr => exact ihl h.1
  | comparison kind left right ihl ihr => exact Nat.one_pos

/-- The value of an expression depends on the arrays it reads only. -/
theorem bits_congr {σ τ : Assignment} {e : Expr}
    (h : ∀ array ∈ e.findSymbolicObjects, σ array = τ array) (w : Nat) :
    e.bits σ w = e.bits τ w := by
  induction e generalizing w with
  | constant value => rfl
  | read array index =>
    have harray := h array (List.mem_singleton.mpr rfl)
    simp only [bits, harray]
  | concat left right ihl ihr =>
    have hl := ihl (fun array ha ↦ h array (List.mem_append_left _ ha)) left.getWidth
    have hr := ihr (fun array ha ↦ h array (List.mem_append_right _ ha)) right.getWidth
    simp only [bits, hl, hr]
  | extract expr offset width ih => simp only [bits, ih h]
  | not expr ih => simp only [bits, ih h]
  | zext src width ih => simp only [bits, ih h]
  | sext src width ih => simp only [bits, ih h]
  | arithmetic kind left right ihl ihr =>
    have hl := ihl (fun array ha ↦ h array (List.mem_append_left _ ha)) w
    have hr := ihr (fun array ha ↦ h array (List.mem_append_right _ ha)) w
    simp only [bits, hl, hr]
  | comparison kind left right ihl ihr =>
    have hl := ihl (fun array ha ↦ h array (List.mem_append_left _ ha)) left.getWidth
    have hr := ihr (fun array ha ↦ h array (List.mem_append_right _ ha)) left.getWidth
    simp only [bits, hl, hr]

/-! ## Conditions -/

/-- A condition holds when its value is the one-bit vector `1`. -/
def Holds (σ : Assignment) (e : Expr) : Prop := e.bits σ 1 = 1#1

instance (σ : Assignment) (e : Expr) : Decidable (e.Holds σ) :=
  inferInstanceAs (Decidable (_ = _))

/-- A well-formed condition. -/
def IsCondition (e : Expr) : Prop := e.WellTyped ∧ e.getWidth = 1

instance : DecidablePred IsCondition := fun _ ↦ inferInstanceAs (Decidable (_ ∧ _))

theorem holds_congr {σ τ : Assignment} {e : Expr}
    (h : ∀ array ∈ e.findSymbolicObjects, σ array = τ array) : e.Holds σ ↔ e.Holds τ := by
  rw [Holds, Holds, bits_congr h]

theorem holds_iff_eval {e : Expr} (σ : Assignment) (hwidth : e.getWidth = 1) :
    e.Holds σ ↔ e.eval σ = .ofBool true := by
  rw [Holds, eval, hwidth]
  constructor
  · intro h
    rw [h]
    rfl
  · intro h
    exact eq_of_heq (BV.mk.inj h).2

end Expr

/-! ## Operations on constants -/

namespace ConstantExpr

def arithmetic (kind : ArithmeticKind) (a b : BV) : BV :=
  ⟨a.width, kind.apply a.bits (b.bits.setWidth a.width)⟩

def comparison (kind : CmpKind) (a b : BV) : BV := .ofBool (kind.apply a.bits (b.bits.setWidth a.width))

def concat (a b : BV) : BV := ⟨a.width + b.width, a.bits ++ b.bits⟩

def extract (a : BV) (offset width : Nat) : BV :=
  ⟨width, (a.bits.sshiftRight offset).setWidth width⟩

def not (a : BV) : BV := ⟨a.width, ~~~ a.bits⟩

def neg (a : BV) : BV := ⟨a.width, -a.bits⟩

def zext (a : BV) (width : Nat) : BV := ⟨width, a.bits.setWidth width⟩

def sext (a : BV) (width : Nat) : BV := ⟨width, a.bits.signExtend width⟩

def isZero (a : BV) : Bool := a.toNat == 0

def isOne (a : BV) : Bool := a.toNat == 1

def isAllOnes (a : BV) : Bool := a.bits == BitVec.allOnes a.width

def isTrue (a : BV) : Bool := a.width == 1 && a.toNat != 0

def isFalse (a : BV) : Bool := a.width == 1 && a.toNat == 0

/-- The zero of a width. -/
def zero (width : Nat) : BV := ⟨width, BitVec.ofNat width 0⟩

theorem bits_of_isZero {a : BV} (h : isZero a = true) : a.bits = 0#a.width :=
  BitVec.eq_of_toNat_eq (by simpa [isZero, BV.toNat] using h)

theorem bits_of_isAllOnes {a : BV} (h : isAllOnes a = true) : a.bits = BitVec.allOnes a.width := by
  simpa [isAllOnes] using h

theorem bits_of_isOne {a : BV} (h : isOne a = true) : a.bits = 1#a.width := by
  have htoNat : a.bits.toNat = 1 := by simpa [isOne, BV.toNat] using h
  have hlt := a.bits.isLt
  apply BitVec.eq_of_toNat_eq
  rw [htoNat, BitVec.toNat_ofNat, Nat.mod_eq_of_lt (htoNat ▸ hlt)]

theorem isTrue_or_isFalse {a : BV} (h : a.width = 1) : a = .ofBool true ∨ a = .ofBool false := by
  rcases a with ⟨width, bits⟩
  obtain rfl : width = 1 := h
  rcases BitVec.eq_zero_or_eq_one bits with rfl | rfl
  · exact .inr rfl
  · exact .inl rfl

theorem eq_ofBool_false {a : BV} (h : a.width = 1) (htrue : ¬ isTrue a = true) :
    a = .ofBool false := by
  rcases isTrue_or_isFalse h with rfl | rfl
  · exact absurd rfl htrue
  · rfl

theorem eq_ofBool_false_of_isFalse {a : BV} (h : isFalse a = true) : a = .ofBool false := by
  have hwidth : a.width = 1 := by
    simp only [isFalse, Bool.and_eq_true, beq_iff_eq] at h
    exact h.1
  rcases isTrue_or_isFalse hwidth with rfl | rfl
  · cases h
  · rfl

end ConstantExpr

end CoverageVP.Klee
