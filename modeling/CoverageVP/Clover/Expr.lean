import Mathlib.Data.BitVec

/-!
# Bit-vector expressions

The expressions that the KLEE expression builder makes of constants, whole reads of symbolic arrays
and fixed-width operations, with their meaning under an assignment of the arrays. A constant
carries its width, and so does the value of an expression; the width of the value is the width the
expression declares.
-/

namespace CoverageVP.Clover

/-- A bit vector together with its width. -/
structure BV where
  width : Nat
  bits : BitVec width
  deriving DecidableEq, Repr

namespace BV

def ofBool (b : Bool) : BV := ⟨1, BitVec.ofBool b⟩

def toNat (a : BV) : Nat := a.bits.toNat

end BV

inductive BinOp
  | Eq | Ne | Shl | LShr | AShr | Add | Mul | UDiv | SDiv | URem | SRem | Sub | Slt | Sge | Ult | Uge
  | And | Or | Xor | Concat
  deriving DecidableEq, Repr

/-- The fixed-width meaning of a binary operation. The operands of every operation but `Concat`
have one width. -/
def BinOp.eval (op : BinOp) (a b : BV) : BV :=
  let r := b.bits.setWidth a.width
  match op with
  | .Eq => .ofBool (a.bits == r)
  | .Ne => .ofBool (a.bits != r)
  | .Shl => ⟨a.width, a.bits <<< r⟩
  | .LShr => ⟨a.width, a.bits >>> r⟩
  | .AShr => ⟨a.width, a.bits.sshiftRight r.toNat⟩
  | .Add => ⟨a.width, a.bits + r⟩
  | .Mul => ⟨a.width, a.bits * r⟩
  | .UDiv => ⟨a.width, a.bits.smtUDiv r⟩
  | .SDiv => ⟨a.width, a.bits.smtSDiv r⟩
  | .URem => ⟨a.width, a.bits.umod r⟩
  | .SRem => ⟨a.width, a.bits.srem r⟩
  | .Sub => ⟨a.width, a.bits - r⟩
  | .Slt => .ofBool (a.bits.slt r)
  | .Sge => .ofBool (r.sle a.bits)
  | .Ult => .ofBool (a.bits.ult r)
  | .Uge => .ofBool (r.ule a.bits)
  | .And => ⟨a.width, a.bits &&& r⟩
  | .Or => ⟨a.width, a.bits ||| r⟩
  | .Xor => ⟨a.width, a.bits ^^^ r⟩
  | .Concat => ⟨a.width + b.width, a.bits ++ b.bits⟩

/-- The width of a result depends on the widths of the operands only. -/
theorem BinOp.width_eval_congr (op : BinOp) {a b a' b' : BV} (h : a.width = b.width)
    (h' : a'.width = b'.width) : (op.eval a a').width = (op.eval b b').width := by
  cases op <;> simp [BinOp.eval, BV.ofBool, h, h']

namespace BV

def not (a : BV) : BV := ⟨a.width, ~~~a.bits⟩

def extract (a : BV) (offset width : Nat) : BV := ⟨width, a.bits.extractLsb' offset width⟩

def sext (a : BV) (width : Nat) : BV := ⟨width, a.bits.signExtend width⟩

def zext (a : BV) (width : Nat) : BV := ⟨width, a.bits.setWidth width⟩

theorem extract_concat_low (a b : BV) {offset width : Nat} (h : offset + width ≤ b.width) :
    (BinOp.Concat.eval a b).extract offset width = b.extract offset width := by
  refine congrArg (BV.mk width) (BitVec.eq_of_getLsbD_eq fun i hi ↦ ?_)
  have hlow : offset + i < b.width := by omega
  simp only [BinOp.eval, BitVec.getLsbD_extractLsb', BitVec.getLsbD_append, hi, hlow, decide_true,
    if_true]

theorem extract_concat_high (a b : BV) : (BinOp.Concat.eval a b).extract b.width a.width = a := by
  refine congrArg (BV.mk a.width) (BitVec.eq_of_getLsbD_eq fun i hi ↦ ?_)
  simp [BinOp.eval, BitVec.getLsbD_append, hi]

theorem extract_self (a : BV) : a.extract 0 a.width = a := by
  refine congrArg (BV.mk a.width) (BitVec.eq_of_getLsbD_eq fun i hi ↦ ?_)
  simp [hi]

end BV

/-- A symbolic array: its name and its size in bytes. -/
structure SymArray where
  name : String
  size : Nat
  deriving DecidableEq, Repr

/-- An assignment of the symbolic arrays, least significant byte first. -/
abbrev Assignment := (array : SymArray) → BitVec (8 * array.size)

inductive Expr
  | constant (value : BV)
  | read (array : SymArray)
  | binary (op : BinOp) (l r : Expr)
  | not (e : Expr)
  | extract (e : Expr) (offset width : Nat)
  | sext (e : Expr) (width : Nat)
  | zext (e : Expr) (width : Nat)
  deriving DecidableEq, Repr

namespace Expr

def eval (σ : Assignment) : Expr → BV
  | constant value => value
  | read array => ⟨8 * array.size, σ array⟩
  | binary op l r => op.eval (l.eval σ) (r.eval σ)
  | not e => (e.eval σ).not
  | extract e offset width => (e.eval σ).extract offset width
  | sext e width => (e.eval σ).sext width
  | zext e width => (e.eval σ).zext width

def getWidth : Expr → Nat
  | constant value => value.width
  | read array => 8 * array.size
  | binary op l r =>
    match op with
    | .Eq | .Ne | .Slt | .Sge | .Ult | .Uge => 1
    | .Concat => l.getWidth + r.getWidth
    | _ => l.getWidth
  | not e => e.getWidth
  | extract _ _ width | sext _ width | zext _ width => width

/-- The arrays an expression reads. -/
def findSymbolicObjects : Expr → List SymArray
  | constant _ => []
  | read array => [array]
  | binary _ l r => l.findSymbolicObjects ++ r.findSymbolicObjects
  | not e | extract e _ _ | sext e _ | zext e _ => e.findSymbolicObjects

attribute [local simp] eval getWidth findSymbolicObjects

theorem width_eval (σ : Assignment) (e : Expr) : (e.eval σ).width = e.getWidth := by
  induction e with
  | constant value => rfl
  | read array => rfl
  | binary op l r ihl ihr => cases op <;> simp [BinOp.eval, BV.ofBool, ihl, ihr]
  | not e ih => simpa [BV.not] using ih
  | extract e offset width ih => rfl
  | sext e width ih => rfl
  | zext e width ih => rfl

/-- The value of an expression depends on the arrays it reads only. -/
theorem eval_congr {σ τ : Assignment} {e : Expr}
    (h : ∀ array ∈ e.findSymbolicObjects, σ array = τ array) : e.eval σ = e.eval τ := by
  induction e with
  | constant value => rfl
  | read array =>
    have harray := h array (by simp)
    simp [harray]
  | binary op l r ihl ihr =>
    have hl : ∀ array ∈ l.findSymbolicObjects, σ array = τ array := by
      intro array ha
      exact h array (by simp [ha])
    have hr : ∀ array ∈ r.findSymbolicObjects, σ array = τ array := by
      intro array ha
      exact h array (by simp [ha])
    rw [eval, eval, ihl hl, ihr hr]
  | not e ih => rw [eval, eval, ih h]
  | extract e offset width ih => rw [eval, eval, ih h]
  | sext e width ih => rw [eval, eval, ih h]
  | zext e width ih => rw [eval, eval, ih h]

/-! ## Conditions -/

/-- A condition holds when its value is the one-bit vector `1`. -/
def Holds (σ : Assignment) (e : Expr) : Prop := e.eval σ = .ofBool true

instance (σ : Assignment) (e : Expr) : Decidable (e.Holds σ) :=
  inferInstanceAs (Decidable (_ = _))

def eqTrue (e : Expr) : Expr := binary .Eq e (constant (.ofBool true))

def eqFalse (e : Expr) : Expr := binary .Eq e (constant (.ofBool false))

theorem holds_congr {σ τ : Assignment} {e : Expr}
    (h : ∀ array ∈ e.findSymbolicObjects, σ array = τ array) : e.Holds σ ↔ e.Holds τ := by
  rw [Holds, Holds, eval_congr h]

theorem eval_of_width_one {e : Expr} (σ : Assignment) (hwidth : e.getWidth = 1) :
    e.eval σ = .ofBool true ∨ e.eval σ = .ofBool false := by
  have hw := width_eval σ e
  rw [hwidth] at hw
  generalize e.eval σ = value at hw ⊢
  obtain ⟨width, bits⟩ := value
  obtain rfl : width = 1 := hw
  rcases BitVec.eq_zero_or_eq_one bits with rfl | rfl
  · exact .inr rfl
  · exact .inl rfl

theorem holds_eqTrue {e : Expr} (σ : Assignment) (hwidth : e.getWidth = 1) :
    e.eqTrue.Holds σ ↔ e.Holds σ := by
  rcases eval_of_width_one σ hwidth with h | h
  all_goals
    rw [Holds, Holds, eqTrue, eval, h, eval]
    decide

theorem holds_eqFalse {e : Expr} (σ : Assignment) (hwidth : e.getWidth = 1) :
    e.eqFalse.Holds σ ↔ ¬ e.Holds σ := by
  rcases eval_of_width_one σ hwidth with h | h
  all_goals
    rw [Holds, Holds, eqFalse, eval, h, eval]
    decide

end Expr

end CoverageVP.Clover
