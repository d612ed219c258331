import Mathlib.Data.BitVec

/-!
# Terms over bit vectors and byte arrays

The sorted terms of the theory of bit vectors that a solver is given, with arrays of bytes that are
indexed by words. A term is well sorted by construction, and its value is an element of its sort.
Division by zero has the value that the theory assigns to it.
-/

namespace CoverageVP.Lib

inductive SmtSort
  | bool
  | bv (width : Nat)
  deriving DecidableEq, Repr

/-- The values of a sort. -/
abbrev SmtSort.Carrier : SmtSort → Type
  | bool => Bool
  | bv width => BitVec width

instance : (s : SmtSort) → DecidableEq s.Carrier
  | .bool => inferInstanceAs (DecidableEq Bool)
  | .bv width => inferInstanceAs (DecidableEq (BitVec width))

inductive BvOp
  | add | sub | mul | udiv | sdiv | urem | srem | and | or | xor
  deriving DecidableEq, Repr

def BvOp.apply {w : Nat} : BvOp → BitVec w → BitVec w → BitVec w
  | add, x, y => x + y
  | sub, x, y => x - y
  | mul, x, y => x * y
  | udiv, x, y => x.smtUDiv y
  | sdiv, x, y => x.smtSDiv y
  | urem, x, y => x.umod y
  | srem, x, y => x.srem y
  | and, x, y => x &&& y
  | or, x, y => x ||| y
  | xor, x, y => x ^^^ y

inductive BvRel
  | ult | ule | slt | sle
  deriving DecidableEq, Repr

def BvRel.apply {w : Nat} : BvRel → BitVec w → BitVec w → Bool
  | ult, x, y => x.ult y
  | ule, x, y => x.ule y
  | slt, x, y => x.slt y
  | sle, x, y => x.sle y

/-- Terms over arrays with names in `A`. -/
inductive SmtTerm (A : Type) : SmtSort → Type
  | truth (b : Bool) : SmtTerm A .bool
  | not (t : SmtTerm A .bool) : SmtTerm A .bool
  | and (l r : SmtTerm A .bool) : SmtTerm A .bool
  | or (l r : SmtTerm A .bool) : SmtTerm A .bool
  | eq {s : SmtSort} (l r : SmtTerm A s) : SmtTerm A .bool
  | ite {s : SmtSort} (c : SmtTerm A .bool) (t e : SmtTerm A s) : SmtTerm A s
  | numeral (w value : Nat) : SmtTerm A (.bv w)
  | concat {w v : Nat} (l : SmtTerm A (.bv w)) (r : SmtTerm A (.bv v)) : SmtTerm A (.bv (w + v))
  | extract {w : Nat} (top bottom : Nat) (t : SmtTerm A (.bv w)) :
      SmtTerm A (.bv (top - bottom + 1))
  | signExt {w : Nat} (n : Nat) (t : SmtTerm A (.bv w)) : SmtTerm A (.bv (w + n))
  | bvnot {w : Nat} (t : SmtTerm A (.bv w)) : SmtTerm A (.bv w)
  | op {w : Nat} (o : BvOp) (l r : SmtTerm A (.bv w)) : SmtTerm A (.bv w)
  | rel {w : Nat} (o : BvRel) (l r : SmtTerm A (.bv w)) : SmtTerm A .bool
  | select (array : A) (index : SmtTerm A (.bv 32)) : SmtTerm A (.bv 8)

/-- The contents of the arrays. -/
abbrev SmtModel (A : Type) := A → BitVec 32 → BitVec 8

namespace SmtTerm

variable {A : Type}

def value (M : SmtModel A) : {s : SmtSort} → SmtTerm A s → s.Carrier
  | _, truth b => b
  | _, not t => !t.value M
  | _, and l r => l.value M && r.value M
  | _, or l r => l.value M || r.value M
  | _, eq l r => decide (l.value M = r.value M)
  | _, ite c t e => if c.value M then t.value M else e.value M
  | _, numeral w value => BitVec.ofNat w value
  | _, concat l r => l.value M ++ r.value M
  | _, extract top bottom t => BitVec.extractLsb' bottom (top - bottom + 1) (t.value M)
  | _, signExt n t => BitVec.signExtend (_ + n) (t.value M)
  | _, bvnot t => ~~~ t.value M
  | _, op o l r => o.apply (l.value M) (r.value M)
  | _, rel o l r => o.apply (l.value M) (r.value M)
  | _, select array index => M array (index.value M)

/-- The formula is true in the model. -/
def Holds (M : SmtModel A) (t : SmtTerm A .bool) : Prop := t.value M = true

end SmtTerm

end CoverageVP.Lib
