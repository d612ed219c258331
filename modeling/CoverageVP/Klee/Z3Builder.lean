import CoverageVP.Klee.Solver
import CoverageVP.Lib.Smt

/-!
# Terms for the core solver

The translation of an expression to a term of Z3. A condition becomes a formula and any other
expression a bit vector. Z3 refuses terms that are not well sorted, on which the error handler
aborts, and some shapes of expressions are refused by assertions; what is translated has the value
of the expression. Shifts by a variable amount become a chain of case distinctions.
-/

namespace CoverageVP.Klee

open Clover (BV SymArray Assignment)
open Lib (Delivers SmtSort SmtTerm SmtModel BvOp BvRel)
open Klee.Expr

/-- A failed assertion and the error handler of Z3 both end the program. -/
inductive Abort
  | abort
  deriving DecidableEq, Repr

/-- A term together with its sort. The arrays of different objects have different names. -/
abbrev Z3ASTHandle := (s : SmtSort) × SmtTerm SymArray s

/-! ## The interface of Z3 -/

namespace Z3

def mkNumeral (width value : Nat) : Except Abort Z3ASTHandle :=
  if width = 0 then throw .abort else return ⟨.bv width, .numeral width value⟩

def mkNot : Z3ASTHandle → Except Abort Z3ASTHandle
  | ⟨.bool, t⟩ => return ⟨.bool, .not t⟩
  | ⟨.bv _, _⟩ => throw .abort

def mkAnd : Z3ASTHandle → Z3ASTHandle → Except Abort Z3ASTHandle
  | ⟨.bool, l⟩, ⟨.bool, r⟩ => return ⟨.bool, .and l r⟩
  | _, _ => throw .abort

def mkOr : Z3ASTHandle → Z3ASTHandle → Except Abort Z3ASTHandle
  | ⟨.bool, l⟩, ⟨.bool, r⟩ => return ⟨.bool, .or l r⟩
  | _, _ => throw .abort

def mkEq : Z3ASTHandle → Z3ASTHandle → Except Abort Z3ASTHandle
  | ⟨s, l⟩, ⟨s', r⟩ => if h : s' = s then return ⟨.bool, .eq l (h ▸ r)⟩ else throw .abort

def mkIte : Z3ASTHandle → Z3ASTHandle → Z3ASTHandle → Except Abort Z3ASTHandle
  | ⟨.bool, c⟩, ⟨s, t⟩, ⟨s', e⟩ =>
    if h : s' = s then return ⟨s, .ite c t (h ▸ e)⟩ else throw .abort
  | _, _, _ => throw .abort

def mkConcat : Z3ASTHandle → Z3ASTHandle → Except Abort Z3ASTHandle
  | ⟨.bv _, l⟩, ⟨.bv _, r⟩ => return ⟨_, .concat l r⟩
  | _, _ => throw .abort

def mkExtract (top bottom : Nat) : Z3ASTHandle → Except Abort Z3ASTHandle
  | ⟨.bv w, t⟩ =>
    if bottom ≤ top ∧ top < w then return ⟨_, .extract top bottom t⟩ else throw .abort
  | ⟨.bool, _⟩ => throw .abort

def mkSignExt (n : Nat) : Z3ASTHandle → Except Abort Z3ASTHandle
  | ⟨.bv _, t⟩ => return ⟨_, .signExt n t⟩
  | ⟨.bool, _⟩ => throw .abort

def mkBvnot : Z3ASTHandle → Except Abort Z3ASTHandle
  | ⟨.bv _, t⟩ => return ⟨_, .bvnot t⟩
  | ⟨.bool, _⟩ => throw .abort

def mkOp (o : BvOp) : Z3ASTHandle → Z3ASTHandle → Except Abort Z3ASTHandle
  | ⟨.bv w, l⟩, ⟨.bv v, r⟩ =>
    if h : v = w then return ⟨.bv w, .op o l (h ▸ r)⟩ else throw .abort
  | _, _ => throw .abort

def mkRel (o : BvRel) : Z3ASTHandle → Z3ASTHandle → Except Abort Z3ASTHandle
  | ⟨.bv w, l⟩, ⟨.bv v, r⟩ =>
    if h : v = w then return ⟨.bool, .rel o l (h ▸ r)⟩ else throw .abort
  | _, _ => throw .abort

def mkSelect (array : SymArray) : Z3ASTHandle → Except Abort Z3ASTHandle
  | ⟨.bv 32, index⟩ => return ⟨.bv 8, .select array index⟩
  | _ => throw .abort

def getBvSortSize : Z3ASTHandle → Except Abort Nat
  | ⟨.bv w, _⟩ => return w
  | ⟨.bool, _⟩ => throw .abort

end Z3

/-! ## The builder -/

namespace Z3Builder

open Z3

def assert (condition : Prop) [Decidable condition] : Except Abort Unit :=
  if condition then pure () else throw .abort

def getBool (b : Bool) : Z3ASTHandle := ⟨.bool, .truth b⟩

/-- The value fits wherever the function is called. -/
def bvConst32 (width value : Nat) : Except Abort Z3ASTHandle := mkNumeral width value

def bvConst64 (width value : Nat) : Except Abort Z3ASTHandle := mkNumeral width value

/-- The loop of `bvZExtConst`, which puts zeros before the term. -/
def padZeros (width : Nat) (expr : Z3ASTHandle) : Except Abort Z3ASTHandle := do
  if 64 < width then
    padZeros (width - 64) (← mkConcat (← bvConst64 64 0) expr)
  else
    mkConcat (← bvConst64 width 0) expr
termination_by width

def bvZExtConst (width value : Nat) : Except Abort Z3ASTHandle := do
  if width ≤ 64 then bvConst64 width value
  else padZeros (width - 64) (← bvConst64 64 value)

def bvSExtConst (width value : Nat) : Except Abort Z3ASTHandle := do
  if width ≤ 64 then bvConst64 width value
  else if value >>> 63 ≠ 0 then
    mkConcat (← mkNumeral (width - 64) (2 ^ (width - 64) - 1)) (← bvConst64 64 value)
  else mkConcat (← mkNumeral (width - 64) 0) (← bvConst64 64 value)

def bvOne (width : Nat) : Except Abort Z3ASTHandle := bvZExtConst width 1

def bvZero (width : Nat) : Except Abort Z3ASTHandle := bvZExtConst width 0

def bvMinusOne (width : Nat) : Except Abort Z3ASTHandle := bvSExtConst width (2 ^ 64 - 1)

def bvExtract (expr : Z3ASTHandle) (top bottom : Nat) : Except Abort Z3ASTHandle :=
  mkExtract top bottom expr

def bvBoolExtract (expr : Z3ASTHandle) (bit : Nat) : Except Abort Z3ASTHandle := do
  mkEq (← bvExtract expr bit bit) (← bvOne 1)

def bvRightShift (expr : Z3ASTHandle) (shift : Nat) : Except Abort Z3ASTHandle := do
  let width ← getBvSortSize expr
  if shift = 0 then return expr
  else if width ≤ shift then bvZero width
  else mkConcat (← bvZero shift) (← bvExtract expr (width - 1) shift)

def bvLeftShift (expr : Z3ASTHandle) (shift : Nat) : Except Abort Z3ASTHandle := do
  let width ← getBvSortSize expr
  if shift = 0 then return expr
  else if width ≤ shift then bvZero width
  else mkConcat (← bvExtract expr (width - shift - 1) 0) (← bvZero shift)

def constructAShrByConstant (expr : Z3ASTHandle) (shift : Nat) (isSigned : Z3ASTHandle) :
    Except Abort Z3ASTHandle := do
  let width ← getBvSortSize expr
  if shift = 0 then return expr
  else if width ≤ shift then bvZero width
  else
    mkIte isSigned (← mkConcat (← bvMinusOne shift) (← bvExtract expr (width - 1) shift))
      (← bvRightShift expr shift)

/-- One case for each shift amount below the bound, the smallest one outermost. -/
def shiftCases (byConstant : Nat → Except Abort Z3ASTHandle) (shift : Z3ASTHandle) (width : Nat) :
    Nat → Z3ASTHandle → Except Abort Z3ASTHandle
  | 0, res => return res
  | i + 1, res => do
    let isAmount ← mkEq shift (← bvConst32 width i)
    shiftCases byConstant shift width i (← mkIte isAmount (← byConstant i) res)

/-- Shifting too far gives zero. -/
def orOvershift (shift : Z3ASTHandle) (width : Nat) (res : Z3ASTHandle) :
    Except Abort Z3ASTHandle := do
  let ex ← mkRel .ult shift (← bvConst32 (← getBvSortSize shift) width)
  mkIte ex res (← bvZero width)

def bvVarLeftShift (expr shift : Z3ASTHandle) : Except Abort Z3ASTHandle := do
  let width ← getBvSortSize expr
  orOvershift shift width (← shiftCases (bvLeftShift expr) shift width width (← bvZero width))

def bvVarRightShift (expr shift : Z3ASTHandle) : Except Abort Z3ASTHandle := do
  let width ← getBvSortSize expr
  orOvershift shift width (← shiftCases (bvRightShift expr) shift width width (← bvZero width))

def bvVarArithRightShift (expr shift : Z3ASTHandle) : Except Abort Z3ASTHandle := do
  let width ← getBvSortSize expr
  let signedBool ← bvBoolExtract expr (width - 1)
  let byConstant (i : Nat) := constructAShrByConstant expr i signedBool
  orOvershift shift width
    (← shiftCases byConstant shift width (width - 1) (← byConstant (width - 1)))

def bvSignExtend (src : Z3ASTHandle) (width : Nat) : Except Abort Z3ASTHandle := do
  let srcWidth ← getBvSortSize src
  assert (srcWidth ≤ width)
  mkSignExt (width - srcWidth) src

def iffExpr : Z3ASTHandle → Z3ASTHandle → Except Abort Z3ASTHandle
  | ⟨.bool, l⟩, ⟨.bool, r⟩ => return ⟨.bool, .eq l r⟩
  | _, _ => throw .abort

def isPowerOfTwo (x : Nat) : Bool := x ≠ 0 && x &&& (x - 1) == 0

def indexOfSingleBit (x : Nat) : Nat := x.log2

/-- The parts of a wide constant from the second one on. -/
def constantParts (a : BV) (res : Z3ASTHandle) : Except Abort Z3ASTHandle := do
  if 64 < a.width then
    let tmp := ConstantExpr.extract a 64 (a.width - 64)
    let width := min 64 tmp.width
    let part ← bvConst64 width (ConstantExpr.extract tmp 0 width).toNat
    constantParts tmp (← mkConcat part res)
  else return res
termination_by a.width
decreasing_by
  simp only [ConstantExpr.extract]
  omega

def constructConstant (a : BV) : Except Abort Z3ASTHandle := do
  if a.width = 1 then return getBool (ConstantExpr.isTrue a)
  else if a.width ≤ 32 then bvConst32 a.width a.toNat
  else if a.width ≤ 64 then bvConst64 a.width a.toNat
  else constantParts a (← bvConst64 64 (ConstantExpr.extract a 0 64).toNat)

/-- An operation that is translated to one of Z3. -/
def plainOp (o : BvOp) (width : Nat) (left right : Z3ASTHandle) : Except Abort Z3ASTHandle := do
  assert (width ≠ 1)
  let result ← mkOp o left right
  assert ((← getBvSortSize result) = width)
  return result

/-- The constant divisors of at most 64 bits that are powers of two. -/
def singleBit : Expr → Option Nat
  | constant a =>
    if a.width ≤ 64 ∧ isPowerOfTwo a.toNat then some (indexOfSingleBit a.toNat) else none
  | _ => none

/-- The constant amounts are cut to 32 bits. -/
def constantAmount : Expr → Option Nat
  | constant a => some (min a.toNat (2 ^ 64 - 1) % 2 ^ 32)
  | _ => none

def constructShift (byConstant : Z3ASTHandle → Nat → Except Abort Z3ASTHandle)
    (byVariable : Z3ASTHandle → Z3ASTHandle → Except Abort Z3ASTHandle) (l r : Expr)
    (left right : Except Abort Z3ASTHandle) : Except Abort Z3ASTHandle := do
  let expr ← left
  assert (l.getWidth ≠ 1)
  match constantAmount r with
  | some amount => byConstant expr amount
  | none => byVariable expr (← right)

def constructArithmetic (kind : ArithmeticKind) (l r : Expr)
    (left right : Except Abort Z3ASTHandle) : Except Abort Z3ASTHandle := do
  let width := l.getWidth
  match kind with
  | .Add => plainOp .add width (← left) (← right)
  | .Sub => plainOp .sub width (← left) (← right)
  | .Mul => plainOp .mul width (← left) (← right)
  | .UDiv =>
    let expr ← left
    assert (width ≠ 1)
    match singleBit r with
    | some bits => bvRightShift expr bits
    | none => plainOp .udiv width expr (← right)
  | .SDiv => plainOp .sdiv width (← left) (← right)
  | .URem =>
    let expr ← left
    assert (width ≠ 1)
    match singleBit r with
    | some 0 => bvZero width
    | some bits =>
      assert (bits < width)
      mkConcat (← bvZero (width - bits)) (← bvExtract expr (bits - 1) 0)
    | none => plainOp .urem width expr (← right)
  | .SRem => plainOp .srem width (← left) (← right)
  | .And => if width = 1 then mkAnd (← left) (← right) else mkOp .and (← left) (← right)
  | .Or => if width = 1 then mkOr (← left) (← right) else mkOp .or (← left) (← right)
  | .Xor =>
    if width = 1 then
      let condition ← left
      let expr ← right
      mkIte condition (← mkNot expr) expr
    else mkOp .xor (← left) (← right)
  | .Shl => constructShift bvLeftShift bvVarLeftShift l r left right
  | .LShr => constructShift bvRightShift bvVarRightShift l r left right
  | .AShr =>
    let byConstant (expr : Z3ASTHandle) (shift : Nat) := do
      constructAShrByConstant expr shift (← bvBoolExtract expr (width - 1))
    constructShift byConstant bvVarArithRightShift l r left right

def constructRel (o : BvRel) (l : Expr) (left right : Z3ASTHandle) : Except Abort Z3ASTHandle := do
  assert (l.getWidth ≠ 1)
  mkRel o left right

def constructComparison (kind : CmpKind) (l : Expr) (left right : Z3ASTHandle) :
    Except Abort Z3ASTHandle :=
  match kind with
  | .Eq =>
    if l.getWidth = 1 then
      match l with
      | constant a => if ConstantExpr.isTrue a then return right else mkNot right
      | _ => iffExpr left right
    else mkEq left right
  | .Ult => constructRel .ult l left right
  | .Ule => constructRel .ule l left right
  | .Slt => constructRel .slt l left right
  | .Sle => constructRel .sle l left right
  | .Ne | .Ugt | .Uge | .Sgt | .Sge => throw .abort

def construct : Expr → Except Abort Z3ASTHandle
  | constant a => constructConstant a
  | .read array index => do mkSelect array (← bvConst32 32 index)
  | concat left right => do
    let res ← construct right
    mkConcat (← construct left) res
  | extract expr offset width => do
    let src ← construct expr
    if width = 1 then bvBoolExtract src offset else bvExtract src (offset + width - 1) offset
  | zext expr width => do
    let src ← construct expr
    if expr.getWidth = 1 then mkIte src (← bvOne width) (← bvZero width)
    else
      assert (expr.getWidth < width)
      mkConcat (← bvZero (width - expr.getWidth)) src
  | sext expr width => do
    let src ← construct expr
    if expr.getWidth = 1 then mkIte src (← bvMinusOne width) (← bvZero width)
    else bvSignExtend src width
  | .not expr => do
    let src ← construct expr
    if expr.getWidth = 1 then mkNot src else mkBvnot src
  | arithmetic kind left right =>
    constructArithmetic kind left right (construct left) (construct right)
  | comparison kind left right => do
    let l ← construct left
    let r ← construct right
    constructComparison kind left l r

section Values

variable {M : SmtModel SymArray} {E : Abort → Prop} {w v : Nat}

def IsBits (M : SmtModel SymArray) (t : Z3ASTHandle) {w : Nat} (x : BitVec w) : Prop :=
  ∃ u : SmtTerm SymArray (.bv w), t = ⟨.bv w, u⟩ ∧ u.value M = x

def IsBool (M : SmtModel SymArray) (t : Z3ASTHandle) (b : Bool) : Prop :=
  ∃ u : SmtTerm SymArray .bool, t = ⟨.bool, u⟩ ∧ u.value M = b

variable {t t' c : Z3ASTHandle} {x : BitVec w} {y : BitVec v} {b b' : Bool}

theorem IsBits.of_toNat (h : IsBits M t x) (hw : w = v) (hxy : x.toNat = y.toNat) :
    IsBits M t y := by
  subst hw
  exact BitVec.eq_of_toNat_eq hxy ▸ h

theorem IsBits.of_getLsbD (h : IsBits M t x) (hw : w = v)
    (hxy : ∀ i < v, x.getLsbD i = y.getLsbD i) : IsBits M t y := by
  subst hw
  exact BitVec.eq_of_getLsbD_eq hxy ▸ h

theorem assert_delivers {condition : Prop} [Decidable condition] (h : condition) :
    Delivers E (assert condition) fun _ ↦ True :=
  Delivers.ite (fun _ ↦ trivial) fun hnot ↦ absurd h hnot

theorem mkNumeral_delivers (hw : 0 < w) (value : Nat) :
    Delivers E (mkNumeral w value) (IsBits M · (BitVec.ofNat w value)) :=
  Delivers.ite (fun h ↦ absurd h hw.ne') fun _ ↦ ⟨_, rfl, rfl⟩

theorem mkNot_delivers (h : IsBool M t b) : Delivers E (mkNot t) (IsBool M · (!b)) := by
  obtain ⟨u, rfl, rfl⟩ := h
  exact ⟨_, rfl, rfl⟩

theorem mkAnd_delivers (h : IsBool M t b) (h' : IsBool M t' b') :
    Delivers E (mkAnd t t') (IsBool M · (b && b')) := by
  obtain ⟨u, rfl, rfl⟩ := h
  obtain ⟨u', rfl, rfl⟩ := h'
  exact ⟨_, rfl, rfl⟩

theorem mkOr_delivers (h : IsBool M t b) (h' : IsBool M t' b') :
    Delivers E (mkOr t t') (IsBool M · (b || b')) := by
  obtain ⟨u, rfl, rfl⟩ := h
  obtain ⟨u', rfl, rfl⟩ := h'
  exact ⟨_, rfl, rfl⟩

theorem iffExpr_delivers (h : IsBool M t b) (h' : IsBool M t' b') :
    Delivers E (iffExpr t t') (IsBool M · (b == b')) := by
  obtain ⟨u, rfl, rfl⟩ := h
  obtain ⟨u', rfl, rfl⟩ := h'
  refine ⟨_, rfl, ?_⟩
  rw [SmtTerm.value]
  cases u.value M <;> cases u'.value M <;> rfl

theorem mkEq_delivers {x' : BitVec w} (h : IsBits M t x) (h' : IsBits M t' x') :
    Delivers E (mkEq t t') (IsBool M · (x == x')) := by
  obtain ⟨u, rfl, rfl⟩ := h
  obtain ⟨u', rfl, rfl⟩ := h'
  rw [mkEq, dif_pos rfl]
  exact ⟨_, rfl, rfl⟩

theorem mkIte_delivers {x' : BitVec w} (hc : IsBool M c b) (h : IsBits M t x)
    (h' : IsBits M t' x') : Delivers E (mkIte c t t') (IsBits M · (if b then x else x')) := by
  obtain ⟨u₀, rfl, rfl⟩ := hc
  obtain ⟨u, rfl, rfl⟩ := h
  obtain ⟨u', rfl, rfl⟩ := h'
  rw [mkIte, dif_pos rfl]
  exact ⟨_, rfl, rfl⟩

theorem mkIte_bool_delivers {b₀ : Bool} (hc : IsBool M c b₀) (h : IsBool M t b)
    (h' : IsBool M t' b') : Delivers E (mkIte c t t') (IsBool M · (if b₀ then b else b')) := by
  obtain ⟨u₀, rfl, rfl⟩ := hc
  obtain ⟨u, rfl, rfl⟩ := h
  obtain ⟨u', rfl, rfl⟩ := h'
  rw [mkIte, dif_pos rfl]
  exact ⟨_, rfl, rfl⟩

theorem mkConcat_delivers (h : IsBits M t x) (h' : IsBits M t' y) :
    Delivers E (mkConcat t t') (IsBits M · (x ++ y)) := by
  obtain ⟨u, rfl, rfl⟩ := h
  obtain ⟨u', rfl, rfl⟩ := h'
  exact ⟨_, rfl, rfl⟩

theorem bvExtract_delivers {top bottom n : Nat} (h : IsBits M t x) (hle : bottom ≤ top)
    (hlt : top < w) (hn : n = top - bottom + 1) :
    Delivers E (bvExtract t top bottom) (IsBits M · (x.extractLsb' bottom n)) := by
  subst hn
  obtain ⟨u, rfl, rfl⟩ := h
  rw [bvExtract, mkExtract, if_pos ⟨hle, hlt⟩]
  exact ⟨_, rfl, rfl⟩

theorem mkSignExt_delivers (n : Nat) (h : IsBits M t x) :
    Delivers E (mkSignExt n t) (IsBits M · (x.signExtend (w + n))) := by
  obtain ⟨u, rfl, rfl⟩ := h
  exact ⟨_, rfl, rfl⟩

theorem mkBvnot_delivers (h : IsBits M t x) : Delivers E (mkBvnot t) (IsBits M · (~~~ x)) := by
  obtain ⟨u, rfl, rfl⟩ := h
  exact ⟨_, rfl, rfl⟩

theorem mkOp_delivers {x' : BitVec w} (o : BvOp) (h : IsBits M t x) (h' : IsBits M t' x') :
    Delivers E (mkOp o t t') (IsBits M · (o.apply x x')) := by
  obtain ⟨u, rfl, rfl⟩ := h
  obtain ⟨u', rfl, rfl⟩ := h'
  rw [mkOp, dif_pos rfl]
  exact ⟨_, rfl, rfl⟩

theorem mkRel_delivers {x' : BitVec w} (o : BvRel) (h : IsBits M t x) (h' : IsBits M t' x') :
    Delivers E (mkRel o t t') (IsBool M · (o.apply x x')) := by
  obtain ⟨u, rfl, rfl⟩ := h
  obtain ⟨u', rfl, rfl⟩ := h'
  rw [mkRel, dif_pos rfl]
  exact ⟨_, rfl, rfl⟩

theorem getBvSortSize_delivers (h : IsBits M t x) : Delivers E (getBvSortSize t) (· = w) := by
  obtain ⟨u, rfl, rfl⟩ := h
  exact rfl

theorem toNat_zero_append (w : Nat) (x : BitVec v) : (0#w ++ x).toNat = x.toNat := by
  rw [BitVec.toNat_append, BitVec.toNat_zero, Nat.zero_shiftLeft, Nat.zero_or]

theorem padZeros_delivers (hv : 0 < v) (h : IsBits M t x) :
    Delivers E (padZeros v t) (IsBits M · (0#v ++ x)) := by
  induction v using Nat.strong_induction_on generalizing w t with
  | _ v ih =>
    rw [padZeros]
    refine Delivers.ite (fun hlt ↦ ?_) fun hle ↦ ?_
    · refine (mkNumeral_delivers (M := M) (by omega) 0).bind fun zero hzero ↦ ?_
      refine (mkConcat_delivers hzero h).bind fun expr hexpr ↦ ?_
      refine (ih (v - 64) (by omega) (by omega) hexpr).post fun t' ht' ↦ ?_
      refine ht'.of_toNat (by omega) ?_
      rw [toNat_zero_append, toNat_zero_append, toNat_zero_append]
    · refine (mkNumeral_delivers (M := M) hv 0).bind fun zero hzero ↦ ?_
      exact mkConcat_delivers hzero h

theorem bvZExtConst_delivers (hw : 0 < w) {value : Nat} (h : value < 2 ^ 64) :
    Delivers E (bvZExtConst w value) (IsBits M · (BitVec.ofNat w value)) := by
  refine Delivers.ite (fun _ ↦ mkNumeral_delivers hw value) fun hlt ↦ ?_
  refine (mkNumeral_delivers (M := M) (by omega) value).bind fun expr hexpr ↦ ?_
  refine (padZeros_delivers (by omega) hexpr).post fun t ht ↦ ht.of_toNat (by omega) ?_
  have hpow : 2 ^ 64 ≤ 2 ^ w := Nat.pow_le_pow_right (by decide) (by omega)
  rw [toNat_zero_append, BitVec.toNat_ofNat, BitVec.toNat_ofNat, Nat.mod_eq_of_lt h,
    Nat.mod_eq_of_lt (h.trans_le hpow)]

theorem bvZero_delivers (hw : 0 < w) : Delivers E (bvZero w) (IsBits M · (0#w)) :=
  bvZExtConst_delivers hw (by decide)

theorem bvOne_delivers (hw : 0 < w) : Delivers E (bvOne w) (IsBits M · (1#w)) :=
  bvZExtConst_delivers hw (by decide)

theorem getLsbD_ones {i n : Nat} (hi : i < w) (hn : i < n) :
    (BitVec.ofNat w (2 ^ n - 1)).getLsbD i = true := by
  rw [BitVec.getLsbD_ofNat, Nat.testBit_two_pow_sub_one, decide_eq_true hi, decide_eq_true hn]
  rfl

theorem bvMinusOne_delivers (hw : 0 < w) :
    Delivers E (bvMinusOne w) (IsBits M · (BitVec.allOnes w)) := by
  have hones {i : Nat} (hi : i < w) : (BitVec.allOnes w).getLsbD i = true := by
    rw [BitVec.getLsbD_allOnes, decide_eq_true hi]
  refine Delivers.ite (fun hle ↦ ?_) fun hlt ↦ Delivers.ite (fun _ ↦ ?_) fun h ↦ absurd h (by decide)
  · refine (mkNumeral_delivers hw _).post fun t ht ↦ ht.of_getLsbD rfl fun i hi ↦ ?_
    rw [hones hi, getLsbD_ones hi (by omega)]
  · refine (mkNumeral_delivers (M := M) (by omega) _).bind fun high hhigh ↦ ?_
    refine (mkNumeral_delivers (M := M) (by decide) _).bind fun low hlow ↦ ?_
    refine (mkConcat_delivers hhigh hlow).post fun t ht ↦ ht.of_getLsbD (by omega) fun i hi ↦ ?_
    rw [hones hi, BitVec.getLsbD_append]
    split_ifs with hi64
    · exact getLsbD_ones hi64 hi64
    · exact getLsbD_ones (by omega) (by omega)

/-! ## Shifts -/

theorem bvRightShift_delivers (hw : 0 < w) (h : IsBits M t x) (shift : Nat) :
    Delivers E (bvRightShift t shift) (IsBits M · (x >>> shift)) := by
  refine (getBvSortSize_delivers h).bind fun width hwidth ↦ ?_
  subst hwidth
  refine Delivers.ite (fun hshift ↦ ?_) fun hshift ↦ Delivers.ite (fun hle ↦ ?_) fun hlt ↦ ?_
  · subst hshift
    exact Delivers.ret h
  · refine (bvZero_delivers hw).post fun t ht ↦ ht.of_toNat rfl ?_
    rw [BitVec.ushiftRight_eq_zero hle]
  · refine (bvZero_delivers (M := M) (Nat.pos_of_ne_zero hshift)).bind fun zero hzero ↦ ?_
    refine (bvExtract_delivers h (by omega) (by omega) rfl).bind fun high hhigh ↦ ?_
    refine (mkConcat_delivers hzero hhigh).post fun t ht ↦ ht.of_getLsbD (by omega) fun i hi ↦ ?_
    simp only [BitVec.getLsbD_append, BitVec.getLsbD_extractLsb', BitVec.getLsbD_ushiftRight,
      BitVec.getLsbD_zero]
    split_ifs with hlow
    · simp only [hlow, decide_true, Bool.true_and]
    · exact (BitVec.getLsbD_of_ge _ _ (by omega)).symm

theorem bvLeftShift_delivers (hw : 0 < w) (h : IsBits M t x) (shift : Nat) :
    Delivers E (bvLeftShift t shift) (IsBits M · (x <<< shift)) := by
  refine (getBvSortSize_delivers h).bind fun width hwidth ↦ ?_
  subst hwidth
  refine Delivers.ite (fun hshift ↦ ?_) fun hshift ↦ Delivers.ite (fun hle ↦ ?_) fun hlt ↦ ?_
  · subst hshift
    exact Delivers.ret ((BitVec.shiftLeft_zero x).symm ▸ h)
  · refine (bvZero_delivers hw).post fun t ht ↦ ht.of_toNat rfl ?_
    rw [BitVec.shiftLeft_eq_zero hle]
  · refine (bvExtract_delivers h (by omega) (by omega) rfl).bind fun low hlow ↦ ?_
    refine (bvZero_delivers (M := M) (Nat.pos_of_ne_zero hshift)).bind fun zero hzero ↦ ?_
    refine (mkConcat_delivers hlow hzero).post fun t ht ↦ ht.of_getLsbD (by omega) fun i hi ↦ ?_
    simp only [BitVec.getLsbD_append, BitVec.getLsbD_extractLsb', BitVec.getLsbD_shiftLeft,
      BitVec.getLsbD_zero, hi, decide_true, Bool.true_and, Nat.zero_add]
    split_ifs with hshift
    · simp [hshift]
    · simp only [hshift, decide_false, Bool.not_false, Bool.true_and]
      rw [decide_eq_true (by omega : i - shift < width - shift - 1 - 0 + 1), Bool.true_and]

theorem bvBoolExtract_delivers {bit : Nat} (h : IsBits M t x) (hbit : bit < w) :
    Delivers E (bvBoolExtract t bit) (IsBool M · (x.getLsbD bit)) := by
  refine (bvExtract_delivers h le_rfl hbit (by omega : 1 = _)).bind fun bits hbits ↦ ?_
  refine (bvOne_delivers (M := M) Nat.one_pos).bind fun one hone ↦ ?_
  refine (mkEq_delivers hbits hone).post fun t ht ↦ ?_
  have heq : (x.extractLsb' bit 1 == 1#1) = x.getLsbD bit := by
    have hbool : ∀ z : BitVec 1, (z == 1#1) = z.getLsbD 0 := by decide
    rw [hbool, BitVec.getLsbD_extractLsb']
    rfl
  exact heq ▸ ht

theorem constructAShrByConstant_delivers {shift : Nat} (h : IsBits M t x) (hc : IsBool M c x.msb)
    (hshift : shift < w) :
    Delivers E (constructAShrByConstant t shift c) (IsBits M · (x.sshiftRight shift)) := by
  refine (getBvSortSize_delivers h).bind fun width hwidth ↦ ?_
  subst hwidth
  refine Delivers.ite (fun hzero ↦ ?_) fun hzero ↦ Delivers.ite (fun hle ↦ ?_) fun hlt ↦ ?_
  · subst hzero
    exact Delivers.ret ((BitVec.sshiftRight_zero (x := x)).symm ▸ h)
  · exact absurd hshift (not_lt.mpr hle)
  · refine (bvMinusOne_delivers (M := M) (Nat.pos_of_ne_zero hzero)).bind fun ones hones ↦ ?_
    refine (bvExtract_delivers h (by omega) (by omega) (by omega : width - shift = _)).bind
      fun high hhigh ↦ ?_
    have hsum : shift + (width - shift) = width := by omega
    refine (mkConcat_delivers hones hhigh).bind fun filled hfilled ↦ ?_
    refine (bvRightShift_delivers (by omega) h shift).bind fun shifted hshifted ↦ ?_
    have hfilled' : IsBits M filled ((BitVec.allOnes shift ++
        x.extractLsb' shift (width - shift)).cast hsum) :=
      hfilled.of_toNat hsum (BitVec.toNat_cast _ _).symm
    refine (mkIte_delivers hc hfilled' hshifted).post fun t ht ↦ ht.of_getLsbD rfl fun i hi ↦ ?_
    rw [BitVec.getLsbD_sshiftRight, decide_eq_false (not_le.mpr hi), Bool.not_false, Bool.true_and]
    cases hmsb : x.msb with
    | false =>
      rw [if_neg Bool.false_ne_true, BitVec.getLsbD_ushiftRight]
      split_ifs with hin
      · rfl
      · exact BitVec.getLsbD_of_ge x _ (not_lt.mp hin)
    | true =>
      rw [if_pos rfl, BitVec.getLsbD_cast, BitVec.getLsbD_append, BitVec.getLsbD_extractLsb',
        BitVec.getLsbD_allOnes]
      by_cases hin : i < width - shift
      · rw [if_pos hin, if_pos (by omega), decide_eq_true hin, Bool.true_and]
      · rw [if_neg hin, if_neg (by omega), decide_eq_true (by omega)]

/-- A chain of case distinctions selects the case of the amount. -/
theorem shiftCases_delivers {byConstant : Nat → Except Abort Z3ASTHandle} {shifted : Nat → BitVec w}
    {amount : Z3ASTHandle} {s : BitVec w} (hw : 0 < w) (hamount : IsBits M amount s) {n : Nat}
    (hn : n ≤ w) (hstep : ∀ i < n, Delivers E (byConstant i) (IsBits M · (shifted i)))
    (h : IsBits M t x) :
    Delivers E (shiftCases byConstant amount w n t)
      (IsBits M · (if s.toNat < n then shifted s.toNat else x)) := by
  induction n generalizing t x with
  | zero => exact Delivers.ret h
  | succ n ih =>
    refine (mkNumeral_delivers (M := M) hw n).bind fun numeral hnumeral ↦ ?_
    refine (mkEq_delivers hamount hnumeral).bind fun isAmount hisAmount ↦ ?_
    refine (hstep n n.lt_succ_self).bind fun step hstepN ↦ ?_
    refine (mkIte_delivers hisAmount hstepN h).bind fun res hres ↦ ?_
    refine (ih (by omega) (fun i hi ↦ hstep i (by omega)) hres).post fun t ht ↦ ?_
    have heq : (s == BitVec.ofNat w n) = decide (s.toNat = n) := by
      have hlt : n < 2 ^ w := (by omega : n < w).trans Nat.lt_two_pow_self
      rw [Bool.eq_iff_iff, beq_iff_eq, decide_eq_true_iff, BitVec.toNat_eq, BitVec.toNat_ofNat,
        Nat.mod_eq_of_lt hlt]
    rw [heq] at ht
    simp only [decide_eq_true_eq] at ht
    rcases lt_trichotomy s.toNat n with hlt | heq | hgt
    · rw [if_pos hlt] at ht
      rwa [if_pos (by omega)]
    · rw [if_neg (by omega), if_pos heq] at ht
      rwa [if_pos (by omega), heq]
    · rw [if_neg (by omega), if_neg hgt.ne'] at ht
      rwa [if_neg (by omega)]

theorem orOvershift_delivers {amount : Z3ASTHandle} {s : BitVec w} (hw : 0 < w)
    (hamount : IsBits M amount s) (h : IsBits M t x) :
    Delivers E (orOvershift amount w t) (IsBits M · (if s.toNat < w then x else 0#w)) := by
  refine (getBvSortSize_delivers hamount).bind fun width hwidth ↦ ?_
  subst hwidth
  refine (mkNumeral_delivers (M := M) hw width).bind fun bound hbound ↦ ?_
  refine (mkRel_delivers .ult hamount hbound).bind fun ex hex ↦ ?_
  refine (bvZero_delivers (M := M) hw).bind fun zero hzero ↦ ?_
  refine (mkIte_delivers hex h hzero).post fun t ht ↦ ?_
  have hlt : BvRel.ult.apply s (BitVec.ofNat width width) = decide (s.toNat < width) := by
    rw [BvRel.apply, BitVec.ult, BitVec.toNat_ofNat, Nat.mod_eq_of_lt Nat.lt_two_pow_self]
  rw [hlt] at ht
  simpa only [decide_eq_true_eq] using ht

theorem bvVarLeftShift_delivers {amount : Z3ASTHandle} {s : BitVec w} (hw : 0 < w)
    (h : IsBits M t x) (hamount : IsBits M amount s) :
    Delivers E (bvVarLeftShift t amount) (IsBits M · (x <<< s)) := by
  refine (getBvSortSize_delivers h).bind fun width hwidth ↦ ?_
  subst hwidth
  refine (bvZero_delivers (M := M) hw).bind fun zero hzero ↦ ?_
  refine (shiftCases_delivers hw hamount le_rfl (fun i _ ↦ bvLeftShift_delivers hw h i)
    hzero).bind fun res hres ↦ ?_
  refine (orOvershift_delivers hw hamount hres).post fun t ht ↦ ?_
  split_ifs at ht with hlt
  · exact ht
  · rwa [BitVec.shiftLeft_eq', BitVec.shiftLeft_eq_zero (not_lt.mp hlt)]

theorem bvVarRightShift_delivers {amount : Z3ASTHandle} {s : BitVec w} (hw : 0 < w)
    (h : IsBits M t x) (hamount : IsBits M amount s) :
    Delivers E (bvVarRightShift t amount) (IsBits M · (x >>> s)) := by
  refine (getBvSortSize_delivers h).bind fun width hwidth ↦ ?_
  subst hwidth
  refine (bvZero_delivers (M := M) hw).bind fun zero hzero ↦ ?_
  refine (shiftCases_delivers hw hamount le_rfl (fun i _ ↦ bvRightShift_delivers hw h i)
    hzero).bind fun res hres ↦ ?_
  refine (orOvershift_delivers hw hamount hres).post fun t ht ↦ ?_
  split_ifs at ht with hlt
  · exact ht
  · rwa [BitVec.ushiftRight_eq', BitVec.ushiftRight_eq_zero (not_lt.mp hlt)]

/-- The translation of an arithmetic shift, which is right if the shift is not too far. -/
theorem bvVarArithRightShift_delivers {amount : Z3ASTHandle} {s : BitVec w} (hlt : s.toNat < w)
    (h : IsBits M t x) (hamount : IsBits M amount s) :
    Delivers E (bvVarArithRightShift t amount) (IsBits M · (x.sshiftRight s.toNat)) := by
  have hw : 0 < w := Nat.zero_lt_of_lt hlt
  refine (getBvSortSize_delivers h).bind fun width hwidth ↦ ?_
  subst hwidth
  refine (bvBoolExtract_delivers h (Nat.sub_one_lt hw.ne')).bind fun signedBool hsigned ↦ ?_
  have hbyConstant (i : Nat) (hi : i < width) : Delivers E
      (constructAShrByConstant t i signedBool) (IsBits M · (x.sshiftRight i)) :=
    constructAShrByConstant_delivers h (BitVec.msb_eq_getLsbD_last x ▸ hsigned) hi
  refine (hbyConstant (width - 1) (by omega)).bind fun last hlast ↦ ?_
  refine (shiftCases_delivers hw hamount (Nat.sub_le _ _) (fun i hi ↦ hbyConstant i (by omega))
    hlast).bind fun res hres ↦ ?_
  refine (orOvershift_delivers hw hamount hres).post fun t ht ↦ ?_
  rw [if_pos hlt] at ht
  split_ifs at ht with hcase
  · exact ht
  · rwa [(by omega : width - 1 = s.toNat)] at ht

theorem getLsbD_extract {a : BV} {offset width i : Nat} (h : offset + width ≤ a.width)
    (hi : i < width) :
    (ConstantExpr.extract a offset width).bits.getLsbD i = a.bits.getLsbD (offset + i) := by
  have hlt : offset + i < a.width := by omega
  have hia : i < a.width := by omega
  simp only [ConstantExpr.extract, BitVec.getLsbD_setWidth, BitVec.getLsbD_sshiftRight, hi, hlt,
    hia.not_ge, decide_true, decide_false, Bool.true_and, Bool.not_false, if_true]

theorem constantParts_delivers {a : BV} (h : IsBits M t x) :
    Delivers E (constantParts a t)
      (IsBits M · (a.bits.extractLsb' 64 (a.width - 64) ++ x)) := by
  obtain ⟨n, hn⟩ : ∃ n, n = a.width := ⟨_, rfl⟩
  induction n using Nat.strong_induction_on generalizing a w t with
  | _ n ih =>
    subst hn
    rw [constantParts]
    refine Delivers.ite (fun hlt ↦ ?_) fun hle ↦ Delivers.ret ?_
    · -- `tmp` is what is left of the constant, and `part` is the lower end of it
      set tmp := ConstantExpr.extract a 64 (a.width - 64) with htmp
      have hwidth : tmp.width = a.width - 64 := rfl
      have hbit {i : Nat} (hi : i < a.width - 64) : tmp.bits.getLsbD i = a.bits.getLsbD (64 + i) :=
        getLsbD_extract (by omega) hi
      dsimp only
      refine (mkNumeral_delivers (M := M) (by omega) _).bind fun part hpart ↦ ?_
      refine (mkConcat_delivers hpart h).bind fun res hres ↦ ?_
      refine (ih (a.width - 64) (by omega) hres hwidth.symm).post fun t ht ↦ ?_
      refine ht.of_getLsbD (by omega) fun i hi ↦ ?_
      rw [BitVec.getLsbD_append, BitVec.getLsbD_append, BitVec.getLsbD_append]
      by_cases hlow : i < w
      · rw [if_pos (by omega), if_pos hlow, if_pos hlow]
      rw [if_neg hlow, if_neg hlow, BitVec.getLsbD_extractLsb', BitVec.getLsbD_extractLsb',
        decide_eq_true (by omega : i - w < a.width - 64), Bool.true_and]
      by_cases hpart : i < min 64 tmp.width + w
      · have hin : i - w < min 64 tmp.width := by omega
        rw [if_pos hpart, BV.toNat, BitVec.ofNat_toNat, BitVec.getLsbD_setWidth,
          decide_eq_true hin, Bool.true_and, getLsbD_extract (by omega) hin, Nat.zero_add,
          hbit (by omega)]
      · rw [if_neg hpart, decide_eq_true (by omega), Bool.true_and, hbit (by omega)]
        congr 1
        omega
    · refine h.of_getLsbD (by omega) fun i hi ↦ ?_
      rw [BitVec.getLsbD_append, if_pos (by omega)]

theorem constructConstant_delivers {a : BV} (h : 0 < a.width) (hne : a.width ≠ 1) :
    Delivers E (constructConstant a) (IsBits M · a.bits) := by
  refine Delivers.ite (fun h ↦ absurd h hne) fun _ ↦ Delivers.ite (fun _ ↦ ?_) fun _ ↦
    Delivers.ite (fun _ ↦ ?_) fun hlt ↦ ?_
  · exact (mkNumeral_delivers h _).post fun t ht ↦ ht.of_toNat rfl (by simp [BV.toNat])
  · exact (mkNumeral_delivers h _).post fun t ht ↦ ht.of_toNat rfl (by simp [BV.toNat])
  · refine (mkNumeral_delivers (M := M) (by decide) _).bind fun low hlow ↦ ?_
    refine (constantParts_delivers hlow).post fun t ht ↦ ht.of_getLsbD (by omega) fun i hi ↦ ?_
    rw [BitVec.getLsbD_append]
    split_ifs with hlow
    · rw [BV.toNat, BitVec.getLsbD_ofNat, decide_eq_true hlow, Bool.true_and, ← BitVec.getLsbD]
      rw [getLsbD_extract (by omega) hlow, Nat.zero_add]
    · rw [BitVec.getLsbD_extractLsb', decide_eq_true (by omega), Bool.true_and]
      congr 1
      omega

theorem exists_of_singleBit {e : Expr} {bits : Nat} (h : singleBit e = some bits) :
    ∃ a, e = constant a ∧ a.toNat = 2 ^ bits := by
  cases e with
  | constant a =>
    simp only [singleBit, Option.ite_none_right_eq_some, Option.some.injEq] at h
    obtain ⟨⟨-, hpower⟩, rfl⟩ := h
    simp only [isPowerOfTwo, Bool.and_eq_true, decide_eq_true_eq, beq_iff_eq] at hpower
    obtain ⟨k, hk⟩ := Nat.ne_zero_and_sub_one_eq_zero_iff_isPowerOfTwo.mp hpower
    exact ⟨a, rfl, by rw [indexOfSingleBit, hk, Nat.log2_two_pow]⟩
  | _ => cases h

theorem smtUDiv_two_pow {y : BitVec w} {bits : Nat} (h : y.toNat = 2 ^ bits) :
    x.smtUDiv y = x >>> bits := by
  have hne : y ≠ 0#w := by
    rintro rfl
    exact absurd h (Nat.two_pow_pos bits).ne
  rw [BitVec.smtUDiv_eq, if_neg hne]
  apply BitVec.eq_of_toNat_eq
  rw [BitVec.toNat_udiv, BitVec.toNat_ushiftRight, h, Nat.shiftRight_eq_div_pow]

theorem umod_two_pow {y : BitVec w} {bits : Nat} (h : y.toNat = 2 ^ bits) :
    (x.umod y).toNat = x.toNat % 2 ^ bits := by
  rw [← h]
  exact BitVec.toNat_umod

end Values

end Z3Builder

/-! ## Values of expressions -/

/-- The shapes that are translated without an abort. A condition becomes a formula, so that it is no
operand of an operation on bit vectors. -/
def Expr.Translatable : Expr → Prop
  | constant _ | .read _ _ => True
  | concat left right =>
    left.Translatable ∧ right.Translatable ∧ left.getWidth ≠ 1 ∧ right.getWidth ≠ 1
  | extract expr _ _ => expr.Translatable ∧ expr.getWidth ≠ 1
  | .not expr => expr.Translatable
  | zext src width => src.Translatable ∧ src.getWidth < width
  | sext src width => src.Translatable ∧ (src.getWidth = 1 → width ≠ 1)
  | arithmetic kind left right => left.Translatable ∧ right.Translatable ∧
      (kind ∈ [.And, .Or, .Xor] ∨ left.getWidth ≠ 1)
  | comparison kind left right => left.Translatable ∧ right.Translatable ∧ kind.IsCanonical ∧
      (kind = .Eq ∨ left.getWidth ≠ 1)

namespace Z3Builder

open Z3

/-- A term for an expression. A condition may be a vector of one bit if nothing was promised. -/
def Codes (M : SmtModel SymArray) (σ : Assignment) (e : Expr) (t : Z3ASTHandle) : Prop :=
  IsBits M t (e.bits σ e.getWidth) ∧ (e.getWidth = 1 → ¬ e.Translatable) ∨
    e.getWidth = 1 ∧ IsBool M t (decide (e.Holds σ))

section Codes

variable {M : SmtModel SymArray} {σ : Assignment} {N : Prop} {e l r : Expr} {t t' : Z3ASTHandle}

theorem Codes.isBits (h : Codes M σ e t) (hwidth : e.getWidth ≠ 1) :
    IsBits M t (e.bits σ e.getWidth) :=
  (h.resolve_right fun hbool ↦ hwidth hbool.1).1

/-- A condition is a formula, or a vector on which the operations on formulas abort. -/
theorem Codes.isBool (h : Codes M σ e t) (hwidth : e.getWidth = 1) :
    IsBool M t (decide (e.Holds σ)) ∨
      (∃ (w : Nat) (u : SmtTerm SymArray (.bv w)), t = ⟨.bv w, u⟩) ∧ ¬ e.Translatable := by
  rcases h with ⟨⟨u, rfl, -⟩, hnot⟩ | ⟨-, hbool⟩
  · exact .inr ⟨⟨_, u, rfl⟩, hnot hwidth⟩
  · exact .inl hbool

/-- A vector is wanted, and a formula makes the operation abort. -/
theorem Codes.isBits_or (h : Codes M σ e t) :
    IsBits M t (e.bits σ e.getWidth) ∨
      (∃ u : SmtTerm SymArray .bool, t = ⟨.bool, u⟩) ∧ e.getWidth = 1 := by
  rcases h with ⟨hbits, -⟩ | ⟨hwidth, u, rfl, -⟩
  · exact .inl hbits
  · exact .inr ⟨⟨u, rfl⟩, hwidth⟩

theorem codes_of_bits (hwidth : e.getWidth ≠ 1) (h : IsBits M t (e.bits σ e.getWidth)) :
    Codes M σ e t :=
  .inl ⟨h, fun h ↦ absurd h hwidth⟩

theorem ofBool_holds (e : Expr) : BitVec.ofBool (decide (e.Holds σ)) = e.bits σ 1 := by
  have hbool : ∀ z : BitVec 1, BitVec.ofBool (decide (z = 1#1)) = z := by decide
  exact hbool _

theorem bits_of_width {w : Nat} (hwidth : w = r.getWidth) (h : IsBits M t (r.bits σ r.getWidth)) :
    IsBits M t (r.bits σ w) := by
  subst hwidth
  exact h

theorem plainOp_delivers (o : BvOp) (hl : Codes M σ l t) (hr : Codes M σ r t')
    (hwidth : l.getWidth = r.getWidth) (hN : l.getWidth = 1 → N) :
    Delivers (fun _ ↦ N) (plainOp o l.getWidth t t') fun res ↦ l.getWidth ≠ 1 ∧
      IsBits M res (o.apply (l.bits σ l.getWidth) (r.bits σ l.getWidth)) := by
  by_cases hone : l.getWidth = 1
  · rw [plainOp, assert, if_neg (not_not.mpr hone)]
    exact hN hone
  · have hrbits := bits_of_width hwidth (hr.isBits (hwidth ▸ hone))
    refine (assert_delivers hone).bind fun _ _ ↦ ?_
    refine (mkOp_delivers o (hl.isBits hone) hrbits).bind fun res hres ↦ ?_
    refine (getBvSortSize_delivers hres).bind fun size hsize ↦ ?_
    exact (assert_delivers hsize).bind fun _ _ ↦ Delivers.ret ⟨hone, hres⟩

theorem constantAmount_eq {amount : Nat} (hwell : r.WellTyped) (hfits : r.AmountFits)
    (h : constantAmount r = some amount) : amount = (r.bits σ r.getWidth).toNat := by
  cases r with
  | constant a =>
    obtain rfl := Option.some.inj h
    have hlt := hfits a rfl
    simp only [bits, getWidth, BitVec.setWidth_eq]
    change _ = a.toNat
    omega
  | _ => cases h

theorem constructShift_delivers {byConstant : Z3ASTHandle → Nat → Except Abort Z3ASTHandle}
    {byVariable : Z3ASTHandle → Z3ASTHandle → Except Abort Z3ASTHandle}
    {left right : Except Abort Z3ASTHandle}
    {shifted : BitVec l.getWidth} (hl : Delivers (fun _ ↦ N) left (Codes M σ l))
    (hr : Delivers (fun _ ↦ N) right (Codes M σ r)) (hwell : r.WellTyped)
    (hwidth : l.getWidth = r.getWidth) (hN : l.getWidth = 1 → N) (hfits : r.AmountFits)
    (hconstant : ∀ t, IsBits M t (l.bits σ l.getWidth) → Delivers (fun _ ↦ N)
      (byConstant t (r.bits σ l.getWidth).toNat) (IsBits M · shifted))
    (hvariable : ∀ t t', IsBits M t (l.bits σ l.getWidth) → IsBits M t' (r.bits σ l.getWidth) →
      Delivers (fun _ ↦ N) (byVariable t t') (IsBits M · shifted)) :
    Delivers (fun _ ↦ N) (constructShift byConstant byVariable l r left right) fun res ↦
      l.getWidth ≠ 1 ∧ IsBits M res shifted := by
  refine hl.bind fun t ht ↦ ?_
  by_cases hone : l.getWidth = 1
  · rw [assert, if_neg (not_not.mpr hone)]
    exact hN hone
  refine (assert_delivers hone).bind fun _ _ ↦ ?_
  have hbits := ht.isBits hone
  cases hamount : constantAmount r with
  | some amount =>
    obtain rfl := constantAmount_eq (σ := σ) hwell hfits hamount
    dsimp only
    rw [← hwidth]
    exact (hconstant t hbits).post fun _ h ↦ ⟨hone, h⟩
  | none =>
    refine hr.bind fun t' ht' ↦ ?_
    have hrbits := bits_of_width hwidth (ht'.isBits (hwidth ▸ hone))
    exact (hvariable t t' hbits hrbits).post fun _ h ↦ ⟨hone, h⟩

def IsVector (t : Z3ASTHandle) : Prop := ∃ (w : Nat) (u : SmtTerm SymArray (.bv w)), t = ⟨.bv w, u⟩

/-- An operation on formulas, which aborts on vectors. -/
structure IsConnective (f : Z3ASTHandle → Z3ASTHandle → Except Abort Z3ASTHandle)
    (connective : Bool → Bool → Bool) : Prop where
  delivers {M : SmtModel SymArray} {t t' : Z3ASTHandle} {b b' : Bool} : IsBool M t b →
    IsBool M t' b' → Delivers (fun _ ↦ False) (f t t') (IsBool M · (connective b b'))
  left {t t' : Z3ASTHandle} : IsVector t → f t t' = .error .abort
  right {t t' : Z3ASTHandle} : IsVector t' → f t t' = .error .abort

theorem IsConnective.codes {f : Z3ASTHandle → Z3ASTHandle → Except Abort Z3ASTHandle}
    {connective : Bool → Bool → Bool} (hf : IsConnective f connective) (hl : Codes M σ l t)
    (hr : Codes M σ r t') (hlwidth : l.getWidth = 1) (hrwidth : r.getWidth = 1)
    (hN : ¬ (l.Translatable ∧ r.Translatable) → N) :
    Delivers (fun _ ↦ N) (f t t')
      (IsBool M · (connective (decide (l.Holds σ)) (decide (r.Holds σ)))) := by
  rcases hl.isBool hlwidth with hlbool | ⟨hvector, hnot⟩
  · rcases hr.isBool hrwidth with hrbool | ⟨hvector, hnot⟩
    · exact (hf.delivers hlbool hrbool).conseq (fun _ h ↦ h) fun _ ↦ False.elim
    · rw [hf.right hvector]
      exact hN fun h ↦ hnot h.2
  · rw [hf.left hvector]
    exact hN fun h ↦ hnot h.1

theorem isConnective_and : IsConnective mkAnd Bool.and where
  delivers := mkAnd_delivers
  left := by
    rintro t t' ⟨w, u, rfl⟩
    rfl
  right := by
    rintro ⟨s, t⟩ t' ⟨w, u, rfl⟩
    cases s <;> rfl

theorem isConnective_or : IsConnective mkOr Bool.or where
  delivers := mkOr_delivers
  left := by
    rintro t t' ⟨w, u, rfl⟩
    rfl
  right := by
    rintro ⟨s, t⟩ t' ⟨w, u, rfl⟩
    cases s <;> rfl

theorem isConnective_iff : IsConnective iffExpr BEq.beq where
  delivers := iffExpr_delivers
  left := by
    rintro t t' ⟨w, u, rfl⟩
    rfl
  right := by
    rintro ⟨s, t⟩ t' ⟨w, u, rfl⟩
    cases s <;> rfl

/-- The exclusive disjunction is a case distinction on the left operand. -/
theorem isConnective_xor :
    IsConnective (fun t t' ↦ do mkIte t (← mkNot t') t') fun b b' ↦ if b then !b' else b' where
  delivers h h' := (mkNot_delivers h').bind fun _ hnegated ↦ mkIte_bool_delivers h hnegated h'
  left := by
    rintro t ⟨s', t'⟩ ⟨w, u, rfl⟩
    cases s' <;> rfl
  right := by
    rintro t t' ⟨w, u, rfl⟩
    rfl

/-- A divisor that is a power of two. -/
theorem toNat_of_singleBit {bits : Nat} (h : singleBit r = some bits) :
    (r.bits σ r.getWidth).toNat = 2 ^ bits := by
  obtain ⟨a, rfl, ha⟩ := exists_of_singleBit h
  rw [Expr.bits, getWidth, BitVec.setWidth_eq]
  exact ha

theorem decide_holds {b : Bool} (h : e.bits σ 1 = BitVec.ofBool b) : decide (e.Holds σ) = b := by
  have hbool : ∀ b, BitVec.ofBool b = 1#1 ↔ b = true := by decide
  rw [Bool.eq_iff_iff, decide_eq_true_iff, Expr.Holds, h]
  exact hbool b

theorem constructArithmetic_delivers {kind : ArithmeticKind} {left right : Except Abort Z3ASTHandle}
    (hwell : (arithmetic kind l r).WellTyped) (hfit : (arithmetic kind l r).ShiftsFit σ)
    (hl : Delivers (fun _ ↦ ¬ l.Translatable) left (Codes M σ l))
    (hr : Delivers (fun _ ↦ ¬ r.Translatable) right (Codes M σ r)) :
    Delivers (fun _ ↦ ¬ (arithmetic kind l r).Translatable)
      (constructArithmetic kind l r left right) (Codes M σ (arithmetic kind l r)) := by
  obtain ⟨hwl, hwr, hwidth, hdiv⟩ := hwell
  have hpos := getWidth_pos hwl
  replace hl : Delivers (fun _ ↦ ¬ (arithmetic kind l r).Translatable) left (Codes M σ l) :=
    hl.conseq (fun _ h ↦ h) fun _ h ht ↦ h ht.1
  replace hr : Delivers (fun _ ↦ ¬ (arithmetic kind l r).Translatable) right (Codes M σ r) :=
    hr.conseq (fun _ h ↦ h) fun _ h ht ↦ h ht.2.1
  have hN (hkind : kind ∉ [ArithmeticKind.And, .Or, .Xor]) (hone : l.getWidth = 1) :
      ¬ (arithmetic kind l r).Translatable :=
    fun ht ↦ ht.2.2.elim hkind fun h ↦ h hone
  have hplain (o : BvOp) (hkind : kind ∉ [ArithmeticKind.And, .Or, .Xor])
      (happly : ∀ {w} (x y : BitVec w), o.apply x y = kind.apply x y) :
      Delivers (fun _ ↦ ¬ (arithmetic kind l r).Translatable)
        (do plainOp o l.getWidth (← left) (← right)) (Codes M σ (arithmetic kind l r)) := by
    refine hl.bind fun t ht ↦ hr.bind fun t' ht' ↦ ?_
    refine (plainOp_delivers o ht ht' hwidth (hN hkind)).post fun res hres ↦ ?_
    rw [happly] at hres
    exact codes_of_bits hres.1 hres.2
  have hbitwise (o : BvOp) {f : Z3ASTHandle → Z3ASTHandle → Except Abort Z3ASTHandle}
      {connective : Bool → Bool → Bool} (hf : IsConnective f connective)
      (happly : ∀ {w} (x y : BitVec w), o.apply x y = kind.apply x y)
      (hbool : ∀ b b', kind.apply (BitVec.ofBool b) (BitVec.ofBool b') =
        BitVec.ofBool (connective b b')) :
      Delivers (fun _ ↦ ¬ (arithmetic kind l r).Translatable)
        (if l.getWidth = 1 then do f (← left) (← right) else do mkOp o (← left) (← right))
        (Codes M σ (arithmetic kind l r)) := by
    refine Delivers.ite (fun hone ↦ ?_) fun hne ↦ ?_
    · refine hl.bind fun t ht ↦ hr.bind fun t' ht' ↦ ?_
      refine (hf.codes ht ht' hone (hwidth ▸ hone) fun hnot htr ↦
        hnot ⟨htr.1, htr.2.1⟩).post fun res hres ↦ .inr ⟨hone, ?_⟩
      have hholds : decide ((arithmetic kind l r).Holds σ) =
          connective (decide (l.Holds σ)) (decide (r.Holds σ)) := by
        refine decide_holds ?_
        rw [Expr.bits, ← ofBool_holds l, ← ofBool_holds r, hbool]
      exact hholds ▸ hres
    · refine hl.bind fun t ht ↦ hr.bind fun t' ht' ↦ ?_
      have hrbits := bits_of_width hwidth (ht'.isBits (hwidth ▸ hne))
      refine (mkOp_delivers o (ht.isBits hne) hrbits).post fun res hres ↦ ?_
      rw [happly] at hres
      exact codes_of_bits hne hres
  cases kind with
  | Add => exact hplain .add (by decide) fun _ _ ↦ rfl
  | Sub => exact hplain .sub (by decide) fun _ _ ↦ rfl
  | Mul => exact hplain .mul (by decide) fun _ _ ↦ rfl
  | SDiv => exact hplain .sdiv (by decide) fun _ _ ↦ rfl
  | SRem => exact hplain .srem (by decide) fun _ _ ↦ rfl
  | UDiv =>
    refine hl.bind fun t ht ↦ ?_
    by_cases hone : l.getWidth = 1
    · rw [assert, if_neg (not_not.mpr hone)]
      exact hN (by decide) hone
    refine (assert_delivers hone).bind fun _ _ ↦ ?_
    cases hsingle : singleBit r with
    | some bits =>
      refine (bvRightShift_delivers hpos (ht.isBits hone) bits).post fun res hres ↦ ?_
      have hdivisor := toNat_of_singleBit (σ := σ) hsingle
      rw [← hwidth] at hdivisor
      rw [← smtUDiv_two_pow hdivisor] at hres
      exact codes_of_bits hone hres
    | none =>
      refine hr.bind fun t' ht' ↦ ?_
      exact (plainOp_delivers .udiv ht ht' hwidth (hN (by decide))).post fun res hres ↦
        codes_of_bits hres.1 hres.2
  | URem =>
    refine hl.bind fun t ht ↦ ?_
    by_cases hone : l.getWidth = 1
    · rw [assert, if_neg (not_not.mpr hone)]
      exact hN (by decide) hone
    refine (assert_delivers hone).bind fun _ _ ↦ ?_
    have hbits := ht.isBits hone
    cases hsingle : singleBit r with
    | some bits =>
      have hdivisor := toNat_of_singleBit (σ := σ) hsingle
      rw [← hwidth] at hdivisor
      have hrem := umod_two_pow (x := l.bits σ l.getWidth) hdivisor
      cases bits with
      | zero =>
        refine (bvZero_delivers hpos).post fun res hres ↦ codes_of_bits hone (hres.of_toNat rfl ?_)
        exact (hrem.trans (Nat.mod_one _)).symm
      | succ n =>
        have hlt : n + 1 < l.getWidth :=
          (Nat.pow_lt_pow_iff_right Nat.one_lt_two).mp (hdivisor ▸ BitVec.isLt _)
        refine (assert_delivers hlt).bind fun _ _ ↦ ?_
        refine (bvZero_delivers (M := M) (by omega)).bind fun zero hzero ↦ ?_
        refine (bvExtract_delivers hbits (Nat.zero_le _) (by omega) rfl).bind fun low hlow ↦ ?_
        refine (mkConcat_delivers hzero hlow).post fun res hres ↦ codes_of_bits hone
          (hres.of_toNat (by rw [getWidth]; omega) ?_)
        rw [toNat_zero_append, BitVec.extractLsb'_toNat, Nat.shiftRight_zero]
        exact hrem.symm
    | none =>
      refine hr.bind fun t' ht' ↦ ?_
      exact (plainOp_delivers .urem ht ht' hwidth (hN (by decide))).post fun res hres ↦
        codes_of_bits hres.1 hres.2
  | And => exact hbitwise .and isConnective_and (fun _ _ ↦ rfl) (by decide)
  | Or => exact hbitwise .or isConnective_or (fun _ _ ↦ rfl) (by decide)
  | Xor => exact hbitwise .xor isConnective_xor (fun _ _ ↦ rfl) (by decide)
  | Shl =>
    refine (constructShift_delivers hl hr hwr hwidth (hN (by decide)) hfit.2.2
      (fun t ht ↦ bvLeftShift_delivers hpos ht _)
      fun t t' ht ht' ↦ bvVarLeftShift_delivers hpos ht ht').post fun res hres ↦ ?_
    exact codes_of_bits hres.1 hres.2
  | LShr =>
    refine (constructShift_delivers hl hr hwr hwidth (hN (by decide)) hfit.2.2
      (fun t ht ↦ bvRightShift_delivers hpos ht _)
      fun t t' ht ht' ↦ bvVarRightShift_delivers hpos ht ht').post fun res hres ↦ ?_
    exact codes_of_bits hres.1 hres.2
  | AShr =>
    have hbyConstant (t : Z3ASTHandle) (ht : IsBits M t (l.bits σ l.getWidth)) :
        Delivers (fun _ ↦ ¬ (arithmetic .AShr l r).Translatable)
          (bvBoolExtract t (l.getWidth - 1) >>=
            constructAShrByConstant t (r.bits σ l.getWidth).toNat)
          (IsBits M · ((l.bits σ l.getWidth).sshiftRight (r.bits σ l.getWidth).toNat)) := by
      refine (bvBoolExtract_delivers ht (Nat.sub_one_lt hpos.ne')).bind fun sign hsign ↦ ?_
      exact constructAShrByConstant_delivers ht (BitVec.msb_eq_getLsbD_last _ ▸ hsign) hfit.2.2.2
    refine (constructShift_delivers hl hr hwr hwidth (hN (by decide)) hfit.2.2.1 hbyConstant
      fun t t' ht ht' ↦ bvVarArithRightShift_delivers hfit.2.2.2 ht ht').post fun res hres ↦ ?_
    exact codes_of_bits hres.1 hres.2

theorem decide_holds_comparison {kind : CmpKind} :
    decide ((comparison kind l r).Holds σ) =
      kind.apply (l.bits σ l.getWidth) (r.bits σ l.getWidth) :=
  decide_holds (by rw [Expr.bits, BitVec.setWidth_eq])

theorem constructRel_delivers {kind : CmpKind} (o : BvRel)
    (happly : ∀ {w} (x y : BitVec w), o.apply x y = kind.apply x y) (hl : Codes M σ l t)
    (hr : Codes M σ r t') (hwidth : l.getWidth = r.getWidth) (hN : l.getWidth = 1 → N) :
    Delivers (fun _ ↦ N) (constructRel o l t t') (Codes M σ (comparison kind l r)) := by
  by_cases hone : l.getWidth = 1
  · rw [constructRel, assert, if_neg (not_not.mpr hone)]
    exact hN hone
  · have hrbits := bits_of_width hwidth (hr.isBits (hwidth ▸ hone))
    refine (assert_delivers hone).bind fun _ _ ↦ ?_
    refine (mkRel_delivers o (hl.isBits hone) hrbits).post fun res hres ↦ .inr ⟨rfl, ?_⟩
    rw [happly] at hres
    exact decide_holds_comparison ▸ hres

theorem decide_holds_eq (hone : l.getWidth = 1) :
    decide ((comparison .Eq l r).Holds σ) = (decide (l.Holds σ) == decide (r.Holds σ)) := by
  have hbool : ∀ b b', (BitVec.ofBool b == BitVec.ofBool b') = (b == b') := by decide
  rw [decide_holds_comparison, hone, CmpKind.apply, ← ofBool_holds l, ← ofBool_holds r, hbool]

theorem constructEq_delivers (hwidth : l.getWidth = r.getWidth) (hwell : l.WellTyped)
    (hl : Codes M σ l t) (hr : Codes M σ r t') :
    Delivers (fun _ ↦ ¬ (comparison .Eq l r).Translatable) (constructComparison .Eq l t t')
      (Codes M σ (comparison .Eq l r)) := by
  have hN (h : ¬ (l.Translatable ∧ r.Translatable)) : ¬ (comparison .Eq l r).Translatable :=
    fun ht ↦ h ⟨ht.1, ht.2.1⟩
  refine Delivers.ite (fun hone ↦ ?_) fun hne ↦ ?_
  · have hrone : r.getWidth = 1 := hwidth ▸ hone
    cases l with
    | constant a =>
      have hholds := decide_holds_eq (σ := σ) (r := r) hone
      rcases ConstantExpr.isTrue_or_isFalse hone with rfl | rfl
      · have hsame : decide ((comparison .Eq (constant (.ofBool true)) r).Holds σ) =
            decide (r.Holds σ) := hholds.trans (Bool.true_beq _)
        refine Delivers.ret ?_
        rcases hr with ⟨hbits, hnot⟩ | ⟨-, hbool⟩
        · refine .inl ⟨?_, fun _ ht ↦ hnot hrone ht.2.1⟩
          have hbits' := bits_of_width hrone.symm hbits
          rwa [← ofBool_holds r, ← hsame, ofBool_holds] at hbits'
        · exact .inr ⟨rfl, hsame ▸ hbool⟩
      · have hopposite : decide ((comparison .Eq (constant (.ofBool false)) r).Holds σ) =
            !decide (r.Holds σ) := hholds.trans (Bool.false_beq _)
        rcases hr.isBool hrone with hbool | ⟨⟨w, u, rfl⟩, hnot⟩
        · exact (mkNot_delivers hbool).post fun res hres ↦ .inr ⟨rfl, hopposite ▸ hres⟩
        · exact hN fun h ↦ hnot h.2
    | _ =>
      refine (isConnective_iff.codes hl hr hone hrone hN).post fun res hres ↦ .inr ⟨rfl, ?_⟩
      exact decide_holds_eq hone ▸ hres
  · have hrbits := bits_of_width hwidth (hr.isBits (hwidth ▸ hne))
    refine (mkEq_delivers (hl.isBits hne) hrbits).post fun res hres ↦ .inr ⟨rfl, ?_⟩
    exact decide_holds_comparison ▸ hres

theorem constructComparison_delivers {kind : CmpKind} (hwell : (comparison kind l r).WellTyped)
    (hl : Codes M σ l t) (hr : Codes M σ r t') :
    Delivers (fun _ ↦ ¬ (comparison kind l r).Translatable) (constructComparison kind l t t')
      (Codes M σ (comparison kind l r)) := by
  obtain ⟨hwl, hwr, hwidth⟩ := hwell
  have hrel (o : BvRel) (hkind : kind ≠ .Eq)
      (happly : ∀ {w} (x y : BitVec w), o.apply x y = kind.apply x y) :
      Delivers (fun _ ↦ ¬ (comparison kind l r).Translatable) (constructRel o l t t')
        (Codes M σ (comparison kind l r)) :=
    constructRel_delivers o happly hl hr hwidth fun hone ht ↦ ht.2.2.2.elim hkind fun h ↦ h hone
  cases kind with
  | Eq => exact constructEq_delivers hwidth hwl hl hr
  | Ult => exact hrel .ult (by decide) fun _ _ ↦ rfl
  | Ule => exact hrel .ule (by decide) fun _ _ ↦ rfl
  | Slt => exact hrel .slt (by decide) fun _ _ ↦ rfl
  | Sle => exact hrel .sle (by decide) fun _ _ ↦ rfl
  | Ne | Ugt | Uge | Sgt | Sge => exact fun ht ↦ ht.2.2.1

/-- The contents of the arrays that are read are the bytes of their values. -/
def Models (M : SmtModel SymArray) (σ : Assignment) (e : Expr) : Prop :=
  ∀ array ∈ e.findSymbolicObjects, ∀ index, index < array.size →
    M array (BitVec.ofNat 32 index) = (σ array).extractLsb' (8 * index) 8

theorem construct_read {array : SymArray} {index : Nat} (hM : Models M σ (.read array index))
    (hindex : index < array.size) :
    Delivers (fun _ ↦ N) (construct (.read array index)) (Codes M σ (.read array index)) := by
  refine (mkNumeral_delivers (M := M) (by decide : 0 < 32) index).bind fun t ht ↦ ?_
  obtain ⟨u, rfl, hu⟩ := ht
  refine codes_of_bits (by decide : 8 ≠ 1) ⟨_, rfl, ?_⟩
  change M array (u.value M) = _
  rw [hu, hM array (List.mem_singleton.mpr rfl) index hindex]
  exact (BitVec.setWidth_eq _).symm

theorem construct_constant {a : BV} (hwell : (constant a).WellTyped) :
    Delivers (fun _ ↦ N) (construct (constant a)) (Codes M σ (constant a)) := by
  by_cases hone : a.width = 1
  · rw [construct, constructConstant, if_pos hone]
    refine Delivers.ret (.inr ⟨hone, _, rfl, ?_⟩)
    rcases ConstantExpr.isTrue_or_isFalse hone with rfl | rfl
    · rfl
    · rfl
  · refine (constructConstant_delivers (M := M) hwell hone).post fun t ht ↦ codes_of_bits hone ?_
    rwa [Expr.bits, getWidth, BitVec.setWidth_eq]

theorem mkConcat_codes (hwl : l.WellTyped) (hwr : r.WellTyped) (hl : Codes M σ l t)
    (hr : Codes M σ r t') (hN : l.getWidth = 1 ∨ r.getWidth = 1 → N) :
    Delivers (fun _ ↦ N) (mkConcat t t') (Codes M σ (concat l r)) := by
  rcases hl.isBits_or with hlbits | ⟨⟨u, rfl⟩, hone⟩
  · rcases hr.isBits_or with hrbits | ⟨⟨u, rfl⟩, hone⟩
    · refine (mkConcat_delivers hlbits hrbits).post fun res hres ↦ codes_of_bits ?_ ?_
      · have := getWidth_pos hwl
        have := getWidth_pos hwr
        rw [getWidth]
        omega
      · rwa [Expr.bits, getWidth, BitVec.setWidth_eq]
    · obtain ⟨v, rfl, -⟩ := hlbits
      exact hN (.inr hone)
  · exact hN (.inl hone)

theorem extract_codes {offset width : Nat} (hwell : (extract e offset width).WellTyped)
    (h : Codes M σ e t) (hN : e.getWidth = 1 → N) :
    Delivers (fun _ ↦ N) (if width = 1 then bvBoolExtract t offset
      else bvExtract t (offset + width - 1) offset) (Codes M σ (extract e offset width)) := by
  obtain ⟨-, hpos, hle⟩ := hwell
  rcases h.isBits_or with hbits | ⟨⟨u, rfl⟩, hone⟩
  · refine Delivers.ite (fun hone ↦ ?_) fun hne ↦ ?_
    · subst hone
      refine (bvBoolExtract_delivers hbits (by omega)).post fun res hres ↦ .inr ⟨rfl, ?_⟩
      have hbool : ∀ z : BitVec 1, z = BitVec.ofBool (z.getLsbD 0) := by decide
      have hholds : decide ((extract e offset 1).Holds σ) =
          (e.bits σ e.getWidth).getLsbD offset := by
        refine decide_holds ?_
        rw [Expr.bits, BitVec.setWidth_eq, hbool ((e.bits σ e.getWidth).extractLsb' offset 1),
          BitVec.getLsbD_extractLsb']
        rfl
      exact hholds ▸ hres
    · refine (bvExtract_delivers hbits (by omega) (by omega) (by omega : width = _)).post
        fun res hres ↦ codes_of_bits hne ?_
      rwa [Expr.bits, getWidth, BitVec.setWidth_eq]
  · split_ifs
    · exact hN hone
    · exact hN hone

theorem not_codes (h : Codes M σ e t) :
    Delivers (fun _ ↦ ¬ e.Translatable) (if e.getWidth = 1 then mkNot t else mkBvnot t)
      (Codes M σ (.not e)) := by
  refine Delivers.ite (fun hone ↦ ?_) fun hne ↦ ?_
  · rcases h.isBool hone with hbool | ⟨⟨w, u, rfl⟩, hnot⟩
    · refine (mkNot_delivers hbool).post fun res hres ↦ .inr ⟨hone, ?_⟩
      have hofBool : ∀ b, ~~~ BitVec.ofBool b = BitVec.ofBool (!b) := by decide
      have hholds : decide ((Expr.not e).Holds σ) = !decide (e.Holds σ) := by
        refine decide_holds ?_
        rw [Expr.bits, ← ofBool_holds e, hofBool]
      exact hholds ▸ hres
    · exact hnot
  · exact (mkBvnot_delivers (h.isBits hne)).post fun res hres ↦ codes_of_bits hne hres

/-- A condition is extended by a case distinction. -/
theorem mkIte_codes {e₀ : Expr} {high low : Z3ASTHandle} {x y : BitVec e₀.getWidth}
    (h : Codes M σ e t) (hone : e.getWidth = 1) (hx : IsBits M high x) (hy : IsBits M low y)
    (hbits : e₀.bits σ e₀.getWidth = if decide (e.Holds σ) then x else y)
    (hnot : e₀.getWidth = 1 → ¬ e₀.Translatable) (hN : ¬ e.Translatable → N) :
    Delivers (fun _ ↦ N) (mkIte t high low) (Codes M σ e₀) := by
  rcases h.isBool hone with hbool | ⟨⟨w, u, rfl⟩, hnottr⟩
  · exact (mkIte_delivers hbool hx hy).post fun res hres ↦ .inl ⟨hbits ▸ hres, hnot⟩
  · exact hN hnottr

theorem zext_codes {width : Nat} (hwell : (zext e width).WellTyped) (h : Codes M σ e t) :
    Delivers (fun _ ↦ ¬ (zext e width).Translatable)
      (if e.getWidth = 1 then do mkIte t (← bvOne width) (← bvZero width)
        else do
          assert (e.getWidth < width)
          mkConcat (← bvZero (width - e.getWidth)) t) (Codes M σ (zext e width)) := by
  have hpos : 0 < width := (getWidth_pos hwell.1).trans_le hwell.2
  refine Delivers.ite (fun hone ↦ ?_) fun hne ↦ ?_
  · refine (bvOne_delivers (M := M) hpos).bind fun one hone' ↦ ?_
    refine (bvZero_delivers (M := M) hpos).bind fun zero hzero ↦ ?_
    have hbool : ∀ b, (BitVec.ofBool b).setWidth width =
        if b then BitVec.ofNat width 1 else BitVec.ofNat width 0 := by
      rintro (_ | _)
      · exact BitVec.setWidth_zero _ _
      · exact BitVec.eq_of_toNat_eq (by simp)
    refine mkIte_codes h hone hone' hzero ?_ (fun hwidth htr ↦ ?_) fun h htr ↦ h htr.1
    · change ((e.bits σ e.getWidth).setWidth width).setWidth width = _
      rw [BitVec.setWidth_eq, hone, ← ofBool_holds e]
      exact hbool _
    · exact absurd htr.2 (not_lt.mpr (hone ▸ le_of_eq hwidth))
  · by_cases hlt : e.getWidth < width
    · refine (assert_delivers hlt).bind fun _ _ ↦ ?_
      refine (bvZero_delivers (M := M) (by omega)).bind fun zero hzero ↦ ?_
      refine (mkConcat_delivers hzero (h.isBits hne)).post fun res hres ↦ ?_
      refine codes_of_bits (by rw [getWidth]; have := getWidth_pos hwell.1; omega)
        (hres.of_toNat (by rw [getWidth]; omega) ?_)
      rw [toNat_zero_append, Expr.bits, getWidth, BitVec.setWidth_eq,
        BitVec.toNat_setWidth_of_le hwell.2]
    · rw [assert, if_neg hlt]
      exact fun htr ↦ hlt htr.2

theorem sext_codes {width : Nat} (hwell : (sext e width).WellTyped) (h : Codes M σ e t) :
    Delivers (fun _ ↦ ¬ (sext e width).Translatable)
      (if e.getWidth = 1 then do mkIte t (← bvMinusOne width) (← bvZero width)
        else bvSignExtend t width) (Codes M σ (sext e width)) := by
  have hpos : 0 < width := (getWidth_pos hwell.1).trans_le hwell.2
  refine Delivers.ite (fun hone ↦ ?_) fun hne ↦ ?_
  · refine (bvMinusOne_delivers (M := M) hpos).bind fun ones hones ↦ ?_
    refine (bvZero_delivers (M := M) hpos).bind fun zero hzero ↦ ?_
    have hbool : ∀ b, (BitVec.ofBool b).signExtend width =
        if b then BitVec.allOnes width else BitVec.ofNat width 0 := by
      intro b
      apply BitVec.eq_of_getLsbD_eq
      intro i hi
      rw [BitVec.getLsbD_signExtend, decide_eq_true hi, Bool.true_and]
      cases b with
      | false => rw [if_neg Bool.false_ne_true]; split_ifs <;> simp
      | true =>
        rw [if_pos rfl, BitVec.getLsbD_allOnes, decide_eq_true hi]
        split_ifs with h0
        · obtain rfl : i = 0 := by omega
          rfl
        · rfl
    refine mkIte_codes h hone hones hzero ?_ (fun hwidth htr ↦ htr.2 hone hwidth) fun h htr ↦
      h htr.1
    change ((e.bits σ e.getWidth).signExtend width).setWidth width = _
    rw [BitVec.setWidth_eq, hone, ← ofBool_holds e]
    exact hbool _
  · refine (getBvSortSize_delivers (h.isBits hne)).bind fun srcWidth hsrc ↦ ?_
    subst hsrc
    refine (assert_delivers hwell.2).bind fun _ _ ↦ ?_
    have hwidth : e.getWidth + (width - e.getWidth) = width := Nat.add_sub_of_le hwell.2
    refine (mkSignExt_delivers _ (h.isBits hne)).post fun res hres ↦ codes_of_bits
      (fun hone ↦ ?_) (hres.of_getLsbD hwidth fun i hi ↦ ?_)
    · have := getWidth_pos hwell.1
      have : width = 1 := hone
      omega
    · change i < width at hi
      change _ = (((e.bits σ e.getWidth).signExtend width).setWidth width).getLsbD i
      rw [BitVec.setWidth_eq, BitVec.getLsbD_signExtend, BitVec.getLsbD_signExtend,
        decide_eq_true hi, decide_eq_true (hwidth.symm ▸ hi)]

/-- A term has the value of the expression, and an abort needs a shape that is not translatable. -/
theorem construct_codes (hM : Models M σ e) (hwell : e.WellTyped) (hfit : e.ShiftsFit σ) :
    Delivers (fun _ ↦ ¬ e.Translatable) (construct e) (Codes M σ e) := by
  induction e with
  | constant a => exact construct_constant hwell
  | read array index => exact construct_read hM hwell
  | concat l r ihl ihr =>
    have hMl : Models M σ l := fun array harray ↦ hM array (List.mem_append_left _ harray)
    have hMr : Models M σ r := fun array harray ↦ hM array (List.mem_append_right _ harray)
    refine ((ihr hMr hwell.2 hfit.2).conseq (fun _ h ↦ h) fun _ h ht ↦ h ht.2.1).bind fun t' ht' ↦ ?_
    refine ((ihl hMl hwell.1 hfit.1).conseq (fun _ h ↦ h) fun _ h ht ↦ h ht.1).bind fun t ht ↦ ?_
    exact mkConcat_codes hwell.1 hwell.2 ht ht' fun h htr ↦ h.elim htr.2.2.1 htr.2.2.2
  | extract e offset width ih =>
    refine ((ih hM hwell.1 hfit).conseq (fun _ h ↦ h) fun _ h ht ↦ h ht.1).bind fun t ht ↦ ?_
    exact extract_codes hwell ht fun h htr ↦ htr.2 h
  | not e ih => exact (ih hM hwell hfit).bind fun t ht ↦ not_codes ht
  | zext e width ih =>
    refine ((ih hM hwell.1 hfit).conseq (fun _ h ↦ h) fun _ h ht ↦ h ht.1).bind fun t ht ↦ ?_
    exact zext_codes hwell ht
  | sext e width ih =>
    refine ((ih hM hwell.1 hfit).conseq (fun _ h ↦ h) fun _ h ht ↦ h ht.1).bind fun t ht ↦ ?_
    exact sext_codes hwell ht
  | arithmetic kind l r ihl ihr =>
    have hMl : Models M σ l := fun array harray ↦ hM array (List.mem_append_left _ harray)
    have hMr : Models M σ r := fun array harray ↦ hM array (List.mem_append_right _ harray)
    exact constructArithmetic_delivers hwell hfit (ihl hMl hwell.1 hfit.1)
      (ihr hMr hwell.2.1 hfit.2.1)
  | comparison kind l r ihl ihr =>
    have hMl : Models M σ l := fun array harray ↦ hM array (List.mem_append_left _ harray)
    have hMr : Models M σ r := fun array harray ↦ hM array (List.mem_append_right _ harray)
    refine ((ihl hMl hwell.1 hfit.1).conseq (fun _ h ↦ h) fun _ h ht ↦ h ht.1).bind fun t ht ↦ ?_
    refine ((ihr hMr hwell.2.1 hfit.2).conseq (fun _ h ↦ h) fun _ h ht ↦ h ht.2.1).bind
      fun t' ht' ↦ ?_
    exact constructComparison_delivers hwell ht ht'

end Codes

end Z3Builder

end CoverageVP.Klee
