import CoverageVP.Klee.Create

/-!
# Sums, shifts and comparisons

The constructors of sums move constants to the front: a sum with a constant operand is pushed into
the other operand, and a sum of which one operand starts with a constant is rebuilt around that
constant. Each of the inner calls has lighter operands, and each of the outer calls has a constant
operand. On one bit the constructors replace arithmetic by logic.

`rebuild` is the constructor of the class of an expression.
-/

namespace CoverageVP.Klee

open Clover (BV SymArray Assignment)
open Klee.Expr

variable {P : Assignment → Prop}

/-! ## Exclusive disjunctions and sums -/

def XorExpr.createPartialR (cl : BV) (r : Expr) : Expr :=
  if ConstantExpr.isZero cl then r
  else if cl.width = 1 then EqExpr.createPartial r (ConstantExpr.zero 1)
  else arithmetic .Xor (constant cl) r

def XorExpr.createPartial (l : Expr) (cr : BV) : Expr := XorExpr.createPartialR cr l

def XorExpr.create : Expr → Expr → Expr :=
  bcreateR .Xor XorExpr.createPartial XorExpr.createPartialR (arithmetic .Xor)

mutual

def AddExpr.createPartialR (cl : BV) (r : Expr) : Expr :=
  if cl.width = 1 then XorExpr.createPartialR cl r
  else if ConstantExpr.isZero cl then r
  else
    match r with
    -- A + (B+c) == (A+B) + c
    | arithmetic .Add (constant b) c =>
      let ab := ConstantExpr.arithmetic .Add cl b
      unlessConstant c (ConstantExpr.arithmetic .Add ab) (AddExpr.createPartialR ab c)
    -- A + (B-c) == (A+B) - c
    | arithmetic .Sub (constant b) c =>
      let ab := ConstantExpr.arithmetic .Add cl b
      unlessConstant c (ConstantExpr.arithmetic .Sub ab) (SubExpr.createPartialR ab c)
    | r => arithmetic .Add (constant cl) r

def SubExpr.createPartialR (cl : BV) (r : Expr) : Expr :=
  if cl.width = 1 then XorExpr.createPartialR cl r
  else
    match r with
    -- A - (B+c) == (A-B) - c
    | arithmetic .Add (constant b) c =>
      let ab := ConstantExpr.arithmetic .Sub cl b
      unlessConstant c (ConstantExpr.arithmetic .Sub ab) (SubExpr.createPartialR ab c)
    -- A - (B-c) == (A-B) + c
    | arithmetic .Sub (constant b) c =>
      let ab := ConstantExpr.arithmetic .Sub cl b
      unlessConstant c (ConstantExpr.arithmetic .Add ab) (AddExpr.createPartialR ab c)
    | r => arithmetic .Sub (constant cl) r

end

def AddExpr.createPartial (l : Expr) (cr : BV) : Expr := AddExpr.createPartialR cr l

/-- `l - c => l + (-c)` -/
def SubExpr.createPartial (l : Expr) (cr : BV) : Expr :=
  AddExpr.createPartial l (ConstantExpr.arithmetic .Sub (ConstantExpr.zero cr.width) cr)

/-- `AddExpr::create` with a constant left operand. -/
def AddExpr.createConstant (cl : BV) (r : Expr) : Expr :=
  unlessConstant r (ConstantExpr.arithmetic .Add cl) (AddExpr.createPartialR cl r)

/-- `SubExpr::create` with a constant left operand. -/
def SubExpr.createConstant (cl : BV) (r : Expr) : Expr :=
  unlessConstant r (ConstantExpr.arithmetic .Sub cl) (SubExpr.createPartialR cl r)

/-- `SubExpr::create` with a constant right operand. -/
def SubExpr.createConstantR (l : Expr) (cr : BV) : Expr :=
  unlessConstant l (ConstantExpr.arithmetic .Sub · cr) (SubExpr.createPartial l cr)

mutual

def AddExpr.create (l r : Expr) : Expr :=
  match l, r with
  | constant cl, r => AddExpr.createConstant cl r
  | l, constant cr => AddExpr.createPartial l cr
  | l, r =>
    if l.getWidth = 1 then arithmetic .Xor l r
    else
      match l, r with
      -- (k+a)+b = k+(a+b)
      | arithmetic .Add (constant k) a, b => AddExpr.createConstant k (AddExpr.create a b)
      -- (k-a)+b = k+(b-a)
      | arithmetic .Sub (constant k) a, b => AddExpr.createConstant k (SubExpr.create b a)
      -- a + (k+b) = k+(a+b)
      | a, arithmetic .Add (constant k) b => AddExpr.createConstant k (AddExpr.create a b)
      -- a + (k-b) = k+(a-b)
      | a, arithmetic .Sub (constant k) b => AddExpr.createConstant k (SubExpr.create a b)
      | l, r => arithmetic .Add l r
termination_by l.weight + r.weight
decreasing_by all_goals simp only [weight, ArithmeticKind.weight]; omega

def SubExpr.create (l r : Expr) : Expr :=
  match l, r with
  | constant cl, r => SubExpr.createConstant cl r
  | l, constant cr => SubExpr.createPartial l cr
  | l, r =>
    if l.getWidth = 1 then arithmetic .Xor l r
    else if l = r then constant (ConstantExpr.zero l.getWidth)
    else
      match l, r with
      -- (k+a)-b = k+(a-b)
      | arithmetic .Add (constant k) a, b => AddExpr.createConstant k (SubExpr.create a b)
      -- (k-a)-b = k-(a+b)
      | arithmetic .Sub (constant k) a, b => SubExpr.createConstant k (AddExpr.create a b)
      -- a - (k+b) = (a-b) - k
      | a, arithmetic .Add (constant k) b => SubExpr.createConstantR (SubExpr.create a b) k
      -- a - (k-b) = (a+b) - k
      | a, arithmetic .Sub (constant k) b => SubExpr.createConstantR (AddExpr.create a b) k
      | l, r => arithmetic .Sub l r
termination_by l.weight + r.weight
decreasing_by all_goals simp only [weight, ArithmeticKind.weight]; omega

end

theorem XorExpr.createPartialR_refines (cl : BV) (r : Expr) :
    Refines P (XorExpr.createPartialR cl r) (arithmetic .Xor (constant cl) r) := by
  rw [XorExpr.createPartialR]
  split_ifs with hzero hwidth
  · exact Refines.xor_zero hzero
  · intro ht
    have hr : r.getWidth = 1 := ht.2.2.1.symm.trans hwidth
    have heq : Refines P (EqExpr.createPartial r (ConstantExpr.zero 1)) (Refines.isZero r) := by
      rw [Refines.isZero, hr]
      exact (EqExpr.createPartialR_refines _ r).trans (Refines.eq_comm _ _)
    exact heq.trans (Refines.xor_isZero (Bool.eq_false_iff.mpr hzero) hwidth) ht
  · exact Refines.refl _

theorem XorExpr.create_refines (l r : Expr) :
    Refines P (XorExpr.create l r) (arithmetic .Xor l r) :=
  bcreateR_refines
    (fun l cr ↦ (XorExpr.createPartialR_refines cr l).trans (Refines.xor_comm _ _))
    XorExpr.createPartialR_refines (fun _ _ ↦ Refines.refl _) l r

theorem xor_refines_add {l r : Expr} (hwidth : l.getWidth = 1) :
    Refines P (arithmetic .Xor l r) (arithmetic .Add l r) :=
  Refines.arithmetic_bool .Add .Xor not_false (by decide) (by decide) hwidth

theorem xor_refines_sub {l r : Expr} (hwidth : l.getWidth = 1) :
    Refines P (arithmetic .Xor l r) (arithmetic .Sub l r) :=
  Refines.arithmetic_bool .Sub .Xor not_false (by decide) (by decide) hwidth

theorem createConstant_refines {kind : ArithmeticKind} {cl : BV} {r rest : Expr}
    (hrest : Refines P rest (arithmetic kind (constant cl) r)) :
    Refines P (unlessConstant r (ConstantExpr.arithmetic kind cl) rest)
      (arithmetic kind (constant cl) r) := by
  apply unlessConstant_refines
  · rintro a rfl
    exact Refines.fold_arithmetic cl a kind
  · exact hrest

/-- Two constants are gathered on the left. -/
theorem gather_refines {inner outer : ArithmeticKind} {cl b : BV} {c rest e₀ : Expr}
    (hrest : Refines P rest (arithmetic outer (constant (ConstantExpr.arithmetic inner cl b)) c))
    (hrule : Refines P (arithmetic outer (arithmetic inner (constant cl) (constant b)) c) e₀) :
    Refines P (unlessConstant c (ConstantExpr.arithmetic outer (ConstantExpr.arithmetic inner cl b))
      rest) e₀ :=
  ((createConstant_refines hrest).trans
    (Refines.arithmetic_congr (Refines.fold_arithmetic cl b inner) (Refines.refl c))).trans hrule

theorem createPartialR_refines :
    (∀ cl r, Refines P (AddExpr.createPartialR cl r) (arithmetic .Add (constant cl) r)) ∧
      ∀ cl r, Refines P (SubExpr.createPartialR cl r) (arithmetic .Sub (constant cl) r) := by
  apply AddExpr.createPartialR.mutual_induct
  case case1 =>
    intro r cl hwidth
    rw [AddExpr.createPartialR.eq_def, if_pos hwidth]
    exact (XorExpr.createPartialR_refines cl r).trans (xor_refines_add hwidth)
  case case2 =>
    intro r cl hwidth hzero
    rw [AddExpr.createPartialR.eq_def, if_neg hwidth, if_pos hzero]
    exact Refines.add_zero hzero
  case case3 =>
    intro cl hwidth hzero b c ab ih
    rw [AddExpr.createPartialR, if_neg hwidth, if_neg hzero]
    exact gather_refines ih (Refines.add_assoc_symm _ _ _)
  case case4 =>
    intro cl hwidth hzero b c ab ih
    rw [AddExpr.createPartialR, if_neg hwidth, if_neg hzero]
    exact gather_refines ih (Refines.add_sub_right _ _ _)
  case case5 =>
    intro cl hwidth hzero r hadd hsub
    rw [AddExpr.createPartialR.eq_def, if_neg hwidth, if_neg hzero]
    split
    · exact absurd rfl (hadd _ _)
    · exact absurd rfl (hsub _ _)
    · exact Refines.refl _
  case case6 =>
    intro r cl hwidth
    rw [SubExpr.createPartialR.eq_def, if_pos hwidth]
    exact (XorExpr.createPartialR_refines cl r).trans (xor_refines_sub hwidth)
  case case7 =>
    intro cl hwidth b c ab ih
    rw [SubExpr.createPartialR, if_neg hwidth]
    exact gather_refines ih (Refines.sub_add_right _ _ _)
  case case8 =>
    intro cl hwidth b c ab ih
    rw [SubExpr.createPartialR, if_neg hwidth]
    exact gather_refines ih (Refines.sub_sub_swap _ _ _)
  case case9 =>
    intro cl hwidth r hadd hsub
    rw [SubExpr.createPartialR.eq_def, if_neg hwidth]
    split
    · exact absurd rfl (hadd _ _)
    · exact absurd rfl (hsub _ _)
    · exact Refines.refl _

theorem AddExpr.createPartial_refines (l : Expr) (cr : BV) :
    Refines P (AddExpr.createPartial l cr) (arithmetic .Add l (constant cr)) :=
  (createPartialR_refines.1 cr l).trans (Refines.add_comm _ _)

theorem zero_sub (a : BV) :
    ConstantExpr.arithmetic .Sub (ConstantExpr.zero a.width) a = ConstantExpr.neg a := by
  have hsub : 0#a.width - a.bits.setWidth a.width = -a.bits := by
    rw [BitVec.setWidth_eq, BitVec.zero_sub]
  exact congrArg (BV.mk a.width) hsub

theorem SubExpr.createPartial_refines (l : Expr) (cr : BV) :
    Refines P (SubExpr.createPartial l cr) (arithmetic .Sub l (constant cr)) := by
  rw [SubExpr.createPartial, zero_sub]
  exact (createPartialR_refines.1 _ l).trans Refines.sub_constant

theorem AddExpr.createConstant_refines (cl : BV) (r : Expr) :
    Refines P (AddExpr.createConstant cl r) (arithmetic .Add (constant cl) r) :=
  Klee.createConstant_refines (createPartialR_refines.1 cl r)

theorem SubExpr.createConstant_refines (cl : BV) (r : Expr) :
    Refines P (SubExpr.createConstant cl r) (arithmetic .Sub (constant cl) r) :=
  Klee.createConstant_refines (createPartialR_refines.2 cl r)

theorem SubExpr.createConstantR_refines (l : Expr) (cr : BV) :
    Refines P (SubExpr.createConstantR l cr) (arithmetic .Sub l (constant cr)) := by
  apply unlessConstant_refines
  · rintro a rfl
    exact Refines.fold_arithmetic a cr .Sub
  · exact SubExpr.createPartial_refines l cr

/-- The measure of the recursion bounds the sum of the weights. -/
theorem create_refines_of_weight (n : Nat) (l r : Expr) (hweight : l.weight + r.weight ≤ n) :
    Refines P (AddExpr.create l r) (arithmetic .Add l r) ∧
      Refines P (SubExpr.create l r) (arithmetic .Sub l r) := by
  induction n generalizing l r with
  | zero =>
    have := l.weight_pos
    omega
  | succ n ih =>
    constructor
    · rw [AddExpr.create.eq_def]
      split
      · exact AddExpr.createConstant_refines _ _
      · exact AddExpr.createPartial_refines _ _
      · split_ifs with hwidth
        · exact xor_refines_add hwidth
        · split
          all_goals try simp only [weight, ArithmeticKind.weight] at hweight
          · exact ((AddExpr.createConstant_refines _ _).trans (Refines.arithmetic_congr
              (Refines.refl _) (ih _ _ (by omega)).1)).trans (Refines.add_assoc _ _ _)
          · exact ((AddExpr.createConstant_refines _ _).trans (Refines.arithmetic_congr
              (Refines.refl _) (ih _ _ (by omega)).2)).trans (Refines.sub_add _ _ _)
          · exact ((AddExpr.createConstant_refines _ _).trans (Refines.arithmetic_congr
              (Refines.refl _) (ih _ _ (by omega)).1)).trans (Refines.add_add_left _ _ _)
          · exact ((AddExpr.createConstant_refines _ _).trans (Refines.arithmetic_congr
              (Refines.refl _) (ih _ _ (by omega)).2)).trans (Refines.add_sub_left _ _ _)
          · exact Refines.refl _
    · rw [SubExpr.create.eq_def]
      split
      · exact SubExpr.createConstant_refines _ _
      · exact SubExpr.createPartial_refines _ _
      · split_ifs with hwidth hself
        · exact xor_refines_sub hwidth
        · exact hself ▸ Refines.sub_self _
        · split
          all_goals try simp only [weight, ArithmeticKind.weight] at hweight
          · exact ((AddExpr.createConstant_refines _ _).trans (Refines.arithmetic_congr
              (Refines.refl _) (ih _ _ (by omega)).2)).trans (Refines.sub_of_add _ _ _)
          · exact ((SubExpr.createConstant_refines _ _).trans (Refines.arithmetic_congr
              (Refines.refl _) (ih _ _ (by omega)).1)).trans (Refines.sub_of_sub _ _ _)
          · exact ((SubExpr.createConstantR_refines _ _).trans (Refines.arithmetic_congr
              (ih _ _ (by omega)).2 (Refines.refl _))).trans (Refines.sub_add_left _ _ _)
          · exact ((SubExpr.createConstantR_refines _ _).trans (Refines.arithmetic_congr
              (ih _ _ (by omega)).1 (Refines.refl _))).trans (Refines.sub_sub_left _ _ _)
          · exact Refines.refl _

theorem AddExpr.create_refines (l r : Expr) :
    Refines P (AddExpr.create l r) (arithmetic .Add l r) :=
  (create_refines_of_weight _ l r le_rfl).1

theorem SubExpr.create_refines (l r : Expr) :
    Refines P (SubExpr.create l r) (arithmetic .Sub l r) :=
  (create_refines_of_weight _ l r le_rfl).2

/-! ## Products, divisions and shifts -/

def MulExpr.createPartialR (cl : BV) (r : Expr) : Expr :=
  if cl.width = 1 then AndExpr.createPartialR cl r
  else if ConstantExpr.isOne cl then r
  else if ConstantExpr.isZero cl then constant cl
  else arithmetic .Mul (constant cl) r

def MulExpr.createPartial (l : Expr) (cr : BV) : Expr := MulExpr.createPartialR cr l

/-- `MulExpr_create` -/
def MulExpr.createPlain (l r : Expr) : Expr :=
  if l.getWidth = 1 then arithmetic .And l r else arithmetic .Mul l r

def MulExpr.create : Expr → Expr → Expr :=
  bcreateR .Mul MulExpr.createPartial MulExpr.createPartialR MulExpr.createPlain

/-- `UDivExpr_create` and `SDivExpr_create`. On one bit the divisor must be `1`. -/
def divCreatePlain (kind : ArithmeticKind) (l r : Expr) : Expr :=
  if l.getWidth = 1 then l else arithmetic kind l r

def UDivExpr.create : Expr → Expr → Expr := bcreate .UDiv (divCreatePlain .UDiv)

def SDivExpr.create : Expr → Expr → Expr := bcreate .SDiv (divCreatePlain .SDiv)

/-- `URemExpr_create` and `SRemExpr_create` -/
def remCreatePlain (kind : ArithmeticKind) (l r : Expr) : Expr :=
  if l.getWidth = 1 then constant (ConstantExpr.zero 1) else arithmetic kind l r

def URemExpr.create : Expr → Expr → Expr := bcreate .URem (remCreatePlain .URem)

def SRemExpr.create : Expr → Expr → Expr := bcreate .SRem (remCreatePlain .SRem)

/-- `ShlExpr_create` and `LShrExpr_create` -/
def shiftCreatePlain (kind : ArithmeticKind) (l r : Expr) : Expr :=
  -- l & !r
  if l.getWidth = 1 then AndExpr.create l (createIsZero r) else arithmetic kind l r

def ShlExpr.create : Expr → Expr → Expr := bcreate .Shl (shiftCreatePlain .Shl)

def LShrExpr.create : Expr → Expr → Expr := bcreate .LShr (shiftCreatePlain .LShr)

/-- `AShrExpr_create` -/
def AShrExpr.createPlain (l r : Expr) : Expr :=
  if l.getWidth = 1 then l else arithmetic .AShr l r

def AShrExpr.create : Expr → Expr → Expr := bcreate .AShr AShrExpr.createPlain

theorem MulExpr.createPartialR_refines (cl : BV) (r : Expr) :
    Refines P (MulExpr.createPartialR cl r) (arithmetic .Mul (constant cl) r) := by
  rw [MulExpr.createPartialR]
  split_ifs with hwidth hone hzero
  · exact (AndExpr.createPartialR_refines cl r).trans
      (Refines.arithmetic_bool .Mul .And not_false (by decide) (by decide) hwidth)
  · exact Refines.mul_one hone
  · exact Refines.mul_zero hzero
  · exact Refines.refl _

theorem MulExpr.create_refines (l r : Expr) :
    Refines P (MulExpr.create l r) (arithmetic .Mul l r) := by
  refine bcreateR_refines
    (fun l cr ↦ (MulExpr.createPartialR_refines cr l).trans (Refines.mul_comm _ _))
    MulExpr.createPartialR_refines (fun l r ↦ ?_) l r
  rw [MulExpr.createPlain]
  split_ifs with hwidth
  · exact Refines.arithmetic_bool .Mul .And not_false (by decide) (by decide) hwidth
  · exact Refines.refl _

/-- On one bit nothing is asked of a division. -/
theorem refines_division {kind : ArithmeticKind} {l r : Expr} (hkind : kind.IsDivision)
    (hwidth : l.getWidth = 1) (e : Expr) : Refines P e (arithmetic kind l r) :=
  fun ht ↦ absurd hwidth (ht.2.2.2 hkind)

theorem divCreate_refines (kind : ArithmeticKind) (hkind : kind.IsDivision) (l r : Expr) :
    Refines P (bcreate kind (divCreatePlain kind) l r) (arithmetic kind l r) := by
  refine bcreate_refines (fun l r ↦ ?_) l r
  rw [divCreatePlain]
  split_ifs with hwidth
  · exact refines_division hkind hwidth _
  · exact Refines.refl _

theorem remCreate_refines (kind : ArithmeticKind) (hkind : kind.IsDivision) (l r : Expr) :
    Refines P (bcreate kind (remCreatePlain kind) l r) (arithmetic kind l r) := by
  refine bcreate_refines (fun l r ↦ ?_) l r
  rw [remCreatePlain]
  split_ifs with hwidth
  · exact refines_division hkind hwidth _
  · exact Refines.refl _

theorem shiftCreate_refines {kind : ArithmeticKind} (hweight : 3 ≤ kind.weight)
    (happly : ∀ x y : BitVec 1, x &&& ~~~ y = kind.apply x y) (l r : Expr) :
    Refines P (bcreate kind (shiftCreatePlain kind) l r) (arithmetic kind l r) := by
  refine bcreate_refines (fun l r ↦ ?_) l r
  rw [shiftCreatePlain]
  split_ifs with hwidth
  · exact ((AndExpr.create_refines _ _).trans (Refines.arithmetic_congr (Refines.refl _)
      (createIsZero_refines r))).trans
      (Refines.arithmetic_isZero_right (by decide) happly hweight hwidth)
  · exact Refines.refl _

theorem AShrExpr.create_refines (l r : Expr) :
    Refines P (AShrExpr.create l r) (arithmetic .AShr l r) := by
  refine bcreate_refines (fun l r ↦ ?_) l r
  rw [AShrExpr.createPlain]
  split_ifs with hwidth
  · exact Refines.ashr_bool hwidth
  · exact Refines.refl _

/-! ## Comparisons -/

def NeExpr.create (l r : Expr) : Expr :=
  EqExpr.create (constant (ConstantExpr.zero 1)) (EqExpr.create l r)

/-- `UltExpr_create`: `!l && r` -/
def UltExpr.createPlain (l r : Expr) : Expr :=
  if l.getWidth = 1 then AndExpr.create (createIsZero l) r else comparison .Ult l r

/-- `UleExpr_create`: `!(l && !r)` -/
def UleExpr.createPlain (l r : Expr) : Expr :=
  if l.getWidth = 1 then OrExpr.create (createIsZero l) r else comparison .Ule l r

/-- `SltExpr_create`: `l && !r` -/
def SltExpr.createPlain (l r : Expr) : Expr :=
  if l.getWidth = 1 then AndExpr.create l (createIsZero r) else comparison .Slt l r

/-- `SleExpr_create`: `!(!l && r)` -/
def SleExpr.createPlain (l r : Expr) : Expr :=
  if l.getWidth = 1 then OrExpr.create l (createIsZero r) else comparison .Sle l r

def UltExpr.create : Expr → Expr → Expr := cmpCreate .Ult UltExpr.createPlain

def UleExpr.create : Expr → Expr → Expr := cmpCreate .Ule UleExpr.createPlain

def SltExpr.create : Expr → Expr → Expr := cmpCreate .Slt SltExpr.createPlain

def SleExpr.create : Expr → Expr → Expr := cmpCreate .Sle SleExpr.createPlain

def UgtExpr.create (l r : Expr) : Expr := UltExpr.create r l

def UgeExpr.create (l r : Expr) : Expr := UleExpr.create r l

def SgtExpr.create (l r : Expr) : Expr := SltExpr.create r l

def SgeExpr.create (l r : Expr) : Expr := SleExpr.create r l

theorem NeExpr.create_refines (l r : Expr) : Refines P (NeExpr.create l r) (comparison .Ne l r) :=
  ((EqExpr.create_refines _ _).trans (Refines.comparison_congr (Refines.refl _)
    (EqExpr.create_refines l r))).trans Refines.ne_eq_false

theorem UltExpr.create_refines (l r : Expr) :
    Refines P (UltExpr.create l r) (comparison .Ult l r) := by
  refine cmpCreate_refines (fun l r ↦ ?_) l r
  rw [UltExpr.createPlain]
  split_ifs with hwidth
  · exact ((AndExpr.create_refines _ _).trans (Refines.arithmetic_congr (createIsZero_refines l)
      (Refines.refl _))).trans
      (Refines.comparison_isZero_left (by decide) (by decide) (by decide) hwidth)
  · exact Refines.refl _

theorem UleExpr.create_refines (l r : Expr) :
    Refines P (UleExpr.create l r) (comparison .Ule l r) := by
  refine cmpCreate_refines (fun l r ↦ ?_) l r
  rw [UleExpr.createPlain]
  split_ifs with hwidth
  · exact ((OrExpr.create_refines _ _).trans (Refines.arithmetic_congr (createIsZero_refines l)
      (Refines.refl _))).trans
      (Refines.comparison_isZero_left (by decide) (by decide) (by decide) hwidth)
  · exact Refines.refl _

theorem SltExpr.create_refines (l r : Expr) :
    Refines P (SltExpr.create l r) (comparison .Slt l r) := by
  refine cmpCreate_refines (fun l r ↦ ?_) l r
  rw [SltExpr.createPlain]
  split_ifs with hwidth
  · exact ((AndExpr.create_refines _ _).trans (Refines.arithmetic_congr (Refines.refl _)
      (createIsZero_refines r))).trans
      (Refines.comparison_isZero_right (by decide) (by decide) (by decide) hwidth)
  · exact Refines.refl _

theorem SleExpr.create_refines (l r : Expr) :
    Refines P (SleExpr.create l r) (comparison .Sle l r) := by
  refine cmpCreate_refines (fun l r ↦ ?_) l r
  rw [SleExpr.createPlain]
  split_ifs with hwidth
  · exact ((OrExpr.create_refines _ _).trans (Refines.arithmetic_congr (Refines.refl _)
      (createIsZero_refines r))).trans
      (Refines.comparison_isZero_right (by decide) (by decide) (by decide) hwidth)
  · exact Refines.refl _

/-! ## The constructor of a class -/

def ArithmeticKind.create : ArithmeticKind → Expr → Expr → Expr
  | Add => AddExpr.create
  | Sub => SubExpr.create
  | Mul => MulExpr.create
  | UDiv => UDivExpr.create
  | SDiv => SDivExpr.create
  | URem => URemExpr.create
  | SRem => SRemExpr.create
  | And => AndExpr.create
  | Or => OrExpr.create
  | Xor => XorExpr.create
  | Shl => ShlExpr.create
  | LShr => LShrExpr.create
  | AShr => AShrExpr.create

def CmpKind.create : CmpKind → Expr → Expr → Expr
  | Eq => EqExpr.create
  | Ne => NeExpr.create
  | Ult => UltExpr.create
  | Ule => UleExpr.create
  | Ugt => UgtExpr.create
  | Uge => UgeExpr.create
  | Slt => SltExpr.create
  | Sle => SleExpr.create
  | Sgt => SgtExpr.create
  | Sge => SgeExpr.create

theorem ArithmeticKind.create_refines (kind : ArithmeticKind) (l r : Expr) :
    Refines P (kind.create l r) (arithmetic kind l r) := by
  cases kind with
  | Add => exact AddExpr.create_refines l r
  | Sub => exact SubExpr.create_refines l r
  | Mul => exact MulExpr.create_refines l r
  | UDiv => exact divCreate_refines .UDiv trivial l r
  | SDiv => exact divCreate_refines .SDiv trivial l r
  | URem => exact remCreate_refines .URem trivial l r
  | SRem => exact remCreate_refines .SRem trivial l r
  | And => exact AndExpr.create_refines l r
  | Or => exact OrExpr.create_refines l r
  | Xor => exact XorExpr.create_refines l r
  | Shl => exact shiftCreate_refines (by decide) (by decide) l r
  | LShr => exact shiftCreate_refines (by decide) (by decide) l r
  | AShr => exact AShrExpr.create_refines l r

theorem CmpKind.create_refines (kind : CmpKind) (l r : Expr) :
    Refines P (kind.create l r) (comparison kind l r) := by
  have hswap {rel rel' : CmpKind} (h : Refines P (rel'.create r l) (comparison rel' r l))
      (happly : ∀ w (x y : BitVec w), rel'.apply y x = rel.apply x y)
      (hweight : rel'.weight ≤ rel.weight) (hcanonical : rel'.IsCanonical) : Refines P (rel'.create r l) (comparison rel l r) :=
    h.trans (Refines.comparison_comm happly hweight hcanonical l r)
  cases kind with
  | Eq => exact EqExpr.create_refines l r
  | Ne => exact NeExpr.create_refines l r
  | Ult => exact UltExpr.create_refines l r
  | Ule => exact UleExpr.create_refines l r
  | Ugt => exact hswap (UltExpr.create_refines r l) (fun _ _ _ ↦ rfl) le_rfl trivial
  | Uge => exact hswap (UleExpr.create_refines r l) (fun _ _ _ ↦ rfl) le_rfl trivial
  | Slt => exact SltExpr.create_refines l r
  | Sle => exact SleExpr.create_refines l r
  | Sgt => exact hswap (SltExpr.create_refines r l) (fun _ _ _ ↦ rfl) le_rfl trivial
  | Sge => exact hswap (SleExpr.create_refines r l) (fun _ _ _ ↦ rfl) le_rfl trivial

end CoverageVP.Klee
