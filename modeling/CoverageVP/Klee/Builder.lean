import CoverageVP.Klee.Rebuild

/-!
# The expression builders

The solver of the concolic engine builds expressions with a simplifying builder over a builder that
folds constants over the default builder, which allocates. The folding builder reassociates sums:
it moves the left operand of a sum on the left out of the sum, so that sums lean to the right, and
it moves the constants it meets on the right to the front. The simplifying builder negates, and
expresses the comparisons that are not canonical by others.

An operation of the builders refines the plain expression. The recursion of the sums ends because
the operands do not get heavier and the left one gets lighter when they do not.
-/

namespace CoverageVP.Klee

open Clover (BV SymArray Assignment)
open Klee.Expr

variable {P : Assignment → Prop}

/-! ## The folding builder -/

namespace ConstantFolding

mutual

/-- `Add` of a constant and an expression. Two constants are folded before. -/
def addConstant (cl : BV) (r : Expr) : Expr :=
  if ConstantExpr.isZero cl then r
  else
    match r with
    -- C_0 + (C_1 + X) ==> (C_0 + C1) + X
    | arithmetic .Add (constant c) x =>
      let sum := ConstantExpr.arithmetic .Add cl c
      unlessConstant x (ConstantExpr.arithmetic .Add sum) (addConstant sum x)
    -- C_0 + (X + C_1) ==> (C_0 + C1) + X
    | arithmetic .Add x (constant c) =>
      let sum := ConstantExpr.arithmetic .Add cl c
      unlessConstant x (ConstantExpr.arithmetic .Add sum) (addConstant sum x)
    -- C_0 + (C_1 - X) ==> (C_0 + C1) - X
    | arithmetic .Sub (constant c) x =>
      let sum := ConstantExpr.arithmetic .Add cl c
      unlessConstant x (ConstantExpr.arithmetic .Sub sum) (subConstant sum x)
    -- C_0 + (X - C_1) ==> (C_0 - C1) + X
    | arithmetic .Sub x (constant c) =>
      let difference := ConstantExpr.arithmetic .Sub cl c
      unlessConstant x (ConstantExpr.arithmetic .Add difference) (addConstant difference x)
    | r => arithmetic .Add (constant cl) r

/-- `Sub` of a constant and an expression. -/
def subConstant (cl : BV) (r : Expr) : Expr :=
  match r with
  -- C_0 - (C_1 + X) ==> (C_0 - C1) - X
  | arithmetic .Add (constant c) x =>
    let difference := ConstantExpr.arithmetic .Sub cl c
    unlessConstant x (ConstantExpr.arithmetic .Sub difference) (subConstant difference x)
  -- C_0 - (X + C_1) ==> (C_0 - C1) - X
  | arithmetic .Add x (constant c) =>
    let difference := ConstantExpr.arithmetic .Sub cl c
    unlessConstant x (ConstantExpr.arithmetic .Sub difference) (subConstant difference x)
  -- C_0 - (C_1 - X) ==> (C_0 - C1) + X
  | arithmetic .Sub (constant c) x =>
    let difference := ConstantExpr.arithmetic .Sub cl c
    unlessConstant x (ConstantExpr.arithmetic .Add difference) (addConstant difference x)
  -- C_0 - (X - C_1) ==> (C_0 + C1) - X
  | arithmetic .Sub x (constant c) =>
    let sum := ConstantExpr.arithmetic .Add cl c
    unlessConstant x (ConstantExpr.arithmetic .Sub sum) (subConstant sum x)
  | r => arithmetic .Sub (constant cl) r

end

theorem weight_unlessConstant_le {e rest : Expr} {fold : BV → BV} {bound : Nat}
    (hpos : 0 < bound) (hrest : rest.weight ≤ bound) :
    (unlessConstant e fold rest).weight ≤ bound := by
  rw [unlessConstant.eq_def]
  split
  · exact hpos
  · exact hrest

theorem weight_gather_le {kind : ArithmeticKind} {c : BV} {x l r rest : Expr} {fold : BV → BV}
    (hrest : rest.weight ≤ x.weight + 4) (h : l = x ∧ r = constant c ∨ l = constant c ∧ r = x) :
    (unlessConstant x fold rest).weight ≤ (arithmetic kind l r).weight + 4 := by
  apply weight_unlessConstant_le
  · omega
  · rcases h with ⟨rfl, rfl⟩ | ⟨rfl, rfl⟩
    all_goals
      simp only [weight]
      omega

/-- Moving a constant into an expression makes it as heavy as a sum at most. -/
theorem weight_constant_le :
    (∀ cl r, (addConstant cl r).weight ≤ r.weight + 4) ∧
      ∀ cl r, (subConstant cl r).weight ≤ r.weight + 4 := by
  apply addConstant.mutual_induct
  case case1 =>
    intro r cl hzero
    rw [addConstant.eq_def, if_pos hzero]
    omega
  case case2 =>
    intro cl hzero c x _ ih
    rw [addConstant, if_neg hzero]
    exact weight_gather_le ih (.inr ⟨rfl, rfl⟩)
  case case3 =>
    intro cl hzero x c hx _ ih
    rw [addConstant, if_neg hzero]
    · exact weight_gather_le ih (.inl ⟨rfl, rfl⟩)
    · exact hx
  case case4 =>
    intro cl hzero c x _ ih
    rw [addConstant, if_neg hzero]
    exact weight_gather_le ih (.inr ⟨rfl, rfl⟩)
  case case5 =>
    intro cl hzero x c hx _ ih
    rw [addConstant, if_neg hzero]
    · exact weight_gather_le ih (.inl ⟨rfl, rfl⟩)
    · exact hx
  case case6 =>
    intro cl hzero r hadd hadd' hsub hsub'
    rw [addConstant.eq_def, if_neg hzero]
    split
    · exact absurd rfl (hadd _ _)
    · exact absurd rfl (hadd' _ _)
    · exact absurd rfl (hsub _ _)
    · exact absurd rfl (hsub' _ _)
    · simp only [weight, ArithmeticKind.weight]
      omega
  case case7 =>
    intro cl c x _ ih
    rw [subConstant]
    exact weight_gather_le ih (.inr ⟨rfl, rfl⟩)
  case case8 =>
    intro cl x c hx _ ih
    rw [subConstant]
    · exact weight_gather_le ih (.inl ⟨rfl, rfl⟩)
    · exact hx
  case case9 =>
    intro cl c x _ ih
    rw [subConstant]
    exact weight_gather_le ih (.inr ⟨rfl, rfl⟩)
  case case10 =>
    intro cl x c hx _ ih
    rw [subConstant]
    · exact weight_gather_le ih (.inl ⟨rfl, rfl⟩)
    · exact hx
  case case11 =>
    intro cl r hadd hadd' hsub hsub'
    rw [subConstant.eq_def]
    split
    · exact absurd rfl (hadd _ _)
    · exact absurd rfl (hadd' _ _)
    · exact absurd rfl (hsub _ _)
    · exact absurd rfl (hsub' _ _)
    · simp only [weight, ArithmeticKind.weight]
      omega

theorem constant_refines :
    (∀ cl r, Refines P (addConstant cl r) (arithmetic .Add (constant cl) r)) ∧
      ∀ cl r, Refines P (subConstant cl r) (arithmetic .Sub (constant cl) r) := by
  apply addConstant.mutual_induct
  case case1 =>
    intro r cl hzero
    rw [addConstant.eq_def, if_pos hzero]
    exact Refines.add_zero hzero
  case case2 =>
    intro cl hzero c x _ ih
    rw [addConstant, if_neg hzero]
    exact gather_refines ih (Refines.add_assoc_symm _ _ _)
  case case3 =>
    intro cl hzero x c hx _ ih
    rw [addConstant, if_neg hzero]
    · exact gather_refines ih ((Refines.add_assoc_symm _ _ _).trans
        (Refines.arithmetic_congr (Refines.refl _) (Refines.add_comm _ _)))
    · exact hx
  case case4 =>
    intro cl hzero c x _ ih
    rw [addConstant, if_neg hzero]
    exact gather_refines ih (Refines.add_sub_right _ _ _)
  case case5 =>
    intro cl hzero x c hx _ ih
    rw [addConstant, if_neg hzero]
    · exact gather_refines ih (Refines.add_sub_swap _ _ _)
    · exact hx
  case case6 =>
    intro cl hzero r hadd hadd' hsub hsub'
    rw [addConstant.eq_def, if_neg hzero]
    split
    · exact absurd rfl (hadd _ _)
    · exact absurd rfl (hadd' _ _)
    · exact absurd rfl (hsub _ _)
    · exact absurd rfl (hsub' _ _)
    · exact Refines.refl _
  case case7 =>
    intro cl c x _ ih
    rw [subConstant]
    exact gather_refines ih (Refines.sub_add_right _ _ _)
  case case8 =>
    intro cl x c hx _ ih
    rw [subConstant]
    · exact gather_refines ih (Refines.sub_add_left _ _ _)
    · exact hx
  case case9 =>
    intro cl c x _ ih
    rw [subConstant]
    exact gather_refines ih (Refines.sub_sub_swap _ _ _)
  case case10 =>
    intro cl x c hx _ ih
    rw [subConstant]
    · exact gather_refines ih (Refines.sub_sub_left _ _ _)
    · exact hx
  case case11 =>
    intro cl r hadd hadd' hsub hsub'
    rw [subConstant.eq_def]
    split
    · exact absurd rfl (hadd _ _)
    · exact absurd rfl (hadd' _ _)
    · exact absurd rfl (hsub _ _)
    · exact absurd rfl (hsub' _ _)
    · exact Refines.refl _

/-- `Add` with a constant in front, whatever the other operand is. -/
def addFront (cl : BV) (r : Expr) : Expr :=
  unlessConstant r (ConstantExpr.arithmetic .Add cl) (addConstant cl r)

/-- `Sub` with a constant in front, whatever the other operand is. -/
def subFront (cl : BV) (r : Expr) : Expr :=
  unlessConstant r (ConstantExpr.arithmetic .Sub cl) (subConstant cl r)

theorem weight_addFront_le (cl : BV) (r : Expr) : (addFront cl r).weight ≤ r.weight + 4 :=
  weight_unlessConstant_le (Nat.succ_pos _) (weight_constant_le.1 cl r)

theorem weight_subFront_le (cl : BV) (r : Expr) : (subFront cl r).weight ≤ r.weight + 4 :=
  weight_unlessConstant_le (Nat.succ_pos _) (weight_constant_le.2 cl r)

theorem addFront_refines (cl : BV) (r : Expr) :
    Refines P (addFront cl r) (arithmetic .Add (constant cl) r) :=
  createConstant_refines (constant_refines.1 cl r)

theorem subFront_refines (cl : BV) (r : Expr) :
    Refines P (subFront cl r) (arithmetic .Sub (constant cl) r) :=
  createConstant_refines (constant_refines.2 cl r)

theorem weight_add_le (l r : Expr) :
    (arithmetic .Add l r).weight ≤ l.weight + r.weight + 3 := by
  simp only [weight, ArithmeticKind.weight]
  omega

theorem weight_addFront_sub_le {x y : Expr} (c : BV)
    (rest : { e : Expr // e.weight ≤ x.weight + y.weight + 3 }) :
    (addFront (ConstantExpr.neg c) rest.1).weight ≤
      x.weight + (arithmetic .Sub y (constant c)).weight + 3 := by
  have hrest := rest.2
  have hfront := weight_addFront_le (ConstantExpr.neg c) rest.1
  simp only [weight, ArithmeticKind.weight]
  omega

mutual

/-- `Add`, with the bound on its weight by which the recursion ends. -/
def addAux (l r : Expr) : { e : Expr // e.weight ≤ l.weight + r.weight + 3 } :=
  match l, r with
  | constant cl, r =>
    ⟨addFront cl r, by have := weight_addFront_le cl r; simp only [weight]; omega⟩
  | l, constant cr =>
    ⟨addConstant cr l, by have := weight_constant_le.1 cr l; simp only [weight]; omega⟩
  -- (X + Y) + Z ==> X + (Y + Z)
  | arithmetic .Add x y, z =>
    match addAux y z with
    | ⟨rest, _⟩ =>
      let sum := addAux x rest
      ⟨sum.1, by have := sum.2; simp only [weight, ArithmeticKind.weight]; omega⟩
  -- (X - Y) + Z ==> X + (Z - Y)
  | arithmetic .Sub x y, z =>
    match subAux z y with
    | ⟨rest, _⟩ =>
      let sum := addAux x rest
      ⟨sum.1, by have := sum.2; simp only [weight, ArithmeticKind.weight]; omega⟩
  -- X + (C_0 + Y) ==> C_0 + (X + Y)
  | x, arithmetic .Add (constant c) y =>
    let rest := addAux x y
    ⟨addFront c rest.1, by
      have := rest.2
      have := weight_addFront_le c rest.1
      simp only [weight, ArithmeticKind.weight]
      omega⟩
  -- X + (Y + C_0) ==> C_0 + (X + Y)
  | x, arithmetic .Add y (constant c) =>
    let rest := addAux x y
    ⟨addFront c rest.1, by
      have := rest.2
      have := weight_addFront_le c rest.1
      simp only [weight, ArithmeticKind.weight]
      omega⟩
  -- X + (C_0 - Y) ==> C_0 + (X - Y)
  | x, arithmetic .Sub (constant c) y =>
    let rest := subAux x y
    ⟨addFront c rest.1, by
      have := rest.2
      have := weight_addFront_le c rest.1
      simp only [weight, ArithmeticKind.weight]
      omega⟩
  -- X + (Y - C_0) ==> -C_0 + (X + Y)
  | x, arithmetic .Sub y (constant c) =>
    let rest := addAux x y
    ⟨addFront (ConstantExpr.neg c) rest.1, weight_addFront_sub_le c rest⟩
  | l, r => ⟨arithmetic .Add l r, weight_add_le l r⟩
termination_by (l.weight + r.weight, l.weight)
decreasing_by
  all_goals
    simp only [weight, ArithmeticKind.weight, Prod.lex_def]
    omega

/-- `Sub`, with the bound on its weight. -/
def subAux (l r : Expr) : { e : Expr // e.weight ≤ l.weight + r.weight + 3 } :=
  match l, r with
  | constant cl, r =>
    ⟨subFront cl r, by have := weight_subFront_le cl r; simp only [weight]; omega⟩
  -- X - C_0 ==> -C_0 + X
  | l, constant cr =>
    ⟨addConstant (ConstantExpr.neg cr) l, by
      have := weight_constant_le.1 (ConstantExpr.neg cr) l
      simp only [weight]
      omega⟩
  -- (X + Y) - Z ==> X + (Y - Z)
  | arithmetic .Add x y, z =>
    match subAux y z with
    | ⟨rest, _⟩ =>
      let sum := addAux x rest
      ⟨sum.1, by have := sum.2; simp only [weight, ArithmeticKind.weight]; omega⟩
  -- (X - Y) - Z ==> X - (Y + Z)
  | arithmetic .Sub x y, z =>
    match addAux y z with
    | ⟨rest, _⟩ =>
      let difference := subAux x rest
      ⟨difference.1, by have := difference.2; simp only [weight, ArithmeticKind.weight]; omega⟩
  -- X - (C + Y) ==> -C + (X - Y)
  | x, arithmetic .Add (constant c) y =>
    let rest := subAux x y
    ⟨addFront (ConstantExpr.neg c) rest.1, by
      have := rest.2
      have := weight_addFront_le (ConstantExpr.neg c) rest.1
      simp only [weight, ArithmeticKind.weight]
      omega⟩
  -- X - (Y + C) ==> -C + (X - Y)
  | x, arithmetic .Add y (constant c) =>
    let rest := subAux x y
    ⟨addFront (ConstantExpr.neg c) rest.1, by
      have := rest.2
      have := weight_addFront_le (ConstantExpr.neg c) rest.1
      simp only [weight, ArithmeticKind.weight]
      omega⟩
  -- X - (C - Y) ==> -C + (X + Y)
  | x, arithmetic .Sub (constant c) y =>
    let rest := addAux x y
    ⟨addFront (ConstantExpr.neg c) rest.1, by
      have := rest.2
      have := weight_addFront_le (ConstantExpr.neg c) rest.1
      simp only [weight, ArithmeticKind.weight]
      omega⟩
  -- X - (Y - C) ==> C + (X - Y)
  | x, arithmetic .Sub y (constant c) =>
    let rest := subAux x y
    ⟨addFront c rest.1, by
      have := rest.2
      have := weight_addFront_le c rest.1
      simp only [weight, ArithmeticKind.weight]
      omega⟩
  | l, r => ⟨arithmetic .Sub l r, by simp only [weight, ArithmeticKind.weight]; omega⟩
termination_by (l.weight + r.weight, l.weight)
decreasing_by
  all_goals
    simp only [weight, ArithmeticKind.weight, Prod.lex_def]
    omega

end

def add (l r : Expr) : Expr := (addAux l r).1

def sub (l r : Expr) : Expr := (subAux l r).1

/-- A constant is moved out of a sum to the front. -/
theorem addFront_trans {kind : ArithmeticKind} {c : BV} {l r rest e₀ : Expr}
    (hrest : Refines P rest (arithmetic kind l r))
    (hrule : Refines P (arithmetic .Add (constant c) (arithmetic kind l r)) e₀) :
    Refines P (addFront c rest) e₀ :=
  ((addFront_refines c rest).trans (Refines.arithmetic_congr (Refines.refl _) hrest)).trans hrule

/-- The left operand of a sum on the left is moved out of it. -/
theorem lean_trans {kind kind' : ArithmeticKind} {x y z rest e e₀ : Expr}
    (hrest : Refines P rest (arithmetic kind y z))
    (he : Refines P e (arithmetic kind' x rest))
    (hrule : Refines P (arithmetic kind' x (arithmetic kind y z)) e₀) : Refines P e e₀ :=
  (he.trans (Refines.arithmetic_congr (Refines.refl _) hrest)).trans hrule

theorem aux_refines :
    (∀ l r, Refines P (addAux l r).1 (arithmetic .Add l r)) ∧
      ∀ l r, Refines P (subAux l r).1 (arithmetic .Sub l r) := by
  apply addAux.mutual_induct
  case case1 =>
    intro cl r
    rw [addAux]
    exact addFront_refines cl r
  case case2 =>
    intro l cr hl
    rw [addAux]
    · exact (constant_refines.1 cr l).trans (Refines.add_comm _ _)
    · exact hl
  case case3 =>
    intro x y z hz rest property hrest ihyz ih
    rw [addAux]
    · obtain rfl : (addAux y z).1 = rest := congrArg Subtype.val hrest
      exact lean_trans ihyz ih (Refines.add_assoc _ _ _)
    · exact hz
  case case4 =>
    intro x y z hz rest property hrest ihyz ih
    rw [addAux]
    · obtain rfl : (subAux z y).1 = rest := congrArg Subtype.val hrest
      exact lean_trans ihyz ih (Refines.sub_add _ _ _)
    · exact hz
  case case5 =>
    intro x c y hx hadd hsub ih
    rw [addAux]
    · exact addFront_trans ih (Refines.add_add_left _ _ _)
    all_goals assumption
  case case6 =>
    intro x y c hx hadd hsub hy ih
    rw [addAux]
    · exact addFront_trans ih (Refines.add_add_right _ _ _)
    all_goals assumption
  case case7 =>
    intro x c y hx hadd hsub ih
    rw [addAux]
    · exact addFront_trans ih (Refines.add_sub_left _ _ _)
    all_goals assumption
  case case8 =>
    intro x y c hx hadd hsub hy ih
    rw [addAux]
    · exact addFront_trans ih (Refines.sub_constant.trans (Refines.add_sub_right _ _ _))
    all_goals assumption
  case case9 =>
    intro l r hl hr hadd hsub hadd' hadd'' hsub' hsub''
    rw [addAux]
    · exact Refines.refl _
    all_goals assumption
  case case10 =>
    intro cl r
    rw [subAux]
    exact subFront_refines cl r
  case case11 =>
    intro l cr hl
    rw [subAux]
    · exact (constant_refines.1 _ l).trans Refines.sub_constant
    · exact hl
  case case12 =>
    intro x y z hz rest property hrest ihyz ih
    rw [subAux]
    · obtain rfl : (subAux y z).1 = rest := congrArg Subtype.val hrest
      exact lean_trans ihyz ih (Refines.sub_of_add _ _ _)
    · exact hz
  case case13 =>
    intro x y z hz rest property hrest ihyz ih
    rw [subAux]
    · obtain rfl : (addAux y z).1 = rest := congrArg Subtype.val hrest
      exact lean_trans ihyz ih (Refines.sub_of_sub _ _ _)
    · exact hz
  case case14 =>
    intro x c y hx hadd hsub ih
    rw [subAux]
    · exact addFront_trans ih (Refines.sub_constant.trans (Refines.sub_add_left _ _ _))
    all_goals assumption
  case case15 =>
    intro x y c hx hadd hsub hy ih
    rw [subAux]
    · exact addFront_trans ih (Refines.sub_constant.trans (Refines.sub_add_right _ _ _))
    all_goals assumption
  case case16 =>
    intro x c y hx hadd hsub ih
    rw [subAux]
    · exact addFront_trans ih (Refines.sub_constant.trans (Refines.sub_sub_left _ _ _))
    all_goals assumption
  case case17 =>
    intro x y c hx hadd hsub hy ih
    rw [subAux]
    · exact addFront_trans ih (Refines.sub_sub_right _ _ _)
    all_goals assumption
  case case18 =>
    intro l r hl hr hadd hsub hadd' hadd'' hsub' hsub''
    rw [subAux]
    · exact Refines.refl _
    all_goals assumption

theorem add_refines (l r : Expr) : Refines P (add l r) (arithmetic .Add l r) := aux_refines.1 l r

theorem sub_refines (l r : Expr) : Refines P (sub l r) (arithmetic .Sub l r) := aux_refines.2 l r

/-! ### Products, conjunctions and disjunctions -/

/-- `Mul` of a constant and an expression. -/
def mulConstant (cl : BV) (r : Expr) : Expr :=
  if ConstantExpr.isZero cl then constant cl
  else if ConstantExpr.isOne cl then r
  else arithmetic .Mul (constant cl) r

/-- `And` of a constant and an expression. -/
def andConstant (cl : BV) (r : Expr) : Expr :=
  if ConstantExpr.isZero cl then constant cl
  else if ConstantExpr.isAllOnes cl then r
  else arithmetic .And (constant cl) r

/-- `Or` of a constant and an expression. -/
def orConstant (cl : BV) (r : Expr) : Expr :=
  if ConstantExpr.isZero cl then r
  else if ConstantExpr.isAllOnes cl then constant cl
  else arithmetic .Or (constant cl) r

/-- `Xor` of a constant and an expression. -/
def xorConstant (cl : BV) (r : Expr) : Expr :=
  if ConstantExpr.isZero cl then r else arithmetic .Xor (constant cl) r

/-- A constant on the right is treated as one on the left. -/
def commutative (kind : ArithmeticKind) (onConstant : BV → Expr → Expr) : Expr → Expr → Expr :=
  bcreateR kind (fun l cr ↦ onConstant cr l) onConstant (arithmetic kind)

def mul : Expr → Expr → Expr := commutative .Mul mulConstant

def and : Expr → Expr → Expr := commutative .And andConstant

def or : Expr → Expr → Expr := commutative .Or orConstant

def xor : Expr → Expr → Expr := commutative .Xor xorConstant

theorem mulConstant_refines (cl : BV) (r : Expr) :
    Refines P (mulConstant cl r) (arithmetic .Mul (constant cl) r) := by
  rw [mulConstant]
  split_ifs with hzero hone
  · exact Refines.mul_zero hzero
  · exact Refines.mul_one hone
  · exact Refines.refl _

theorem andConstant_refines (cl : BV) (r : Expr) :
    Refines P (andConstant cl r) (arithmetic .And (constant cl) r) := by
  rw [andConstant]
  split_ifs with hzero hones
  · exact Refines.and_zero hzero
  · exact Refines.and_allOnes hones
  · exact Refines.refl _

theorem orConstant_refines (cl : BV) (r : Expr) :
    Refines P (orConstant cl r) (arithmetic .Or (constant cl) r) := by
  rw [orConstant]
  split_ifs with hzero hones
  · exact Refines.or_zero hzero
  · exact Refines.or_allOnes hones
  · exact Refines.refl _

theorem xorConstant_refines (cl : BV) (r : Expr) :
    Refines P (xorConstant cl r) (arithmetic .Xor (constant cl) r) := by
  rw [xorConstant]
  split_ifs with hzero
  · exact Refines.xor_zero hzero
  · exact Refines.refl _

theorem commutative_refines {kind : ArithmeticKind} {onConstant : BV → Expr → Expr}
    (hcomm : ∀ l r, Refines P (arithmetic kind r l) (arithmetic kind l r))
    (h : ∀ cl r, Refines P (onConstant cl r) (arithmetic kind (constant cl) r)) (l r : Expr) :
    Refines P (commutative kind onConstant l r) (arithmetic kind l r) :=
  bcreateR_refines (fun l cr ↦ (h cr l).trans (hcomm _ _)) h (fun _ _ ↦ Refines.refl _) l r

/-! ### Equalities and negations -/

/-- `Eq` of a constant and an expression. -/
def eqConstant (cl : BV) (r : Expr) : Expr :=
  if cl.width = 1 then if ConstantExpr.isTrue cl then r else not r
  else comparison .Eq (constant cl) r

def eq : Expr → Expr → Expr :=
  cmpCreateT .Eq (fun l cr ↦ eqConstant cr l) eqConstant (comparison .Eq)

theorem eqConstant_refines (cl : BV) (r : Expr) :
    Refines P (eqConstant cl r) (comparison .Eq (constant cl) r) := by
  rw [eqConstant]
  split_ifs with hwidth htrue
  · exact Refines.eq_true htrue
  · rw [ConstantExpr.eq_ofBool_false hwidth htrue]
    exact Refines.eq_false
  · exact Refines.refl _

theorem eq_refines (l r : Expr) : Refines P (eq l r) (comparison .Eq l r) :=
  cmpCreateT_refines (fun l cr ↦ (eqConstant_refines cr l).trans (Refines.eq_comm _ _))
    eqConstant_refines (fun _ _ ↦ Refines.refl _) l r

end ConstantFolding

end CoverageVP.Klee
