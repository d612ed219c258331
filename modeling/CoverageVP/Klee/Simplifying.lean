import CoverageVP.Klee.Builder

/-!
# The builder of the solver

The solver chains three builders. Each of the two upper ones folds operations on constants before
it asks its own rules, and what its rules do not treat goes to the builder below. A builder is
lawful when each of its operations refines the plain expression.

The concolic values of the engine are built by the operations of the builder. The symbolic half of
a value then means what the engine takes it to mean, and the concrete half stays a constant.
-/

namespace CoverageVP.Klee

open Clover (BV SymArray Assignment BinOp)
open Klee.Expr

variable {P : Assignment → Prop}

/-- The operations of a builder, the binary ones by their kind. -/
structure ExprBuilder where
  concat : Expr → Expr → Expr
  extract : Expr → Nat → Nat → Expr
  not : Expr → Expr
  zext : Expr → Nat → Expr
  sext : Expr → Nat → Expr
  arithmetic : ArithmeticKind → Expr → Expr → Expr
  comparison : CmpKind → Expr → Expr → Expr

namespace ExprBuilder

structure Lawful (P : Assignment → Prop) (b : ExprBuilder) : Prop where
  concat (l r : Expr) : Refines P (b.concat l r) (.concat l r)
  extract (e : Expr) (offset width : Nat) :
    Refines P (b.extract e offset width) (.extract e offset width)
  not (e : Expr) : Refines P (b.not e) (.not e)
  zext (e : Expr) (width : Nat) : Refines P (b.zext e width) (.zext e width)
  sext (e : Expr) (width : Nat) : Refines P (b.sext e width) (.sext e width)
  arithmetic (kind : ArithmeticKind) (l r : Expr) :
    Refines P (b.arithmetic kind l r) (.arithmetic kind l r)
  comparison (kind : CmpKind) (l r : Expr) :
    Refines P (b.comparison kind l r) (.comparison kind l r)

/-- The comparisons of the builder bring in no parts of their own. -/
def Canonical (b : ExprBuilder) : Prop :=
  ∀ kind l r, (Expr.comparison kind l r).WellTyped → ∀ part ∈ (b.comparison kind l r).parts,
    part ∈ l.parts ∨ part ∈ r.parts

/-! ## The chain of builders -/

/-- `DefaultExprBuilder` allocates. -/
def allocating : ExprBuilder where
  concat := .concat
  extract := .extract
  not := .not
  zext := .zext
  sext := .sext
  arithmetic := .arithmetic
  comparison := .comparison

/-- `ConstantSpecializedExprBuilder`: the rules of `b` are asked about operands that are not all
constant. -/
def constantSpecialized (b : ExprBuilder) : ExprBuilder where
  concat
    | constant a, constant c => constant (ConstantExpr.concat a c)
    | l, r => b.concat l r
  extract
    | constant a, offset, width => constant (ConstantExpr.extract a offset width)
    | e, offset, width => b.extract e offset width
  not
    | .not e => e
    | constant a => constant (ConstantExpr.not a)
    | e => b.not e
  zext
    | constant a, width => constant (ConstantExpr.zext a width)
    | e, width => b.zext e width
  sext
    | constant a, width => constant (ConstantExpr.sext a width)
    | e, width => b.sext e width
  arithmetic kind := bcreate kind (b.arithmetic kind)
  comparison kind := cmpCreate kind (b.comparison kind)

theorem Lawful.allocating : Lawful P allocating :=
  ⟨fun _ _ ↦ Refines.refl _, fun _ _ _ ↦ Refines.refl _, fun _ ↦ Refines.refl _,
    fun _ _ ↦ Refines.refl _, fun _ _ ↦ Refines.refl _, fun _ _ _ ↦ Refines.refl _,
    fun _ _ _ ↦ Refines.refl _⟩

theorem Lawful.constantSpecialized {b : ExprBuilder} (h : Lawful P b) :
    Lawful P b.constantSpecialized where
  concat l r := by
    simp only [ExprBuilder.constantSpecialized]
    split
    · exact Refines.fold_concat _ _
    · exact h.concat _ _
  extract e offset width := by
    simp only [ExprBuilder.constantSpecialized]
    split
    · exact Refines.fold_extract _
    · exact h.extract _ _ _
  not e := by
    simp only [ExprBuilder.constantSpecialized]
    split
    · exact Refines.not_not
    · exact Refines.fold_not _
    · exact h.not _
  zext e width := by
    simp only [ExprBuilder.constantSpecialized]
    split
    · exact Refines.fold_zext _
    · exact h.zext _ _
  sext e width := by
    simp only [ExprBuilder.constantSpecialized]
    split
    · exact Refines.fold_sext _
    · exact h.sext _ _
  arithmetic kind := bcreate_refines (h.arithmetic kind)
  comparison kind := cmpCreate_refines (h.comparison kind)

end ExprBuilder

namespace ConstantFolding

def arithmetic : ArithmeticKind → Expr → Expr → Expr
  | .Add => add
  | .Sub => sub
  | .Mul => mul
  | .And => and
  | .Or => or
  | .Xor => xor
  | kind => .arithmetic kind

def comparison : CmpKind → Expr → Expr → Expr
  | .Eq => eq
  | kind => .comparison kind

theorem arithmetic_refines (kind : ArithmeticKind) (l r : Expr) :
    Refines P (arithmetic kind l r) (.arithmetic kind l r) := by
  cases kind with
  | Add => exact add_refines l r
  | Sub => exact sub_refines l r
  | Mul => exact commutative_refines Refines.mul_comm mulConstant_refines l r
  | And => exact commutative_refines Refines.and_comm andConstant_refines l r
  | Or => exact commutative_refines Refines.or_comm orConstant_refines l r
  | Xor => exact commutative_refines Refines.xor_comm xorConstant_refines l r
  | UDiv | SDiv | URem | SRem | Shl | LShr | AShr => exact Refines.refl _

theorem comparison_refines (kind : CmpKind) (l r : Expr) :
    Refines P (comparison kind l r) (.comparison kind l r) := by
  cases kind with
  | Eq => exact eq_refines l r
  | Ne | Ult | Ule | Ugt | Uge | Slt | Sle | Sgt | Sge => exact Refines.refl _

/-- `ConstantFoldingExprBuilder` over the default builder. -/
def builder : ExprBuilder :=
  { ExprBuilder.allocating with arithmetic, comparison }.constantSpecialized

theorem builder_lawful : builder.Lawful P :=
  ExprBuilder.Lawful.constantSpecialized
    { ExprBuilder.Lawful.allocating with
      arithmetic := arithmetic_refines
      comparison := comparison_refines }

end ConstantFolding

/-! ## The simplifying builder -/

namespace Simplifying

/-- The negation of the simplifying builder. -/
def not : Expr → Expr
  | .not e => e
  | constant a => constant (ConstantExpr.not a)
  -- !(a or b) ==> !a and !b
  | arithmetic .Or l r => bcreate .And (ConstantFolding.builder.arithmetic .And) (not l) (not r)
  | e => ConstantFolding.builder.not e

/-- `Eq` of a constant and an expression. -/
def eqConstant (cl : BV) (r : Expr) : Expr :=
  if cl.width = 1 then if ConstantExpr.isTrue cl then r else ConstantFolding.builder.not r
  else ConstantFolding.builder.comparison .Eq (constant cl) r

/-- `Eq` of two expressions that are not constant. -/
def eqPlain (l r : Expr) : Expr :=
  if l = r then constant (.ofBool true) else ConstantFolding.builder.comparison .Eq l r

def eq : Expr → Expr → Expr := cmpCreateT .Eq (fun l cr ↦ eqConstant cr l) eqConstant eqPlain

/-- A comparison that stays a comparison of its kind. -/
def ordered (kind : CmpKind) : Expr → Expr → Expr :=
  cmpCreate kind (ConstantFolding.builder.comparison kind)

def comparison : CmpKind → Expr → Expr → Expr
  | .Eq, l, r => eq l r
  -- X != Y ==> !(X == Y)
  | .Ne, l, r => not (eq l r)
  | .Ugt, l, r => ordered .Ult r l
  | .Uge, l, r => ordered .Ule r l
  | .Sgt, l, r => ordered .Slt r l
  | .Sge, l, r => ordered .Sle r l
  | kind, l, r => ConstantFolding.builder.comparison kind l r

/-- `SimplifyingExprBuilder` over the folding builder. -/
def builder : ExprBuilder :=
  { ConstantFolding.builder with not, comparison }.constantSpecialized

theorem not_refines (e : Expr) : Refines P (not e) (.not e) := by
  induction e using not.induct with
  | case1 e => exact Refines.not_not
  | case2 value => exact Refines.fold_not _
  | case3 l r ihl ihr =>
    have hand := bcreate_refines (P := P) (ConstantFolding.builder_lawful.arithmetic .And)
    exact ((hand _ _).trans (Refines.arithmetic_congr ihl ihr)).trans Refines.not_or
  | case4 e hnot hconstant hor =>
    rw [not]
    · exact ConstantFolding.builder_lawful.not e
    · exact hnot
    · exact hconstant
    · exact hor

theorem eqConstant_refines (cl : BV) (r : Expr) :
    Refines P (eqConstant cl r) (.comparison .Eq (constant cl) r) := by
  rw [eqConstant]
  split_ifs with hwidth htrue
  · exact Refines.eq_true htrue
  · rw [ConstantExpr.eq_ofBool_false hwidth htrue]
    exact (ConstantFolding.builder_lawful.not r).trans Refines.eq_false
  · exact ConstantFolding.builder_lawful.comparison _ _ _

theorem eqPlain_refines (l r : Expr) : Refines P (eqPlain l r) (.comparison .Eq l r) := by
  rw [eqPlain]
  split_ifs with h
  · exact h ▸ Refines.eq_self l
  · exact ConstantFolding.builder_lawful.comparison _ _ _

theorem eq_refines (l r : Expr) : Refines P (eq l r) (.comparison .Eq l r) :=
  cmpCreateT_refines (fun l cr ↦ (eqConstant_refines cr l).trans (Refines.eq_comm _ _))
    eqConstant_refines eqPlain_refines l r

theorem ordered_refines (kind : CmpKind) (l r : Expr) :
    Refines P (ordered kind l r) (.comparison kind l r) :=
  cmpCreate_refines (ConstantFolding.builder_lawful.comparison kind) l r

theorem comparison_refines (kind : CmpKind) (l r : Expr) :
    Refines P (comparison kind l r) (.comparison kind l r) := by
  have hswap {rel rel' : CmpKind} (happly : ∀ w (x y : BitVec w), rel'.apply y x = rel.apply x y)
      (hweight : rel'.weight ≤ rel.weight) (hcanonical : rel'.IsCanonical) : Refines P (ordered rel' r l) (.comparison rel l r) :=
    (ordered_refines rel' r l).trans (Refines.comparison_comm happly hweight hcanonical l r)
  cases kind with
  | Eq => exact eq_refines l r
  | Ne => exact ((not_refines _).trans (Refines.not_congr (eq_refines l r))).trans Refines.ne_not
  | Ugt => exact hswap (fun _ _ _ ↦ rfl) le_rfl trivial
  | Uge => exact hswap (fun _ _ _ ↦ rfl) le_rfl trivial
  | Sgt => exact hswap (fun _ _ _ ↦ rfl) le_rfl trivial
  | Sge => exact hswap (fun _ _ _ ↦ rfl) le_rfl trivial
  | Ult | Ule | Slt | Sle => exact ConstantFolding.builder_lawful.comparison _ l r

theorem builder_lawful : builder.Lawful P :=
  ExprBuilder.Lawful.constantSpecialized
    { ConstantFolding.builder_lawful with
      not := not_refines
      comparison := comparison_refines }

/-- A comparison is expressed by a canonical one of the same operands. -/
theorem comparison_parts {kind : CmpKind} {l r : Expr} (h : (Expr.comparison kind l r).WellTyped)
    {part : Part} (hpart : part ∈ (comparison kind l r).parts) :
    part ∈ l.parts ∨ part ∈ r.parts := by
  obtain ⟨hl, hr, hwidth⟩ := h
  have hcanonical (kind' : CmpKind) {e l' r' : Expr} (hkind : kind'.IsCanonical)
      (hrefines : Refines (fun _ ↦ True) e (.comparison kind' l' r'))
      (htyped : l'.WellTyped ∧ r'.WellTyped ∧ l'.getWidth = r'.getWidth)
      (hmem : part ∈ e.parts) : part ∈ l'.parts ∨ part ∈ r'.parts :=
    (mem_parts_comparison hkind).mp ((hrefines htyped).parts_subset part hmem)
  have hsame (kind' : CmpKind) (hkind : kind'.IsCanonical)
      (hmem : part ∈ (ConstantFolding.builder.comparison kind' l r).parts) :
      part ∈ l.parts ∨ part ∈ r.parts :=
    hcanonical kind' hkind (ConstantFolding.builder_lawful.comparison _ l r) ⟨hl, hr, hwidth⟩ hmem
  have hswap (kind' : CmpKind) (hkind : kind'.IsCanonical)
      (hmem : part ∈ (ordered kind' r l).parts) : part ∈ l.parts ∨ part ∈ r.parts :=
    (hcanonical kind' hkind (ordered_refines kind' r l) ⟨hr, hl, hwidth.symm⟩ hmem).symm
  cases kind with
  | Eq => exact hcanonical .Eq trivial (eq_refines l r) ⟨hl, hr, hwidth⟩ hpart
  | Ne =>
    have hnot := (not_refines (P := fun _ ↦ True) (eq l r)).trans (Refines.not_congr (eq_refines l r))
    have hmem : part ∈ (Expr.comparison .Eq l r).parts :=
      (hnot ⟨hl, hr, hwidth⟩).parts_subset part hpart
    exact List.mem_append.mp hmem
  | Ugt => exact hswap .Ult trivial hpart
  | Uge => exact hswap .Ule trivial hpart
  | Sgt => exact hswap .Slt trivial hpart
  | Sge => exact hswap .Sle trivial hpart
  | Ult => exact hsame .Ult trivial hpart
  | Ule => exact hsame .Ule trivial hpart
  | Slt => exact hsame .Slt trivial hpart
  | Sle => exact hsame .Sle trivial hpart

theorem builder_canonical : builder.Canonical := by
  intro kind l r h part hpart
  change part ∈ (cmpCreate kind (comparison kind) l r).parts at hpart
  rw [cmpCreate.eq_def] at hpart
  split at hpart
  · exact absurd hpart List.not_mem_nil
  · exact comparison_parts h hpart

end Simplifying

end CoverageVP.Klee
