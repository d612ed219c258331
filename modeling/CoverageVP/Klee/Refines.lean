import CoverageVP.Klee.Expr
import Mathlib.Algebra.BigOperators.Group.List.Basic
import Mathlib.Data.Fin.VecNotation
import Mathlib.Tactic.Abel

/-!
# Meaning-preserving rewriting

The expression constructors and the visitors rewrite expressions. What all of their rules have in
common is the order `Refines`: a well-typed expression is replaced by a well-typed one of the same
width and the same value, which reads no new arrays and does not weigh more. The weights are chosen
such that every rule of the library respects the order; the revisiting visitor terminates because a
replacement by a constant makes an expression lighter.
-/

namespace CoverageVP.Klee

open Clover (BV SymArray Assignment)

def ArithmeticKind.weight : ArithmeticKind → Nat
  | Add | Sub => 3
  | Mul | UDiv | SDiv | URem | SRem | Xor | AShr => 2
  | And => 1
  | Or => 12
  | Shl | LShr => 5

def CmpKind.weight : CmpKind → Nat
  | Eq => 1
  | Ne => 5
  | Ult | Ule | Ugt | Uge | Slt | Sle | Sgt | Sge => 20

theorem ArithmeticKind.weight_pos (kind : ArithmeticKind) : 0 < kind.weight := by
  cases kind <;> decide

theorem CmpKind.weight_pos (kind : CmpKind) : 0 < kind.weight := by
  cases kind <;> decide

namespace Expr

def weight : Expr → Nat
  | constant _ => 1
  | read _ _ => 2
  | concat left right => 3 + left.weight + right.weight
  | extract expr _ _ | zext expr _ | sext expr _ => 2 * expr.weight + 1
  | not expr => 2 + expr.weight
  | arithmetic kind left right => kind.weight + left.weight + right.weight
  | comparison kind left right => kind.weight + left.weight + right.weight

section

attribute [local simp] weight getWidth bits WellTyped parts eval addArithmetic addComparison
  ArithmeticKind.apply CmpKind.apply ArithmeticKind.weight CmpKind.weight

theorem weight_pos (e : Expr) : 0 < e.weight := by
  induction e <;> simp only [weight] <;> omega

/-- Constants are the lightest expressions. -/
theorem one_lt_weight {e : Expr} (h : ∀ value, e ≠ constant value) : 1 < e.weight := by
  cases e with
  | constant value => exact absurd rfl (h value)
  | read array index => exact Nat.one_lt_two
  | concat left right =>
    have := left.weight_pos
    simp only [weight]
    omega
  | extract expr offset width =>
    have := expr.weight_pos
    simp only [weight]
    omega
  | not expr =>
    simp only [weight]
    omega
  | zext src width =>
    have := src.weight_pos
    simp only [weight]
    omega
  | sext src width =>
    have := src.weight_pos
    simp only [weight]
    omega
  | arithmetic kind left right =>
    have := left.weight_pos
    have := kind.weight_pos
    simp only [weight]
    omega
  | comparison kind left right =>
    have := left.weight_pos
    have := kind.weight_pos
    simp only [weight]
    omega

end

end Expr

open Klee.Expr

structure Preserves (P : Assignment → Prop) (e e₀ : Expr) : Prop where
  wellTyped : e.WellTyped
  getWidth_eq : e.getWidth = e₀.getWidth
  bits_eq : ∀ σ, P σ → e.bits σ e₀.getWidth = e₀.bits σ e₀.getWidth
  weight_le : e.weight ≤ e₀.weight
  parts_subset : ∀ part ∈ e.parts, part ∈ e₀.parts

/-- The expression `e₀` may be replaced by `e` under the assignments that satisfy `P`. -/
def Refines (P : Assignment → Prop) (e e₀ : Expr) : Prop := e₀.WellTyped → Preserves P e e₀

variable {P : Assignment → Prop}

theorem Preserves.eval_eq {e e₀ : Expr} (h : Preserves P e e₀) {σ : Assignment} (hσ : P σ) :
    e.eval σ = e₀.eval σ := by
  rw [eval, eval, h.getWidth_eq, h.bits_eq σ hσ]

theorem Preserves.holds_iff {e e₀ : Expr} (h : Preserves P e e₀) (h₀ : e₀.getWidth = 1)
    {σ : Assignment} (hσ : P σ) : e.Holds σ ↔ e₀.Holds σ := by
  have hbits := h.bits_eq σ hσ
  rw [h₀] at hbits
  rw [Holds, Holds, hbits]

namespace Refines

theorem refl (e : Expr) : Refines P e e :=
  fun h ↦ ⟨h, rfl, fun _ _ ↦ rfl, le_rfl, fun _ ha ↦ ha⟩

theorem trans {a b c : Expr} (hab : Refines P a b) (hbc : Refines P b c) : Refines P a c := by
  intro hc
  have hb := hbc hc
  have ha := hab hb.wellTyped
  refine ⟨ha.wellTyped, ha.getWidth_eq.trans hb.getWidth_eq, fun σ hσ ↦ ?_,
    ha.weight_le.trans hb.weight_le,
    fun part h ↦ hb.parts_subset part (ha.parts_subset part h)⟩
  have hbits := ha.bits_eq σ hσ
  rw [hb.getWidth_eq] at hbits
  exact hbits.trans (hb.bits_eq σ hσ)

/-! ### The constructors respect the order -/

section Congruence

theorem mem_append_mono {α : Type} {a a' b b' : List α} (ha : ∀ x ∈ a', x ∈ a)
    (hb : ∀ x ∈ b', x ∈ b) : ∀ x ∈ a' ++ b', x ∈ a ++ b := by
  intro x hx
  rcases List.mem_append.mp hx with h | h
  · exact List.mem_append_left _ (ha x h)
  · exact List.mem_append_right _ (hb x h)

theorem mem_addArithmetic_mono {kind : ArithmeticKind} {width : Nat} {a a' : List Part}
    (h : ∀ part ∈ a', part ∈ a) : ∀ part ∈ addArithmetic kind width a', part ∈ addArithmetic kind width a :=
  fun part hpart ↦ mem_addArithmetic.mpr ((mem_addArithmetic.mp hpart).imp_right (Or.imp_right (h part)))

theorem mem_addComparison_mono {kind : CmpKind} {a a' : List Part}
    (h : ∀ part ∈ a', part ∈ a) : ∀ part ∈ addComparison kind a', part ∈ addComparison kind a :=
  fun part hpart ↦ mem_addComparison.mpr ((mem_addComparison.mp hpart).imp_right (h part))

variable {e e' l l' r r' : Expr}

theorem concat_congr (hl : Refines P l' l) (hr : Refines P r' r) :
    Refines P (concat l' r') (concat l r) := by
  rintro ⟨htl, htr⟩
  have hl := hl htl
  have hr := hr htr
  have hwidth : l'.getWidth + r'.getWidth = l.getWidth + r.getWidth := by
    rw [hl.getWidth_eq, hr.getWidth_eq]
  refine ⟨⟨hl.wellTyped, hr.wellTyped⟩, hwidth, fun σ hσ ↦ ?_, ?_, ?_⟩
  · simp only [bits]
    rw [hl.getWidth_eq, hr.getWidth_eq, hl.bits_eq σ hσ, hr.bits_eq σ hσ]
  · have := hl.weight_le
    have := hr.weight_le
    simp only [weight]
    omega
  · exact mem_append_mono hl.parts_subset hr.parts_subset

theorem extract_congr {offset width : Nat} (h : Refines P e' e) :
    Refines P (extract e' offset width) (extract e offset width) := by
  rintro ⟨ht, hpos, hle⟩
  have h := h ht
  refine ⟨⟨h.wellTyped, hpos, h.getWidth_eq ▸ hle⟩, rfl, fun σ hσ ↦ ?_, ?_, h.parts_subset⟩
  · simp only [bits]
    rw [h.getWidth_eq, h.bits_eq σ hσ]
  · have := h.weight_le
    simp only [weight]
    omega

theorem not_congr (h : Refines P e' e) : Refines P (not e') (not e) := by
  intro ht
  have h := h ht
  refine ⟨h.wellTyped, h.getWidth_eq, fun σ hσ ↦ ?_, ?_, h.parts_subset⟩
  · exact congrArg (~~~ ·) (h.bits_eq σ hσ)
  · have := h.weight_le
    simp only [weight]
    omega

theorem zext_congr {width : Nat} (h : Refines P e' e) : Refines P (zext e' width) (zext e width) := by
  rintro ⟨ht, hle⟩
  have h := h ht
  refine ⟨⟨h.wellTyped, h.getWidth_eq ▸ hle⟩, rfl, fun σ hσ ↦ ?_, ?_, h.parts_subset⟩
  · simp only [bits]
    rw [h.getWidth_eq, h.bits_eq σ hσ]
  · have := h.weight_le
    simp only [weight]
    omega

theorem sext_congr {width : Nat} (h : Refines P e' e) : Refines P (sext e' width) (sext e width) := by
  rintro ⟨ht, hle⟩
  have h := h ht
  refine ⟨⟨h.wellTyped, h.getWidth_eq ▸ hle⟩, rfl, fun σ hσ ↦ ?_, ?_, h.parts_subset⟩
  · simp only [bits]
    rw [h.getWidth_eq, h.bits_eq σ hσ]
  · have := h.weight_le
    simp only [weight]
    omega

theorem arithmetic_congr {kind : ArithmeticKind} (hl : Refines P l' l) (hr : Refines P r' r) :
    Refines P (arithmetic kind l' r') (arithmetic kind l r) := by
  rintro ⟨htl, htr, hwidth, hdiv⟩
  have hl := hl htl
  have hr := hr htr
  have hwidth' : l'.getWidth = r'.getWidth := by
    rw [hl.getWidth_eq, hr.getWidth_eq, hwidth]
  refine ⟨⟨hl.wellTyped, hr.wellTyped, hwidth', hl.getWidth_eq ▸ hdiv⟩, hl.getWidth_eq,
    fun σ hσ ↦ ?_, ?_, fun part hpart ↦ ?_⟩
  · have hbits := hr.bits_eq σ hσ
    rw [← hwidth] at hbits
    exact congrArg₂ kind.apply (hl.bits_eq σ hσ) hbits
  · have := hl.weight_le
    have := hr.weight_le
    simp only [weight]
    omega
  · rw [parts, hl.getWidth_eq] at hpart
    exact mem_addArithmetic_mono (mem_append_mono hl.parts_subset hr.parts_subset) part hpart

theorem comparison_congr {kind : CmpKind} (hl : Refines P l' l) (hr : Refines P r' r) :
    Refines P (comparison kind l' r') (comparison kind l r) := by
  rintro ⟨htl, htr, hwidth⟩
  have hl := hl htl
  have hr := hr htr
  have hwidth' : l'.getWidth = r'.getWidth := by
    rw [hl.getWidth_eq, hr.getWidth_eq, hwidth]
  refine ⟨⟨hl.wellTyped, hr.wellTyped, hwidth'⟩, rfl, fun σ hσ ↦ ?_, ?_,
    mem_addComparison_mono (mem_append_mono hl.parts_subset hr.parts_subset)⟩
  · have hbits := hr.bits_eq σ hσ
    rw [← hwidth] at hbits
    simp only [bits]
    rw [hl.getWidth_eq, hl.bits_eq σ hσ, hbits]
  · have := hl.weight_le
    have := hr.weight_le
    simp only [weight]
    omega

end Congruence

/-! ### Constants -/

section Folding

variable (a b : BV)

theorem fold_arithmetic (kind : ArithmeticKind) :
    Refines P (constant (ConstantExpr.arithmetic kind a b))
      (arithmetic kind (constant a) (constant b)) := by
  rintro ⟨ha, -, -, -⟩
  refine ⟨ha, rfl, fun σ _ ↦ ?_, ?_, fun part h ↦ absurd h List.not_mem_nil⟩
  · simp only [bits, getWidth, ConstantExpr.arithmetic, BitVec.setWidth_eq]
  · simp only [weight]
    omega

theorem fold_comparison (kind : CmpKind) :
    Refines P (constant (ConstantExpr.comparison kind a b))
      (comparison kind (constant a) (constant b)) := by
  intro _
  refine ⟨Nat.one_pos, rfl, fun σ _ ↦ ?_, ?_, fun part h ↦ absurd h List.not_mem_nil⟩
  · simp only [bits, getWidth, ConstantExpr.comparison, BV.ofBool, BitVec.setWidth_eq]
  · simp only [weight]
    omega

theorem fold_concat :
    Refines P (constant (ConstantExpr.concat a b)) (concat (constant a) (constant b)) := by
  rintro ⟨ha, -⟩
  refine ⟨Nat.add_pos_left ha _, rfl, fun σ _ ↦ ?_, ?_, fun part h ↦ h⟩
  · simp only [bits, getWidth, ConstantExpr.concat, BitVec.setWidth_eq]
    rfl
  · simp only [weight]
    omega

theorem fold_extract {offset width : Nat} :
    Refines P (constant (ConstantExpr.extract a offset width))
      (extract (constant a) offset width) := by
  rintro ⟨-, hpos, hle⟩
  refine ⟨hpos, rfl, fun σ _ ↦ ?_, ?_, fun part h ↦ h⟩
  · apply BitVec.eq_of_getLsbD_eq
    intro i hi
    simp only [getWidth] at hi hle
    have hbit : ¬ a.width ≤ i := by omega
    have hlt : offset + i < a.width := by omega
    simp only [bits, getWidth, ConstantExpr.extract, BitVec.setWidth_eq, BitVec.getLsbD_setWidth,
      BitVec.getLsbD_sshiftRight, BitVec.getLsbD_extractLsb', hi, hbit, hlt, decide_true,
      decide_false, Bool.not_false, Bool.true_and, if_true]
  · simp only [weight]
    omega

theorem fold_not : Refines P (constant (ConstantExpr.not a)) (not (constant a)) := by
  intro ha
  refine ⟨ha, rfl, fun σ _ ↦ ?_, ?_, fun part h ↦ h⟩
  · simp only [bits, getWidth, ConstantExpr.not, BitVec.setWidth_eq]
    rfl
  · simp only [weight]
    omega

theorem fold_zext {width : Nat} :
    Refines P (constant (ConstantExpr.zext a width)) (zext (constant a) width) := by
  rintro ⟨ha, hle⟩
  refine ⟨lt_of_lt_of_le ha hle, rfl, fun σ _ ↦ ?_, ?_, fun part h ↦ h⟩
  · simp only [bits, getWidth, ConstantExpr.zext, BitVec.setWidth_eq]
  · simp only [weight]
    omega

theorem fold_sext {width : Nat} :
    Refines P (constant (ConstantExpr.sext a width)) (sext (constant a) width) := by
  rintro ⟨ha, hle⟩
  refine ⟨lt_of_lt_of_le ha hle, rfl, fun σ _ ↦ ?_, ?_, fun part h ↦ h⟩
  · simp only [bits, getWidth, ConstantExpr.sext, BitVec.setWidth_eq]
  · simp only [weight]
    omega

end Folding

/-! ### Operations whose operands and result have one width -/

def HasWidth (w : Nat) (e : Expr) : Prop := e.WellTyped ∧ e.getWidth = w

theorem hasWidth_arithmetic {w : Nat} {kind : ArithmeticKind} (hkind : ¬ kind.IsRestricted)
    {l r : Expr} : HasWidth w (arithmetic kind l r) ↔ HasWidth w l ∧ HasWidth w r := by
  constructor
  · rintro ⟨⟨hl, hr, hwidth, -⟩, rfl⟩
    exact ⟨⟨hl, rfl⟩, hr, hwidth.symm⟩
  · rintro ⟨⟨hl, rfl⟩, hr, hwidth⟩
    exact ⟨⟨hl, hr, hwidth.symm, fun h ↦ absurd h.isRestricted hkind⟩, rfl⟩

theorem hasWidth_not {w : Nat} {e : Expr} : HasWidth w (not e) ↔ HasWidth w e := Iff.rfl

theorem of_hasWidth {e e₀ : Expr} (hwidth : ∀ w, HasWidth w e₀ → HasWidth w e)
    (hbits : ∀ σ w, HasWidth w e₀ → e.bits σ w = e₀.bits σ w) (hweight : e.weight ≤ e₀.weight)
    (hparts : ∀ part ∈ e.parts, part ∈ e₀.parts) :
    Refines P e e₀ := by
  intro ht
  have hw := hwidth _ ⟨ht, rfl⟩
  exact ⟨hw.1, hw.2, fun σ _ ↦ hbits σ _ ⟨ht, rfl⟩, hweight, hparts⟩

/-- An equation of bit vectors is a rule when both sides are built of the same operands. -/
theorem of_equation {e e₀ : Expr} (hwidth : ∀ w, HasWidth w e₀ → HasWidth w e)
    (hbits : ∀ σ w, e.bits σ w = e₀.bits σ w) (hweight : e.weight ≤ e₀.weight)
    (hparts : ∀ part ∈ e.parts, part ∈ e₀.parts) :
    Refines P e e₀ :=
  of_hasWidth hwidth (fun σ w _ ↦ hbits σ w) hweight hparts

end Refines

/-! ## Sums

The rules for additions and subtractions rearrange the summands of a sum. Both sides of such a rule
are shapes over the same summands, and the rule is sound when the same summands are added and the
same summands are subtracted.
-/

inductive Sum
  | atom (i : Fin 3)
  | add (s t : Sum)
  | sub (s t : Sum)

namespace Sum

def expr (ρ : Fin 3 → Expr) : Sum → Expr
  | atom i => ρ i
  | add s t => arithmetic .Add (s.expr ρ) (t.expr ρ)
  | sub s t => arithmetic .Sub (s.expr ρ) (t.expr ρ)

mutual

/-- The summands that are added. -/
def pos : Sum → List (Fin 3)
  | atom i => [i]
  | add s t => s.pos ++ t.pos
  | sub s t => s.pos ++ t.neg

/-- The summands that are subtracted. -/
def neg : Sum → List (Fin 3)
  | atom _ => []
  | add s t => s.neg ++ t.neg
  | sub s t => s.neg ++ t.pos

end

attribute [local simp] expr pos neg

variable {ρ : Fin 3 → Expr}

theorem hasWidth_expr {w : Nat} (s : Sum) :
    Refines.HasWidth w (s.expr ρ) ↔ ∀ i ∈ s.pos ++ s.neg, Refines.HasWidth w (ρ i) := by
  induction s with
  | atom i => simp
  | add s t ihs iht =>
    rw [expr, Refines.hasWidth_arithmetic (by decide), ihs, iht]
    simp only [pos, neg, List.mem_append]
    grind
  | sub s t ihs iht =>
    rw [expr, Refines.hasWidth_arithmetic (by decide), ihs, iht]
    simp only [pos, neg, List.mem_append]
    grind

theorem bits_expr (σ : Assignment) (w : Nat) (s : Sum) :
    (s.expr ρ).bits σ w =
      (s.pos.map fun i ↦ (ρ i).bits σ w).sum - (s.neg.map fun i ↦ (ρ i).bits σ w).sum := by
  induction s with
  | atom i => simp
  | add s t ihs iht =>
    simp only [expr, bits, ArithmeticKind.apply, ihs, iht, pos, neg, List.map_append,
      List.sum_append]
    abel
  | sub s t ihs iht =>
    simp only [expr, bits, ArithmeticKind.apply, ihs, iht, pos, neg, List.map_append,
      List.sum_append]
    abel

theorem weight_expr (s : Sum) :
    (s.expr ρ).weight + 3 = ((s.pos ++ s.neg).map fun i ↦ (ρ i).weight + 3).sum := by
  induction s with
  | atom i => simp
  | add s t ihs iht =>
    simp only [expr, weight, ArithmeticKind.weight, pos, neg, List.map_append,
      List.sum_append] at ihs iht ⊢
    omega
  | sub s t ihs iht =>
    simp only [expr, weight, ArithmeticKind.weight, pos, neg, List.map_append,
      List.sum_append] at ihs iht ⊢
    omega

theorem mem_parts_expr {part : Part} (s : Sum) :
    part ∈ (s.expr ρ).parts ↔
      ∃ i ∈ s.pos ++ s.neg, part ∈ (ρ i).parts := by
  induction s with
  | atom i => simp
  | add s t ihs iht =>
    simp only [expr, parts, addArithmetic, List.mem_append, ihs, iht, pos, neg]
    grind
  | sub s t ihs iht =>
    simp only [expr, parts, addArithmetic, List.mem_append, ihs, iht, pos, neg]
    grind

theorem refines {s t : Sum} (ρ : Fin 3 → Expr) (hpos : s.pos.Perm t.pos) (hneg : s.neg.Perm t.neg) :
    Refines P (s.expr ρ) (t.expr ρ) := by
  have hperm := hpos.append hneg
  refine Refines.of_equation (fun w h ↦ ?_) (fun σ w ↦ ?_) ?_ fun part h ↦ ?_
  · rw [hasWidth_expr] at h ⊢
    exact fun i hi ↦ h i (hperm.mem_iff.mp hi)
  · rw [bits_expr, bits_expr, (hpos.map _).sum_eq, (hneg.map _).sum_eq]
  · have hs := s.weight_expr (ρ := ρ)
    have ht := t.weight_expr (ρ := ρ)
    rw [(hperm.map _).sum_eq] at hs
    omega
  · rw [mem_parts_expr] at h ⊢
    rcases h with ⟨i, hi, harray⟩
    exact ⟨i, hperm.mem_iff.mp hi, harray⟩

end Sum

namespace Refines

section Sums

variable (a b c : Expr)

theorem add_comm : Refines P (arithmetic .Add b a) (arithmetic .Add a b) :=
  Sum.refines (s := .add (.atom 1) (.atom 0)) (t := .add (.atom 0) (.atom 1)) ![a, b, b] (by decide)
    (by decide)

theorem add_assoc :
    Refines P (arithmetic .Add a (arithmetic .Add b c))
      (arithmetic .Add (arithmetic .Add a b) c) :=
  Sum.refines (s := .add (.atom 0) (.add (.atom 1) (.atom 2))) (t := .add (.add (.atom 0) (.atom 1)) (.atom 2))
    ![a, b, c] (by decide) (by decide)

theorem add_assoc_symm :
    Refines P (arithmetic .Add (arithmetic .Add a b) c)
      (arithmetic .Add a (arithmetic .Add b c)) :=
  Sum.refines (s := .add (.add (.atom 0) (.atom 1)) (.atom 2)) (t := .add (.atom 0) (.add (.atom 1) (.atom 2)))
    ![a, b, c] (by decide) (by decide)

theorem sub_add :
    Refines P (arithmetic .Add a (arithmetic .Sub c b))
      (arithmetic .Add (arithmetic .Sub a b) c) :=
  Sum.refines (s := .add (.atom 0) (.sub (.atom 2) (.atom 1))) (t := .add (.sub (.atom 0) (.atom 1)) (.atom 2))
    ![a, b, c] (by decide) (by decide)

theorem add_add_left :
    Refines P (arithmetic .Add b (arithmetic .Add a c))
      (arithmetic .Add a (arithmetic .Add b c)) :=
  Sum.refines (s := .add (.atom 1) (.add (.atom 0) (.atom 2))) (t := .add (.atom 0) (.add (.atom 1) (.atom 2)))
    ![a, b, c] (by decide) (by decide)

theorem add_add_right :
    Refines P (arithmetic .Add c (arithmetic .Add a b))
      (arithmetic .Add a (arithmetic .Add b c)) :=
  Sum.refines (s := .add (.atom 2) (.add (.atom 0) (.atom 1))) (t := .add (.atom 0) (.add (.atom 1) (.atom 2)))
    ![a, b, c] (by decide) (by decide)

theorem add_sub_left :
    Refines P (arithmetic .Add b (arithmetic .Sub a c))
      (arithmetic .Add a (arithmetic .Sub b c)) :=
  Sum.refines (s := .add (.atom 1) (.sub (.atom 0) (.atom 2))) (t := .add (.atom 0) (.sub (.atom 1) (.atom 2)))
    ![a, b, c] (by decide) (by decide)

theorem add_sub_right :
    Refines P (arithmetic .Sub (arithmetic .Add a b) c)
      (arithmetic .Add a (arithmetic .Sub b c)) :=
  Sum.refines (s := .sub (.add (.atom 0) (.atom 1)) (.atom 2)) (t := .add (.atom 0) (.sub (.atom 1) (.atom 2)))
    ![a, b, c] (by decide) (by decide)

theorem add_sub_swap :
    Refines P (arithmetic .Add (arithmetic .Sub a c) b)
      (arithmetic .Add a (arithmetic .Sub b c)) :=
  Sum.refines (s := .add (.sub (.atom 0) (.atom 2)) (.atom 1)) (t := .add (.atom 0) (.sub (.atom 1) (.atom 2)))
    ![a, b, c] (by decide) (by decide)

theorem sub_of_add :
    Refines P (arithmetic .Add a (arithmetic .Sub b c))
      (arithmetic .Sub (arithmetic .Add a b) c) :=
  Sum.refines (s := .add (.atom 0) (.sub (.atom 1) (.atom 2))) (t := .sub (.add (.atom 0) (.atom 1)) (.atom 2))
    ![a, b, c] (by decide) (by decide)

theorem sub_of_sub :
    Refines P (arithmetic .Sub a (arithmetic .Add b c))
      (arithmetic .Sub (arithmetic .Sub a b) c) :=
  Sum.refines (s := .sub (.atom 0) (.add (.atom 1) (.atom 2))) (t := .sub (.sub (.atom 0) (.atom 1)) (.atom 2))
    ![a, b, c] (by decide) (by decide)

theorem sub_add_left :
    Refines P (arithmetic .Sub (arithmetic .Sub a c) b)
      (arithmetic .Sub a (arithmetic .Add b c)) :=
  Sum.refines (s := .sub (.sub (.atom 0) (.atom 2)) (.atom 1)) (t := .sub (.atom 0) (.add (.atom 1) (.atom 2)))
    ![a, b, c] (by decide) (by decide)

theorem sub_add_right :
    Refines P (arithmetic .Sub (arithmetic .Sub a b) c)
      (arithmetic .Sub a (arithmetic .Add b c)) :=
  Sum.refines (s := .sub (.sub (.atom 0) (.atom 1)) (.atom 2)) (t := .sub (.atom 0) (.add (.atom 1) (.atom 2)))
    ![a, b, c] (by decide) (by decide)

theorem sub_sub_left :
    Refines P (arithmetic .Sub (arithmetic .Add a c) b)
      (arithmetic .Sub a (arithmetic .Sub b c)) :=
  Sum.refines (s := .sub (.add (.atom 0) (.atom 2)) (.atom 1)) (t := .sub (.atom 0) (.sub (.atom 1) (.atom 2)))
    ![a, b, c] (by decide) (by decide)

theorem sub_sub_right :
    Refines P (arithmetic .Add c (arithmetic .Sub a b))
      (arithmetic .Sub a (arithmetic .Sub b c)) :=
  Sum.refines (s := .add (.atom 2) (.sub (.atom 0) (.atom 1))) (t := .sub (.atom 0) (.sub (.atom 1) (.atom 2)))
    ![a, b, c] (by decide) (by decide)

theorem sub_sub_swap :
    Refines P (arithmetic .Add (arithmetic .Sub a b) c)
      (arithmetic .Sub a (arithmetic .Sub b c)) :=
  Sum.refines (s := .add (.sub (.atom 0) (.atom 1)) (.atom 2)) (t := .sub (.atom 0) (.sub (.atom 1) (.atom 2)))
    ![a, b, c] (by decide) (by decide)

end Sums

end Refines

end CoverageVP.Klee
