import CoverageVP.Klee.Rebuild

/-!
# Expression visitors

A visitor may replace an expression before and after its children are visited. An expression of
which a child has changed is rebuilt by the constructor of its class, and a recursive visitor visits
the rebuilt expression once more. The table of the expressions that were visited before only saves
time and is left out.

The visitors of the constraint manager replace expressions by constants. Such a visitor ends on
every well-typed expression, since an expression that changes gets lighter, and it preserves the
value under the assignments under which the replaced expressions have the values of the constants.
-/

namespace CoverageVP.Klee

open Clover (BV SymArray Assignment)
open Klee.Expr

variable {P : Assignment → Prop}

/-- Why the library does not return: a failed assertion, or a recursion deeper than the fuel. -/
inductive Stop
  | assertion | outOfFuel
  deriving DecidableEq, Repr

structure ExprVisitor where
  recursive : Bool
  /-- Whether a divisor is left as it is when it becomes zero. -/
  protectedDiv : Bool
  visitExpr : Expr → Option Expr
  visitExprPost : Expr → Option Expr

namespace ExprVisitor

/-- An expression with one child, which is rebuilt if the child has changed. -/
def visitUnary (visit : Expr → Except Stop Expr) (e kid : Expr) (create : Expr → Expr) :
    Except Stop (Bool × Expr) := do
  let kid' ← visit kid
  return if kid' = kid then (false, e) else (true, create kid')

def visitBinary (visit visitRight : Expr → Except Stop Expr) (e left right : Expr)
    (create : Expr → Expr → Expr) : Except Stop (Bool × Expr) := do
  let left' ← visit left
  let right' ← visitRight right
  return if left' = left ∧ right' = right then (false, e) else (true, create left' right')

def isZero : Expr → Bool
  | .constant a => ConstantExpr.isZero a
  | _ => false

/-- The visit of a divisor in `protectedDivOperation`. -/
def visitDivisor (visit : Expr → Except Stop Expr) (right : Expr) : Except Stop Expr := do
  let right' ← visit right
  return if isZero right' then right else right'

/-- The children are visited. The result tells whether the expression was rebuilt. -/
def doChildren (protectedDiv : Bool) (visit : Expr → Except Stop Expr) (e : Expr) :
    Except Stop (Bool × Expr) :=
  match e with
  | .constant _ | .read _ _ => .ok (false, e)
  | .concat left right => visitBinary visit visit e left right ConcatExpr.create
  | .extract expr offset width =>
    visitUnary visit e expr fun expr ↦ ExtractExpr.create expr offset width
  | .not expr => visitUnary visit e expr NotExpr.create
  | .zext src width => visitUnary visit e src fun src ↦ ZExtExpr.create src width
  | .sext src width => visitUnary visit e src fun src ↦ SExtExpr.create src width
  | .arithmetic kind left right =>
    let visitRight := if protectedDiv ∧ kind.IsDivision then visitDivisor visit else visit
    visitBinary visit visitRight e left right kind.create
  | .comparison kind left right => visitBinary visit visit e left right kind.create

/-- An expression may be replaced after its children were visited, unless it is a constant. -/
def finish (v : ExprVisitor) (e : Expr) : Expr :=
  match e with
  | constant a => constant a
  | e => (v.visitExprPost e).getD e

def visit (v : ExprVisitor) : Nat → Expr → Except Stop Expr
  | _, constant a => .ok (constant a)
  | 0, _ => .error .outOfFuel
  | fuel + 1, e =>
    match v.visitExpr e with
    | some e' => .ok e'
    | none => do
      let (rebuilt, e') ← doChildren v.protectedDiv (v.visit fuel) e
      let e'' ← if rebuilt && v.recursive then v.visit fuel e' else .ok e'
      return v.finish e''

/-- The visitor replaces expressions by constants of the same value. -/
structure Lawful (P : Assignment → Prop) (v : ExprVisitor) : Prop where
  visitExpr : ∀ e e', v.visitExpr e = some e' → ∃ a, e' = constant a ∧ Refines P (constant a) e
  visitExprPost : ∀ e e', v.visitExprPost e = some e' →
    ∃ a, e' = constant a ∧ Refines P (constant a) e

/-- What a visit makes of an expression: it is preserved, and lighter if it has changed. -/
def Reduces (P : Assignment → Prop) (e' e : Expr) : Prop :=
  Preserves P e' e ∧ (e' ≠ e → e'.weight < e.weight)

theorem reduces_constant {e : Expr} {a : BV} (hconstant : ∀ b, e ≠ constant b)
    (h : Preserves P (constant a) e) : Reduces P (constant a) e :=
  ⟨h, fun _ ↦ one_lt_weight hconstant⟩

theorem Reduces.refl {e : Expr} (h : e.WellTyped) : Reduces P e e :=
  ⟨Refines.refl e h, fun hne ↦ absurd rfl hne⟩

theorem Reduces.refines {e e' : Expr} (h : Reduces P e' e) : Refines P e' e := fun _ ↦ h.1

/-- What becomes of an expression when its children are visited. -/
def Rebuilt (P : Assignment → Prop) (e : Expr) (result : Bool × Expr) : Prop :=
  result = (false, e) ∨
    (result.1 = true ∧ Preserves P result.2 e ∧ result.2.weight < e.weight)

/-- The function visits `e` in the same way whatever fuel it has, if it has enough. -/
def Visits (P : Assignment → Prop) (visit : Nat → Expr → Except Stop Expr) (e : Expr) : Prop :=
  ∃ e', (∀ fuel, e.weight ≤ fuel → visit fuel e = .ok e') ∧ Reduces P e' e

section Children

variable {visit visitRight : Nat → Expr → Except Stop Expr}

theorem visitUnary_rebuilt (wrap : Expr → Expr) {create : Expr → Expr} {kid : Expr}
    (hkid : Visits P visit kid) (hwell : (wrap kid).WellTyped)
    (hcongr : ∀ kid', Refines P kid' kid → Refines P (wrap kid') (wrap kid))
    (hcreate : ∀ kid', Refines P (create kid') (wrap kid'))
    (hweight : ∀ kid', kid'.weight < kid.weight → (wrap kid').weight < (wrap kid).weight) :
    ∃ result, (∀ fuel, kid.weight ≤ fuel →
      visitUnary (visit fuel) (wrap kid) kid create = .ok result) ∧
        Rebuilt P (wrap kid) result := by
  obtain ⟨kid', hvisit, hreduces⟩ := hkid
  refine ⟨if kid' = kid then (false, wrap kid) else (true, create kid'), fun fuel hfuel ↦ ?_, ?_⟩
  · rw [visitUnary, hvisit fuel hfuel]
    rfl
  · split_ifs with hsame
    · exact .inl rfl
    · have hwrap := hcongr kid' hreduces.refines hwell
      have hrebuilt := hcreate kid' hwrap.wellTyped
      exact .inr ⟨rfl, (hcreate kid').trans (hcongr kid' hreduces.refines) hwell,
        hrebuilt.weight_le.trans_lt (hweight kid' (hreduces.2 hsame))⟩

theorem visitBinary_rebuilt (wrap : Expr → Expr → Expr) {create : Expr → Expr → Expr}
    {left right : Expr}
    (hleft : Visits P visit left) (hright : Visits P visitRight right)
    (hwell : (wrap left right).WellTyped)
    (hcongr : ∀ left' right', Refines P left' left → Refines P right' right →
      Refines P (wrap left' right') (wrap left right))
    (hcreate : ∀ left' right', Refines P (create left' right') (wrap left' right'))
    (hweight : ∀ left' right', left'.weight + right'.weight < left.weight + right.weight →
      (wrap left' right').weight < (wrap left right).weight) :
    ∃ result, (∀ fuel, left.weight ≤ fuel → right.weight ≤ fuel →
      visitBinary (visit fuel) (visitRight fuel) (wrap left right) left right create = .ok result) ∧
        Rebuilt P (wrap left right) result := by
  obtain ⟨left', hvisitl, hreducesl⟩ := hleft
  obtain ⟨right', hvisitr, hreducesr⟩ := hright
  refine ⟨if left' = left ∧ right' = right then (false, wrap left right)
    else (true, create left' right'), fun fuel hl hr ↦ ?_, ?_⟩
  · rw [visitBinary, hvisitl fuel hl, hvisitr fuel hr]
    rfl
  · split_ifs with hsame
    · exact .inl rfl
    · have hwrap := hcongr left' right' hreducesl.refines hreducesr.refines
      have hrebuilt := hcreate left' right' (hwrap hwell).wellTyped
      have hlighter : left'.weight + right'.weight < left.weight + right.weight := by
        have hl := hreducesl.1.weight_le
        have hr := hreducesr.1.weight_le
        rcases not_and_or.mp hsame with hne | hne
        · have := hreducesl.2 hne
          omega
        · have := hreducesr.2 hne
          omega
      exact .inr ⟨rfl, (hcreate left' right').trans hwrap hwell,
        hrebuilt.weight_le.trans_lt (hweight left' right' hlighter)⟩

theorem visitDivisor_visits {right : Expr} (h : Visits P visit right) (hwell : right.WellTyped) :
    Visits P (fun fuel ↦ visitDivisor (visit fuel)) right := by
  obtain ⟨right', hvisit, hreduces⟩ := h
  refine ⟨if isZero right' then right else right', fun fuel hfuel ↦ ?_, ?_⟩
  · simp only [visitDivisor, hvisit fuel hfuel]
    rfl
  · split_ifs
    · exact Reduces.refl hwell
    · exact hreduces

theorem doChildren_rebuilt (protectedDiv : Bool) (visit : Nat → Expr → Except Stop Expr) {e : Expr}
    (hwell : e.WellTyped)
    (ih : ∀ kid, kid.weight < e.weight → kid.WellTyped → Visits P visit kid) :
    ∃ result, (∀ fuel, e.weight ≤ fuel + 1 → doChildren protectedDiv (visit fuel) e = .ok result) ∧
      Rebuilt P e result := by
  cases e with
  | constant a => exact ⟨(false, constant a), fun _ _ ↦ rfl, .inl rfl⟩
  | read array index => exact ⟨(false, .read array index), fun _ _ ↦ rfl, .inl rfl⟩
  | concat left right =>
    simp only [weight] at ih ⊢
    obtain ⟨result, hvisit, hrebuilt⟩ := visitBinary_rebuilt concat
      (ih left (by omega) hwell.1) (ih right (by omega) hwell.2) hwell
      (fun _ _ ↦ Refines.concat_congr) create_refines.2 (by simp only [weight]; omega)
    exact ⟨result, fun fuel h ↦ hvisit fuel (by omega) (by omega), hrebuilt⟩
  | extract expr offset width =>
    simp only [weight] at ih ⊢
    obtain ⟨result, hvisit, hrebuilt⟩ := visitUnary_rebuilt
      (fun expr ↦ extract expr offset width) (ih expr (by omega) hwell.1) hwell
      (fun _ ↦ Refines.extract_congr) (fun _ ↦ create_refines.1 _ _ _)
      (by simp only [weight]; omega)
    exact ⟨result, fun fuel h ↦ hvisit fuel (by omega), hrebuilt⟩
  | not expr =>
    simp only [weight] at ih ⊢
    obtain ⟨result, hvisit, hrebuilt⟩ := visitUnary_rebuilt Expr.not
      (ih expr (by omega) hwell) hwell (fun _ ↦ Refines.not_congr) NotExpr.create_refines
      (by simp only [weight]; omega)
    exact ⟨result, fun fuel h ↦ hvisit fuel (by omega), hrebuilt⟩
  | zext src width =>
    simp only [weight] at ih ⊢
    obtain ⟨result, hvisit, hrebuilt⟩ := visitUnary_rebuilt (fun src ↦ zext src width)
      (ih src (by omega) hwell.1) hwell (fun _ ↦ Refines.zext_congr)
      (fun _ ↦ ZExtExpr.create_refines _ _) (by simp only [weight]; omega)
    exact ⟨result, fun fuel h ↦ hvisit fuel (by omega), hrebuilt⟩
  | sext src width =>
    simp only [weight] at ih ⊢
    obtain ⟨result, hvisit, hrebuilt⟩ := visitUnary_rebuilt (fun src ↦ sext src width)
      (ih src (by omega) hwell.1) hwell (fun _ ↦ Refines.sext_congr)
      (fun _ ↦ SExtExpr.create_refines _ _) (by simp only [weight]; omega)
    exact ⟨result, fun fuel h ↦ hvisit fuel (by omega), hrebuilt⟩
  | arithmetic kind left right =>
    have hkind := kind.weight_pos
    simp only [weight] at ih ⊢
    have hright := ih right (by omega) hwell.2.1
    have hright : Visits P (fun fuel ↦ if protectedDiv ∧ kind.IsDivision
        then visitDivisor (visit fuel) else visit fuel) right := by
      split_ifs
      · exact visitDivisor_visits hright hwell.2.1
      · exact hright
    obtain ⟨result, hvisit, hrebuilt⟩ := visitBinary_rebuilt (arithmetic kind)
      (ih left (by omega) hwell.1) hright hwell
      (fun _ _ ↦ Refines.arithmetic_congr) kind.create_refines (by simp only [weight]; omega)
    exact ⟨result, fun fuel h ↦ hvisit fuel (by omega) (by omega), hrebuilt⟩
  | comparison kind left right =>
    have hkind := kind.weight_pos
    simp only [weight] at ih ⊢
    obtain ⟨result, hvisit, hrebuilt⟩ := visitBinary_rebuilt (comparison kind)
      (ih left (by omega) hwell.1) (ih right (by omega) hwell.2.1) hwell
      (fun _ _ ↦ Refines.comparison_congr) kind.create_refines (by simp only [weight]; omega)
    exact ⟨result, fun fuel h ↦ hvisit fuel (by omega) (by omega), hrebuilt⟩

end Children

theorem finish_of_ne (v : ExprVisitor) {e : Expr} (h : ∀ a, e ≠ constant a) :
    v.finish e = (v.visitExprPost e).getD e := by
  cases e with
  | constant a => exact absurd rfl (h a)
  | _ => rfl

theorem Lawful.finish_cases {v : ExprVisitor} (hv : v.Lawful P) (e : Expr) :
    v.finish e = e ∨
      ∃ a, v.finish e = constant a ∧ (∀ b, e ≠ constant b) ∧ Refines P (constant a) e := by
  by_cases hconstant : ∃ a, e = constant a
  · obtain ⟨a, rfl⟩ := hconstant
    exact .inl rfl
  have hne : ∀ a, e ≠ constant a := fun a ha ↦ hconstant ⟨a, ha⟩
  rw [finish_of_ne v hne]
  cases hpost : v.visitExprPost e with
  | none => exact .inl rfl
  | some e' =>
    obtain ⟨a, rfl, hrefines⟩ := hv.visitExprPost e e' hpost
    exact .inr ⟨a, rfl, hne, hrefines⟩

/-- An expression that was rebuilt is lighter, whether or not it is replaced in the end. -/
theorem Lawful.finish_reduces {v : ExprVisitor} (hv : v.Lawful P) {e e' : Expr}
    (hwell : e.WellTyped) (he : Preserves P e' e) (hweight : e'.weight < e.weight) : Reduces P (v.finish e') e := by
  rcases hv.finish_cases e' with hsame | ⟨a, hconstant, -, hrefines⟩
  · rw [hsame]
    exact ⟨he, fun _ ↦ hweight⟩
  · rw [hconstant]
    have h := hrefines he.wellTyped
    exact ⟨hrefines.trans (fun _ ↦ he) hwell, fun _ ↦ h.weight_le.trans_lt hweight⟩

theorem visit_constant (v : ExprVisitor) (fuel : Nat) (a : BV) :
    v.visit fuel (constant a) = .ok (constant a) := by
  cases fuel <;> rfl

theorem visit_succ (v : ExprVisitor) (fuel : Nat) {e : Expr} (h : ∀ a, e ≠ constant a) :
    v.visit (fuel + 1) e =
      match v.visitExpr e with
      | some e' => .ok e'
      | none => do
        let (rebuilt, e') ← doChildren v.protectedDiv (v.visit fuel) e
        let e'' ← if rebuilt && v.recursive then v.visit fuel e' else .ok e'
        return v.finish e'' := by
  cases e with
  | constant a => exact absurd rfl (h a)
  | _ => rfl

/-- A lawful visitor ends on every well-typed expression. -/
theorem Lawful.visits {v : ExprVisitor} (hv : v.Lawful P) {e : Expr} (hwell : e.WellTyped) :
    Visits P v.visit e := by
  induction hn : e.weight using Nat.strong_induction_on generalizing e with
  | _ n ih =>
    subst hn
    by_cases hconstant : ∃ a, e = constant a
    · obtain ⟨a, rfl⟩ := hconstant
      exact ⟨constant a, fun fuel _ ↦ visit_constant v fuel a, Reduces.refl hwell⟩
    have hne : ∀ a, e ≠ constant a := fun a ha ↦ hconstant ⟨a, ha⟩
    -- an expression that is not constant weighs something, so there is fuel to visit it
    have hfuel {fuel : Nat} (h : e.weight ≤ fuel) : ∃ m, fuel = m + 1 ∧ e.weight ≤ m + 1 := by
      have := e.weight_pos
      exact ⟨fuel - 1, by omega, by omega⟩
    cases hpre : v.visitExpr e with
    | some e' =>
      obtain ⟨a, rfl, hrefines⟩ := hv.visitExpr e e' hpre
      refine ⟨constant a, fun fuel h ↦ ?_, reduces_constant hne (hrefines hwell)⟩
      obtain ⟨m, rfl, -⟩ := hfuel h
      rw [visit_succ v m hne, hpre]
    | none =>
      obtain ⟨⟨rebuilt, e'⟩, hvisit, hrebuilt⟩ :=
        doChildren_rebuilt v.protectedDiv v.visit hwell fun kid h hkid ↦ ih _ h hkid rfl
      have hstep {fuel : Nat} (h : e.weight ≤ fuel + 1) : v.visit (fuel + 1) e =
          (do
            let e'' ← if rebuilt && v.recursive then v.visit fuel e' else .ok e'
            return v.finish e'') := by
        rw [visit_succ v fuel hne, hpre, hvisit fuel h]
        rfl
      rcases hrebuilt with hsame | ⟨rfl, he', hlighter⟩
      · obtain ⟨rfl, rfl⟩ := Prod.mk.inj hsame
        refine ⟨v.finish e', fun fuel h ↦ ?_, ?_⟩
        · obtain ⟨m, rfl, hm⟩ := hfuel h
          exact hstep hm
        · rcases hv.finish_cases e' with hfin | ⟨a, hfin, -, hrefines⟩
          · rw [hfin]
            exact Reduces.refl hwell
          · rw [hfin]
            exact reduces_constant hne (hrefines hwell)
      · cases hrec : v.recursive with
        | false =>
          refine ⟨v.finish e', fun fuel h ↦ ?_, hv.finish_reduces hwell he' hlighter⟩
          obtain ⟨m, rfl, hm⟩ := hfuel h
          rw [hstep hm, hrec]
          rfl
        | true =>
          obtain ⟨e'', hvisit', hreduces⟩ := ih _ hlighter he'.wellTyped rfl
          have he'' : Preserves P e'' e := hreduces.refines.trans (fun _ ↦ he') hwell
          refine ⟨v.finish e'', fun fuel h ↦ ?_,
            hv.finish_reduces hwell he'' (hreduces.1.weight_le.trans_lt hlighter)⟩
          obtain ⟨m, rfl, hm⟩ := hfuel h
          rw [hstep hm, hrec, hvisit' m (by omega)]
          rfl

end ExprVisitor

end CoverageVP.Klee
