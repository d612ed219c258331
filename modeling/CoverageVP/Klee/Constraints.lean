import CoverageVP.Klee.Visitor

/-!
# The constraint manager

An expression is simplified under a set of constraints by a recursive visitor that replaces what
the constraints equate with a constant. A constraint is added after it was simplified: conjunctions
are split, and an equation with a constant on the left rewrites the constraints that are there
already, each of which is added anew if it has changed. The constant `true` is dropped, and the
constant `false` fails an assertion.

Whatever is added, the set means the conjunction of what was added, as long as no assertion fails,
and one fails only if the conjunction is unsatisfiable.
-/

namespace CoverageVP.Klee

open Clover (BV SymArray Assignment)
open Klee.Expr ExprVisitor

/-! ## The visitors of the constraint manager -/

def exprReplaceVisitor (src dst : Expr) : ExprVisitor where
  recursive := false
  protectedDiv := false
  visitExpr e := if e = src then some dst else none
  visitExprPost e := if e = src then some dst else none

def exprReplaceVisitor2 (replacements : List (Expr × Expr)) : ExprVisitor where
  recursive := true
  protectedDiv := false
  visitExpr _ := none
  visitExprPost e := (replacements.find? fun replacement ↦ replacement.1 = e).map Prod.snd

/-- What a constraint tells to replace. An expression that occurs twice keeps its first
replacement. -/
def equality : Expr → Expr × Expr
  | comparison .Eq (constant a) right => (right, constant a)
  | c => (c, constant (.ofBool true))

namespace ConstraintManager

def simplifyExpr (fuel : Nat) (constraints : List Expr) (e : Expr) : Except Stop Expr :=
  match e with
  | constant a => .ok (constant a)
  | e => (exprReplaceVisitor2 (constraints.map equality)).visit fuel e

/-- One round of the loop of `rewriteConstraints`: `add` adds a constraint that has changed. -/
def rewriteConstraint (fuel : Nat) (add : List Expr → Expr → Except Stop (List Expr))
    (visitor : ExprVisitor) (constraints : List Expr) (ce : Expr) : Except Stop (List Expr) := do
  let e ← visitor.visit fuel ce
  if e = ce then return constraints ++ [ce] else add constraints e

def rewriteConstraints (fuel : Nat) (add : List Expr → Expr → Except Stop (List Expr))
    (visitor : ExprVisitor) (constraints old : List Expr) : Except Stop (List Expr) :=
  old.foldlM (rewriteConstraint fuel add visitor) constraints

def addConstraintInternal : Nat → List Expr → Expr → Except Stop (List Expr)
  | 0, _, _ => .error .outOfFuel
  | fuel + 1, constraints, e =>
    match e with
    | constant a => if ConstantExpr.isTrue a then .ok constraints else .error .assertion
    | arithmetic .And left right => do
      let constraints ← addConstraintInternal fuel constraints left
      addConstraintInternal fuel constraints right
    | comparison .Eq (constant a) right => do
      let constraints ← rewriteConstraints fuel (addConstraintInternal fuel)
        (exprReplaceVisitor right (constant a)) [] constraints
      return constraints ++ [e]
    | e => .ok (constraints ++ [e])

def addConstraint (fuel : Nat) (constraints : List Expr) (e : Expr) :
    Except Stop (List Expr) := do
  let simplified ← simplifyExpr fuel constraints e
  addConstraintInternal fuel constraints simplified

end ConstraintManager

def AllHold (σ : Assignment) (constraints : List Expr) : Prop := ∀ c ∈ constraints, c.Holds σ

def Conditions (constraints : List Expr) : Prop := ∀ c ∈ constraints, c.IsCondition

def totalWeight (constraints : List Expr) : Nat := (constraints.map Expr.weight).sum

/-- The part occurs in one of the constraints. -/
def Occurs (constraints : List Expr) (part : Part) : Prop := ∃ c ∈ constraints, part ∈ c.parts

instance (σ : Assignment) (constraints : List Expr) : Decidable (AllHold σ constraints) :=
  inferInstanceAs (Decidable (∀ c ∈ constraints, c.Holds σ))

instance (constraints : List Expr) : Decidable (Conditions constraints) :=
  inferInstanceAs (Decidable (∀ c ∈ constraints, c.IsCondition))

@[simp] theorem allHold_nil (σ : Assignment) : AllHold σ [] := fun _ h ↦ absurd h List.not_mem_nil

theorem allHold_append {σ : Assignment} {a b : List Expr} :
    AllHold σ (a ++ b) ↔ AllHold σ a ∧ AllHold σ b := List.forall_mem_append

theorem allHold_singleton {σ : Assignment} {e : Expr} : AllHold σ [e] ↔ e.Holds σ :=
  List.forall_mem_singleton

theorem conditions_append {a b : List Expr} :
    Conditions (a ++ b) ↔ Conditions a ∧ Conditions b := List.forall_mem_append

theorem conditions_singleton {e : Expr} : Conditions [e] ↔ e.IsCondition :=
  List.forall_mem_singleton

theorem totalWeight_append (a b : List Expr) :
    totalWeight (a ++ b) = totalWeight a + totalWeight b := by
  simp only [totalWeight, List.map_append, List.sum_append]

theorem totalWeight_singleton (e : Expr) : totalWeight [e] = e.weight := by
  simp only [totalWeight, List.map_cons, List.map_nil, List.sum_cons, List.sum_nil, Nat.add_zero]

theorem occurs_append {a b : List Expr} {part : Part} :
    Occurs (a ++ b) part ↔ Occurs a part ∨ Occurs b part := by
  simp only [Occurs, List.mem_append, or_and_right, exists_or]

theorem occurs_singleton {e : Expr} {part : Part} :
    Occurs [e] part ↔ part ∈ e.parts := by
  simp only [Occurs, List.mem_singleton, exists_eq_left]

/-! ## What an addition does -/

/-- The set `constraints` stands for `old` and `new` under the assignments that satisfy `P`. -/
structure Extends (P : Assignment → Prop) (old new constraints : List Expr) : Prop where
  conditions : Conditions constraints
  totalWeight_le : totalWeight constraints ≤ totalWeight old + totalWeight new
  allHold_iff : ∀ σ, P σ → (AllHold σ constraints ↔ AllHold σ old ∧ AllHold σ new)
  occurs : ∀ part, Occurs constraints part → Occurs old part ∨ Occurs new part

/-- A result is a set that stands for `old` and `new`, or an assertion that fails because there is
no such set. -/
def Meets (P : Assignment → Prop) (old new : List Expr) : Except Stop (List Expr) → Prop
  | .ok constraints => Extends P old new constraints
  | .error .assertion => ∀ σ, P σ → ¬ (AllHold σ old ∧ AllHold σ new)
  | .error .outOfFuel => False

/-- With enough fuel the computation has one result. -/
def Settles (bound : Nat) (P : Assignment → Prop) (old new : List Expr)
    (run : Nat → Except Stop (List Expr)) : Prop :=
  ∃ result, (∀ fuel, bound ≤ fuel → run fuel = result) ∧ Meets P old new result

section Settles

variable {P : Assignment → Prop} {bound : Nat} {old new new' : List Expr}
  {run : Nat → Except Stop (List Expr)}

theorem Settles.of_ok (bound : Nat) {constraints : List Expr} (h : Extends P old new constraints)
    (hrun : ∀ fuel, bound ≤ fuel → run fuel = .ok constraints) : Settles bound P old new run :=
  ⟨.ok constraints, hrun, h⟩

theorem Settles.mono {bound' : Nat} {Q : Assignment → Prop} (h : Settles bound P old new run)
    (hbound : bound ≤ bound') (hPQ : ∀ σ, Q σ → P σ) : Settles bound' Q old new run := by
  obtain ⟨result, hrun, hmeets⟩ := h
  refine ⟨result, fun fuel hfuel ↦ hrun fuel (hbound.trans hfuel), ?_⟩
  cases result with
  | ok constraints =>
    exact ⟨hmeets.conditions, hmeets.totalWeight_le, fun σ hσ ↦ hmeets.allHold_iff σ (hPQ σ hσ),
      hmeets.occurs⟩
  | error stop =>
    cases stop with
    | assertion => exact fun σ hσ ↦ hmeets σ (hPQ σ hσ)
    | outOfFuel => exact hmeets

/-- One level of the recursion takes one unit of fuel. -/
theorem Settles.succ {run' : Nat → Except Stop (List Expr)} (h : Settles bound P old new run)
    (hrun' : ∀ fuel, run' (fuel + 1) = run fuel) : Settles (bound + 1) P old new run' := by
  obtain ⟨result, hrun, hmeets⟩ := h
  refine ⟨result, fun fuel hfuel ↦ ?_, hmeets⟩
  obtain ⟨m, rfl⟩ := Nat.exists_eq_add_of_le' hfuel
  rw [← Nat.add_assoc, hrun']
  exact hrun _ (Nat.le_add_left _ _)

/-- What is added is replaced by what has the same meaning and does not weigh less. -/
theorem Settles.congr (h : Settles bound P old new run)
    (hiff : ∀ σ, P σ → (AllHold σ new ↔ AllHold σ new'))
    (hweight : totalWeight new ≤ totalWeight new')
    (hoccurs : ∀ part, Occurs new part → Occurs new' part) : Settles bound P old new' run := by
  obtain ⟨result, hrun, hmeets⟩ := h
  refine ⟨result, hrun, ?_⟩
  cases result with
  | ok constraints =>
    refine ⟨hmeets.conditions, hmeets.totalWeight_le.trans (Nat.add_le_add_left hweight _),
      fun σ hσ ↦ ?_, fun part h ↦ (hmeets.occurs part h).imp_right (hoccurs part)⟩
    rw [hmeets.allHold_iff σ hσ, hiff σ hσ]
  | error stop =>
    cases stop with
    | assertion =>
      intro σ hσ hall
      rw [← hiff σ hσ] at hall
      exact hmeets σ hσ hall
    | outOfFuel => exact hmeets

/-- Additions one after the other. -/
theorem Settles.bind {next : Nat → List Expr → Except Stop (List Expr)}
    (h : Settles bound P old new run)
    (hnext : ∀ constraints, Extends P old new constraints →
      Settles bound P constraints new' fun fuel ↦ next fuel constraints) :
    Settles bound P old (new ++ new') fun fuel ↦ run fuel >>= next fuel := by
  obtain ⟨result, hrun, hmeets⟩ := h
  cases result with
  | ok constraints =>
    obtain ⟨result', hrun', hmeets'⟩ := hnext constraints hmeets
    refine ⟨result', fun fuel hfuel ↦ ?_, ?_⟩
    · dsimp only
      rw [hrun fuel hfuel]
      exact hrun' fuel hfuel
    cases result' with
    | ok constraints' =>
      refine ⟨hmeets'.conditions, ?_, fun σ hσ ↦ ?_, fun part hpart ↦ ?_⟩
      · have h := hmeets.totalWeight_le
        have h' := hmeets'.totalWeight_le
        rw [totalWeight_append]
        omega
      · rw [hmeets'.allHold_iff σ hσ, hmeets.allHold_iff σ hσ, allHold_append, and_assoc]
      · rw [occurs_append]
        rcases hmeets'.occurs part hpart with hpart | hpart
        · exact (hmeets.occurs part hpart).imp_right .inl
        · exact .inr (.inr hpart)
    | error stop =>
      cases stop with
      | assertion =>
        intro σ hσ hall
        rw [allHold_append, ← and_assoc, ← hmeets.allHold_iff σ hσ] at hall
        exact hmeets' σ hσ hall
      | outOfFuel => exact hmeets'
  | error stop =>
    refine ⟨.error stop, fun fuel hfuel ↦ ?_, ?_⟩
    · dsimp only
      rw [hrun fuel hfuel]
      rfl
    cases stop with
    | assertion =>
      intro σ hσ hall
      rw [allHold_append, ← and_assoc] at hall
      exact hmeets σ hσ hall.1
    | outOfFuel => exact hmeets

end Settles

/-! ## The visitors are lawful -/

section Lawful

variable {a : BV} {e c right : Expr}

/-- An equation with a constant gives a replacement. -/
theorem refines_of_equation (hcondition : (comparison .Eq (constant a) right).IsCondition) :
    Refines (fun σ ↦ (comparison .Eq (constant a) right).Holds σ) (constant a) right := by
  intro _
  obtain ⟨⟨ha, -, hwidth⟩, -⟩ := hcondition
  refine ⟨ha, hwidth, fun σ hσ ↦ ?_, right.weight_pos, fun part h ↦ absurd h List.not_mem_nil⟩
  have hbool : ∀ b : Bool, (BitVec.ofBool b).setWidth 1 = 1#1 → b = true := by decide
  have heq := hbool _ hσ
  simp only [CmpKind.apply, beq_iff_eq] at heq
  rw [← hwidth]
  exact heq

/-- A condition that holds gives a replacement. -/
theorem refines_of_holds (hcondition : c.IsCondition) :
    Refines (fun σ ↦ c.Holds σ) (constant (.ofBool true)) c := by
  intro _
  obtain ⟨-, hwidth⟩ := hcondition
  refine ⟨Nat.one_pos, hwidth.symm, fun σ hσ ↦ ?_, c.weight_pos,
    fun part h ↦ absurd h List.not_mem_nil⟩
  rw [hwidth]
  exact hσ.symm

theorem Refines.mono {P Q : Assignment → Prop} {e e₀ : Expr} (h : Refines P e e₀)
    (hPQ : ∀ σ, Q σ → P σ) : Refines Q e e₀ := by
  intro ht
  have h := h ht
  exact ⟨h.wellTyped, h.getWidth_eq, fun σ hσ ↦ h.bits_eq σ (hPQ σ hσ), h.weight_le,
    h.parts_subset⟩

theorem exprReplaceVisitor_lawful (hcondition : (comparison .Eq (constant a) right).IsCondition) :
    (exprReplaceVisitor right (constant a)).Lawful
      fun σ ↦ (comparison .Eq (constant a) right).Holds σ := by
  have hreplace : ∀ e e', (if e = right then some (constant a) else none) = some e' →
      ∃ b, e' = constant b ∧ Refines (fun σ ↦ (comparison .Eq (constant a) right).Holds σ)
        (constant b) e := by
    intro e e' h
    split_ifs at h with he
    cases h
    subst he
    exact ⟨a, rfl, refines_of_equation hcondition⟩
  exact ⟨hreplace, hreplace⟩

/-- What a constraint tells to replace is replaced by a constant of the same value. -/
theorem equality_refines (hcondition : c.IsCondition) :
    ∃ b, (equality c).2 = constant b ∧ Refines (fun σ ↦ c.Holds σ) (constant b) (equality c).1 := by
  rw [equality.eq_def]
  split
  · exact ⟨_, rfl, refines_of_equation hcondition⟩
  · exact ⟨_, rfl, refines_of_holds hcondition⟩

theorem exprReplaceVisitor2_lawful {constraints : List Expr} (hconditions : Conditions constraints) :
    (exprReplaceVisitor2 (constraints.map equality)).Lawful fun σ ↦ AllHold σ constraints := by
  refine ⟨fun e e' h ↦ absurd h (Option.some_ne_none _).symm, fun e e' h ↦ ?_⟩
  obtain ⟨replacement, hfind, rfl⟩ := Option.map_eq_some_iff.mp h
  obtain ⟨c, hc, rfl⟩ := List.mem_map.mp (List.mem_of_find?_eq_some hfind)
  have hkey : (equality c).1 = e := by simpa using List.find?_some hfind
  obtain ⟨b, hb, hrefines⟩ := equality_refines (hconditions c hc)
  exact ⟨b, hb, hkey ▸ hrefines.mono fun σ hσ ↦ hσ c hc⟩

end Lawful

/-! ## The operations preserve meaning -/

namespace ConstraintManager

theorem simplifyExpr_eq (fuel : Nat) (constraints : List Expr) (e : Expr) :
    simplifyExpr fuel constraints e =
      (exprReplaceVisitor2 (constraints.map equality)).visit fuel e := by
  cases e with
  | constant a => exact (visit_constant _ fuel a).symm
  | _ => rfl

/-- An expression is simplified in finitely many steps. Where the constraints hold it keeps its
value, and it reads no new bytes. -/
theorem simplifyExpr_preserves {constraints : List Expr} (hconditions : Conditions constraints)
    {e : Expr} (hwell : e.WellTyped) :
    ∃ e', (∀ fuel, e.weight ≤ fuel → simplifyExpr fuel constraints e = .ok e') ∧
      Preserves (fun σ ↦ AllHold σ constraints) e' e := by
  obtain ⟨e', hvisit, hreduces⟩ := (exprReplaceVisitor2_lawful hconditions).visits hwell
  refine ⟨e', fun fuel hfuel ↦ ?_, hreduces.1⟩
  rw [simplifyExpr_eq]
  exact hvisit fuel hfuel

theorem extends_push {P : Assignment → Prop} {constraints : List Expr} {e : Expr}
    (hconditions : Conditions constraints) (he : e.IsCondition) :
    Extends P constraints [e] (constraints ++ [e]) :=
  ⟨conditions_append.mpr ⟨hconditions, conditions_singleton.mpr he⟩,
    (totalWeight_append _ _).le, fun _ _ ↦ allHold_append, fun _ ↦ occurs_append.mp⟩

section Rewriting

variable {P : Assignment → Prop} {visitor : ExprVisitor} {bound limit : Nat}
  {add : Nat → List Expr → Expr → Except Stop (List Expr)}

/-- A constraint is rewritten: it is kept, or what has become of it is added. -/
theorem rewriteConstraint_settles (hvisitor : visitor.Lawful P)
    (hadd : ∀ constraints e, Conditions constraints → e.IsCondition →
      totalWeight constraints + e.weight < limit →
      Settles bound (fun _ ↦ True) constraints [e] fun fuel ↦ add fuel constraints e)
    {constraints : List Expr} {ce : Expr} (hconditions : Conditions constraints)
    (hce : ce.IsCondition) (hlimit : totalWeight constraints + ce.weight ≤ limit)
    (hbound : ce.weight ≤ bound) :
    Settles bound P constraints [ce] fun fuel ↦
      rewriteConstraint fuel (add fuel) visitor constraints ce := by
  obtain ⟨e, hvisit, hreduces⟩ := hvisitor.visits hce.1
  by_cases hsame : e = ce
  · refine Settles.of_ok _ (extends_push hconditions hce) fun fuel hfuel ↦ ?_
    dsimp only [rewriteConstraint]
    rw [hvisit fuel (hbound.trans hfuel)]
    exact if_pos hsame
  · have he : e.IsCondition := ⟨hreduces.1.wellTyped, hreduces.1.getWidth_eq.trans hce.2⟩
    have hlighter := hreduces.2 hsame
    have hadded : Settles bound P constraints [ce] fun fuel ↦ add fuel constraints e := by
      apply ((hadd constraints e hconditions he (by omega)).mono le_rfl fun _ _ ↦ trivial).congr
      · intro σ hσ
        rw [allHold_singleton, allHold_singleton, hreduces.1.holds_iff hce.2 hσ]
      · rw [totalWeight_singleton, totalWeight_singleton]
        exact hlighter.le
      · intro array hpart
        rw [occurs_singleton] at hpart ⊢
        exact hreduces.1.parts_subset _ hpart
    obtain ⟨result, hrun, hmeets⟩ := hadded
    refine ⟨result, fun fuel hfuel ↦ ?_, hmeets⟩
    dsimp only [rewriteConstraint]
    rw [hvisit fuel (hbound.trans hfuel)]
    exact (if_neg hsame).trans (hrun fuel hfuel)

theorem rewriteConstraints_settles (hvisitor : visitor.Lawful P)
    (hadd : ∀ constraints e, Conditions constraints → e.IsCondition →
      totalWeight constraints + e.weight < limit →
      Settles bound (fun _ ↦ True) constraints [e] fun fuel ↦ add fuel constraints e)
    (hbound : limit ≤ bound) {old : List Expr} (hold : Conditions old) {constraints : List Expr}
    (hconditions : Conditions constraints)
    (hlimit : totalWeight constraints + totalWeight old ≤ limit) :
    Settles bound P constraints old fun fuel ↦
      rewriteConstraints fuel (add fuel) visitor constraints old := by
  induction old generalizing constraints with
  | nil =>
    exact Settles.of_ok _ ⟨hconditions, Nat.le_add_right _ _, by simp, fun _ ↦ .inl⟩ fun _ _ ↦ rfl
  | cons ce rest ih =>
    have hce : ce.IsCondition := hold ce List.mem_cons_self
    have hrest : Conditions rest := fun c hc ↦ hold c (List.mem_cons_of_mem ce hc)
    have hweight : totalWeight (ce :: rest) = ce.weight + totalWeight rest := rfl
    rw [hweight] at hlimit
    have hone := rewriteConstraint_settles hvisitor hadd hconditions hce (by omega) (by omega)
    refine hone.bind fun constraints' hextends ↦ ih hrest hextends.conditions ?_
    have := hextends.totalWeight_le
    rw [totalWeight_singleton] at this
    omega

end Rewriting

/-- The rewritten constraints and the equation that rewrote them. -/
theorem settles_equation {bound : Nat} {old : List Expr} {e : Expr} (he : e.IsCondition)
    {run : Nat → Except Stop (List Expr)} (h : Settles bound (fun σ ↦ e.Holds σ) [] old run) :
    Settles bound (fun _ ↦ True) old [e] fun fuel ↦ do
      let constraints ← run fuel
      return constraints ++ [e] := by
  obtain ⟨result, hrun, hmeets⟩ := h
  cases result with
  | ok constraints =>
    have hextends : Extends (fun _ ↦ True) old [e] (constraints ++ [e]) := by
      refine ⟨?_, ?_, fun σ _ ↦ ?_, fun part hpart ↦ ?_⟩
      · exact conditions_append.mpr ⟨hmeets.conditions, conditions_singleton.mpr he⟩
      · have := hmeets.totalWeight_le
        rw [totalWeight_append]
        exact Nat.add_le_add_right (by simpa [totalWeight] using this) _
      · rw [allHold_append, allHold_singleton]
        constructor
        · rintro ⟨hall, hσ⟩
          exact ⟨((hmeets.allHold_iff σ hσ).mp hall).2, hσ⟩
        · rintro ⟨hall, hσ⟩
          exact ⟨(hmeets.allHold_iff σ hσ).mpr ⟨allHold_nil σ, hall⟩, hσ⟩
      · rcases occurs_append.mp hpart with hpart | hpart
        · refine .inl ((hmeets.occurs part hpart).resolve_left ?_)
          rintro ⟨c, hc, -⟩
          exact absurd hc List.not_mem_nil
        · exact .inr hpart
    refine Settles.of_ok _ hextends fun fuel hfuel ↦ ?_
    rw [hrun fuel hfuel]
    rfl
  | error stop =>
    refine ⟨.error stop, fun fuel hfuel ↦ ?_, ?_⟩
    · dsimp only
      rw [hrun fuel hfuel]
      rfl
    · cases stop with
      | assertion =>
        rintro σ - ⟨hall, hσ⟩
        exact hmeets σ (allHold_singleton.mp hσ) ⟨allHold_nil σ, hall⟩
      | outOfFuel => exact hmeets

theorem not_holds_false (σ : Assignment) : ¬ (constant (.ofBool false)).Holds σ := by
  have hne : (BitVec.ofBool false).setWidth 1 ≠ 1#1 := by decide
  exact hne

theorem extends_true {P : Assignment → Prop} {constraints : List Expr} {a : BV}
    (hconditions : Conditions constraints) (htrue : ConstantExpr.isTrue a = true)
    (ha : (constant a).IsCondition) : Extends P constraints [constant a] constraints := by
  have hholds (σ : Assignment) : (constant a).Holds σ := by
    rcases ConstantExpr.isTrue_or_isFalse ha.2 with rfl | rfl
    · exact rfl
    · cases htrue
  refine ⟨hconditions, Nat.le_add_right _ _, fun σ _ ↦ ?_, fun array ↦ .inl⟩
  rw [allHold_singleton]
  exact (and_iff_left (hholds σ)).symm

theorem holds_and (σ : Assignment) (l r : Expr) :
    (arithmetic .And l r).Holds σ ↔ l.Holds σ ∧ r.Holds σ := by
  have hand : ∀ x y : BitVec 1, x &&& y = 1#1 ↔ x = 1#1 ∧ y = 1#1 := by decide
  exact hand _ _

/-- The forms of a constraint that are not just appended. -/
theorem addConstraintInternal_cases (e : Expr) :
    (∃ a, e = constant a) ∨ (∃ l r, e = arithmetic .And l r) ∨
      (∃ a right, e = comparison .Eq (constant a) right) ∨
        ∀ fuel constraints, addConstraintInternal (fuel + 1) constraints e =
          .ok (constraints ++ [e]) := by
  cases e with
  | constant a => exact .inl ⟨a, rfl⟩
  | arithmetic kind l r =>
    cases kind with
    | And => exact .inr (.inl ⟨l, r, rfl⟩)
    | _ => exact .inr (.inr (.inr fun _ _ ↦ rfl))
  | comparison kind l r =>
    cases kind with
    | Eq =>
      cases l with
      | constant a => exact .inr (.inr (.inl ⟨a, r, rfl⟩))
      | _ => exact .inr (.inr (.inr fun _ _ ↦ rfl))
    | _ => exact .inr (.inr (.inr fun _ _ ↦ rfl))
  | _ => exact .inr (.inr (.inr fun _ _ ↦ rfl))

theorem addConstraintInternal_settles {constraints : List Expr}
    (hconditions : Conditions constraints) {e : Expr} (he : e.IsCondition) :
    Settles (totalWeight constraints + e.weight) (fun _ ↦ True) constraints [e]
      fun fuel ↦ addConstraintInternal fuel constraints e := by
  induction hn : totalWeight constraints + e.weight using Nat.strong_induction_on
    generalizing constraints e with
  | _ n ih =>
    have hpos : 0 < n := by
      have := e.weight_pos
      omega
    obtain ⟨limit, rfl⟩ := Nat.exists_eq_add_of_le' hpos
    have hsmaller {constraints : List Expr} (hconditions : Conditions constraints) {e : Expr}
        (he : e.IsCondition) (h : totalWeight constraints + e.weight ≤ limit) :
        Settles limit (fun _ ↦ True) constraints [e]
          fun fuel ↦ addConstraintInternal fuel constraints e :=
      (ih _ (by omega) hconditions he rfl).mono h fun _ h ↦ h
    rcases addConstraintInternal_cases e with ⟨a, rfl⟩ | ⟨l, r, rfl⟩ | ⟨a, right, rfl⟩ | hpush
    · by_cases htrue : ConstantExpr.isTrue a = true
      · refine (Settles.of_ok limit (extends_true hconditions htrue he)
          fun _ _ ↦ rfl).succ fun fuel ↦ ?_
        exact if_pos htrue
      · obtain rfl := ConstantExpr.eq_ofBool_false he.2 htrue
        exact ⟨.error .assertion, fun fuel hfuel ↦ by
          obtain ⟨m, rfl⟩ := Nat.exists_eq_add_of_le' hfuel
          rfl, fun σ _ hall ↦ not_holds_false σ (allHold_singleton.mp hall.2)⟩
    · obtain ⟨⟨hl, hr, hwidth, -⟩, hone⟩ := he
      simp only [weight, ArithmeticKind.weight] at hn
      have hleft := hsmaller hconditions ⟨hl, hone⟩ (by omega)
      have hboth := hleft.bind fun constraints' hextends ↦
        hsmaller hextends.conditions ⟨hr, hwidth.symm.trans hone⟩ (by
          have := hextends.totalWeight_le
          rw [totalWeight_singleton] at this
          omega)
      refine (hboth.congr (fun σ _ ↦ ?_) ?_ fun part hpart ↦ ?_).succ fun fuel ↦ rfl
      · rw [allHold_append, allHold_singleton, allHold_singleton, allHold_singleton, holds_and]
      · simp only [totalWeight_append, totalWeight_singleton, weight, ArithmeticKind.weight]
        omega
      · rw [occurs_append, occurs_singleton, occurs_singleton] at hpart
        exact occurs_singleton.mpr (List.mem_append.mpr hpart)
    · have hweight : totalWeight constraints < limit := by
        simp only [weight, CmpKind.weight] at hn
        omega
      have hrewrite := rewriteConstraints_settles (exprReplaceVisitor_lawful he)
        (fun constraints e hconditions he h ↦ hsmaller hconditions he (h.le.trans hweight.le))
        hweight.le hconditions (fun c hc ↦ absurd hc List.not_mem_nil) (Nat.zero_add _).le
      exact (settles_equation he hrewrite).succ fun fuel ↦ rfl
    · exact (Settles.of_ok limit (extends_push hconditions he) fun _ _ ↦ rfl).succ
        fun fuel ↦ hpush fuel constraints

/-- A constraint is added in finitely many steps. The assertion fails only if the constraints and
the new one contradict each other, and otherwise the set means their conjunction. -/
theorem addConstraint_settles {constraints : List Expr} (hconditions : Conditions constraints)
    {e : Expr} (he : e.IsCondition) :
    Settles (totalWeight constraints + e.weight) (fun _ ↦ True) constraints [e]
      fun fuel ↦ addConstraint fuel constraints e := by
  obtain ⟨simplified, hsimplify, hpreserves⟩ := simplifyExpr_preserves hconditions he.1
  have hsimplified : simplified.IsCondition :=
    ⟨hpreserves.wellTyped, hpreserves.getWidth_eq.trans he.2⟩
  have hweight := hpreserves.weight_le
  obtain ⟨result, hrun, hmeets⟩ := addConstraintInternal_settles hconditions hsimplified
  have hrun' {fuel : Nat} (hfuel : totalWeight constraints + e.weight ≤ fuel) :
      addConstraint fuel constraints e = result := by
    rw [addConstraint, hsimplify fuel (by omega)]
    exact hrun fuel (by omega)
  -- the simplified constraint means the same where the others hold
  have hiff (σ : Assignment) : AllHold σ constraints ∧ AllHold σ [simplified] ↔
      AllHold σ constraints ∧ AllHold σ [e] := by
    rw [allHold_singleton, allHold_singleton]
    exact and_congr_right fun hall ↦ hpreserves.holds_iff he.2 hall
  refine ⟨result, fun fuel hfuel ↦ hrun' hfuel, ?_⟩
  cases result with
  | ok constraints' =>
    refine ⟨hmeets.conditions, ?_, fun σ hσ ↦ (hmeets.allHold_iff σ hσ).trans (hiff σ),
      fun part hpart ↦ ?_⟩
    · have := hmeets.totalWeight_le
      rw [totalWeight_singleton] at this ⊢
      omega
    · rw [occurs_singleton]
      exact (hmeets.occurs part hpart).imp_right fun h ↦
        hpreserves.parts_subset part (occurs_singleton.mp h)
  | error stop =>
    cases stop with
    | assertion => exact fun σ hσ hall ↦ hmeets σ hσ ((hiff σ).mpr hall)
    | outOfFuel => exact hmeets

end ConstraintManager

end CoverageVP.Klee
