import CoverageVP.Klee.Evaluation
import CoverageVP.Lib.Layers

/-!
# Solvers

A query is a set of constraints with an expression, and a solver decides whether the expression
holds wherever the constraints hold, computes a value of it there, or finds a counterexample. A
solver may fail, for instance because of a timeout. The solvers are stacked: each one answers some
requests itself and passes others on. `SolverImpl.Correct` is what every layer promises and what it
assumes of the layer below. An incomplete solver that gives up on some queries is staged before a
complete one.
-/

namespace CoverageVP.Klee

open Clover (BV SymArray Assignment bytesOf)
open Lib (Delivers Yields)
open Klee.Expr

/-! ## Queries -/

/-- Of a constant amount only 32 bits are regarded. -/
def Expr.AmountFits (e : Expr) : Prop := ∀ amount, e = constant amount → amount.toNat < 2 ^ 32

/-- Every shift is translated for the core solver as it is evaluated. An arithmetic shift that is too
far is translated to zero. -/
def Expr.ShiftsFit (σ : Assignment) : Expr → Prop
  | constant _ | read _ _ => True
  | concat left right | comparison _ left right => left.ShiftsFit σ ∧ right.ShiftsFit σ
  | extract expr _ _ | .not expr | zext expr _ | sext expr _ => expr.ShiftsFit σ
  | arithmetic kind left right => left.ShiftsFit σ ∧ right.ShiftsFit σ ∧
    match kind with
    | .Shl | .LShr => right.AmountFits
    | .AShr => right.AmountFits ∧ (right.bits σ left.getWidth).toNat < left.getWidth
    | _ => True

/-- The expression is evaluated to a constant, and the core solver takes it for what it is. -/
structure Expr.IsPlain (e : Expr) : Prop where
  wellTyped : e.WellTyped
  no_division : .division ∉ e.parts
  /-- The source holds sizes and indices in 32 bits. -/
  sizes : ∀ array ∈ e.findSymbolicObjects, array.size < 2 ^ 32
  shiftsFit : ∀ σ, e.ShiftsFit σ

def Expr.IsPlainCondition (e : Expr) : Prop := e.IsPlain ∧ e.getWidth = 1

structure Query where
  constraints : List Expr
  expr : Expr
  deriving DecidableEq, Repr

namespace Query

def withFalse (query : Query) : Query := { query with expr := constant (.ofBool false) }

def negateExpr (query : Query) : Query := { query with expr := createIsZero query.expr }

/-- The expression holds wherever the constraints hold. -/
def Valid (query : Query) : Prop := ∀ σ, AllHold σ query.constraints → query.expr.Holds σ

/-- The expression holds nowhere where the constraints hold. -/
def Refuted (query : Query) : Prop := ∀ σ, AllHold σ query.constraints → ¬ query.expr.Holds σ

def Satisfiable (query : Query) : Prop := ∃ σ, AllHold σ query.constraints

structure Admissible (query : Query) : Prop where
  constraints : ∀ c ∈ query.constraints, c.IsPlainCondition
  expr : query.expr.IsPlainCondition

/-- The values of the given arrays in a counterexample, or nothing if the query is valid. -/
def Solution (query : Query) (objects : List SymArray) :
    Option (List (List (BitVec 8))) → Prop
  | none => query.Valid
  | some values => ∃ σ, AllHold σ query.constraints ∧ ¬ query.expr.Holds σ ∧
      values = objects.map fun array ↦ bytesOf (σ array)

/-- A value that the expression takes where the constraints hold. -/
def HasValue (query : Query) (e : Expr) : Prop :=
  ∃ σ, AllHold σ query.constraints ∧ e = constant (query.expr.eval σ)

end Query

section Negation

variable {e : Expr} {query : Query}

theorem Expr.IsPlainCondition.isCondition (h : e.IsPlainCondition) : e.IsCondition := ⟨h.1.1, h.2⟩

theorem isPlainCondition_constant (b : Bool) : (constant (.ofBool b)).IsPlainCondition :=
  ⟨⟨Nat.one_pos, List.not_mem_nil, fun _ h ↦ absurd h List.not_mem_nil, fun _ ↦ trivial⟩, rfl⟩

theorem createIsZero_preserves (h : e.WellTyped) :
    Preserves (fun _ ↦ True) (createIsZero e) (Refines.isZero e) :=
  createIsZero_refines e (Refines.isCondition_isZero h).1

theorem holds_createIsZero (h : e.IsCondition) (σ : Assignment) :
    (createIsZero e).Holds σ ↔ ¬ e.Holds σ := by
  have hnot : ∀ x : BitVec 1, ~~~ x = 1#1 ↔ ¬ x = 1#1 := by decide
  rw [(createIsZero_preserves h.1).holds_iff rfl trivial, Holds, Refines.bits_isZero h.2]
  exact hnot _

theorem mem_parts_of_createIsZero (h : e.WellTyped) {part : Part}
    (hpart : part ∈ (createIsZero e).parts) : part ∈ e.parts := by
  have hmem := (createIsZero_preserves h).parts_subset part hpart
  have hcanonical : CmpKind.Eq.IsCanonical := trivial
  exact ((mem_parts_comparison hcanonical).mp hmem).resolve_right List.not_mem_nil

theorem mem_findSymbolicObjects_of_createIsZero (h : e.WellTyped) {array : SymArray}
    (harray : array ∈ (createIsZero e).findSymbolicObjects) : array ∈ e.findSymbolicObjects := by
  obtain ⟨index, hindex⟩ := mem_findSymbolicObjects.mp harray
  exact mem_findSymbolicObjects.mpr ⟨index, mem_parts_of_createIsZero h hindex⟩

section Shifts

variable {σ : Assignment} {l r : Expr}

theorem shiftsFit_and (hl : l.ShiftsFit σ) (hr : r.ShiftsFit σ) :
    (AndExpr.create l r).ShiftsFit σ := by
  have hpartialL {e : Expr} (cr : BV) (he : e.ShiftsFit σ) :
      (AndExpr.createPartial e cr).ShiftsFit σ := by
    rw [AndExpr.createPartial]
    split_ifs
    · exact he
    · exact trivial
    · exact ⟨he, trivial, trivial⟩
  rw [AndExpr.create, bcreateR.eq_def]
  split
  · exact trivial
  · exact hpartialL _ hr
  · exact hpartialL _ hl
  · exact ⟨hl, hr, trivial⟩

theorem shiftsFit_createPlain (hl : l.ShiftsFit σ) (hr : r.ShiftsFit σ) :
    (EqExpr.createPlain l r).ShiftsFit σ := by
  rw [EqExpr.createPlain]
  split_ifs
  · exact trivial
  · exact ⟨hl, hr⟩

theorem shiftsFit_unlessConstant {rest : Expr} {fold : BV → BV} (h : rest.ShiftsFit σ) :
    (unlessConstant e fold rest).ShiftsFit σ := by
  rw [unlessConstant.eq_def]
  split
  · exact trivial
  · exact h

theorem shiftsFit_createPartialR {cl : BV} (h : r.ShiftsFit σ) :
    (EqExpr.createPartialR cl r).ShiftsFit σ := by
  have hplain {cl : BV} {r : Expr} (h : r.ShiftsFit σ) :
      (EqExpr.createPlain (constant cl) r).ShiftsFit σ :=
    shiftsFit_createPlain trivial h
  induction cl, r using EqExpr.createPartialR.induct with
  | case1 r cl hwidth htrue =>
    rw [EqExpr.createPartialR.eq_def, if_pos hwidth, if_pos htrue]
    exact h
  | case2 cl hwidth htrue c right hc =>
    rw [EqExpr.createPartialR, if_pos hwidth, if_neg htrue, if_pos hc]
    exact h.2
  | case3 cl hwidth htrue c right hc =>
    rw [EqExpr.createPartialR, if_pos hwidth, if_neg htrue, if_neg hc]
    exact hplain h
  | case4 cl hwidth htrue left right zl zr ihl ihr =>
    rw [EqExpr.createPartialR, if_pos hwidth, if_neg htrue]
    exact shiftsFit_and (shiftsFit_unlessConstant (ihl h.1)) (shiftsFit_unlessConstant (ihr h.2.1))
  | case5 cl hwidth htrue r hEq hOr =>
    rw [EqExpr.createPartialR.eq_def, if_pos hwidth, if_neg htrue]
    split
    · exact absurd rfl (hEq _ _)
    · exact absurd rfl (hOr _ _)
    · exact hplain h
  | case6 cl hwidth src width trunc hcl ih =>
    rw [EqExpr.createPartialR, if_neg hwidth]
    dsimp only
    rw [if_pos hcl]
    exact shiftsFit_unlessConstant (ih h)
  | case7 cl hwidth src width trunc hcl =>
    rw [EqExpr.createPartialR, if_neg hwidth]
    dsimp only
    rw [if_neg hcl]
    exact trivial
  | case8 cl hwidth src width trunc hcl ih =>
    rw [EqExpr.createPartialR, if_neg hwidth]
    dsimp only
    rw [if_pos hcl]
    exact shiftsFit_unlessConstant (ih h)
  | case9 cl hwidth src width trunc hcl =>
    rw [EqExpr.createPartialR, if_neg hwidth]
    dsimp only
    rw [if_neg hcl]
    exact trivial
  | case10 cl hwidth c right ih =>
    rw [EqExpr.createPartialR, if_neg hwidth]
    exact ih h.2.1
  | case11 cl hwidth c right ih =>
    rw [EqExpr.createPartialR, if_neg hwidth]
    exact ih h.2.1
  | case12 cl hwidth r hsext hzext hadd hsub =>
    rw [EqExpr.createPartialR.eq_def, if_neg hwidth]
    split
    · exact absurd rfl (hsext _ _)
    · exact absurd rfl (hzext _ _)
    · exact absurd rfl (hadd _ _)
    · exact absurd rfl (hsub _ _)
    · exact hplain h

theorem shiftsFit_createIsZero (h : e.ShiftsFit σ) : (createIsZero e).ShiftsFit σ := by
  cases e with
  | constant a => exact trivial
  | _ => exact shiftsFit_createPartialR h

end Shifts

theorem Expr.IsPlainCondition.createIsZero (h : e.IsPlainCondition) :
    (createIsZero e).IsPlainCondition :=
  have hpreserves := createIsZero_preserves h.1.1
  ⟨⟨hpreserves.wellTyped, fun hpart ↦ h.1.no_division (mem_parts_of_createIsZero h.1.1 hpart),
    fun array harray ↦ h.1.sizes array (mem_findSymbolicObjects_of_createIsZero h.1.1 harray),
    fun σ ↦ shiftsFit_createIsZero (h.1.shiftsFit σ)⟩, hpreserves.getWidth_eq⟩

namespace Query

theorem Admissible.negateExpr (h : query.Admissible) : query.negateExpr.Admissible :=
  ⟨h.constraints, h.expr.createIsZero⟩

theorem Admissible.withFalse (h : query.Admissible) : query.withFalse.Admissible :=
  ⟨h.constraints, isPlainCondition_constant false⟩

theorem Admissible.conditions (h : query.Admissible) : Conditions query.constraints :=
  fun c hc ↦ (h.constraints c hc).isCondition

theorem valid_negateExpr (h : query.Admissible) : query.negateExpr.Valid ↔ query.Refuted :=
  forall_congr' fun σ ↦ imp_congr_right fun _ ↦ holds_createIsZero h.expr.isCondition σ

theorem refuted_negateExpr (h : query.Admissible) : query.negateExpr.Refuted ↔ query.Valid :=
  forall_congr' fun σ ↦ imp_congr_right fun _ ↦ by
    rw [Query.negateExpr, holds_createIsZero h.expr.isCondition, not_not]

theorem Satisfiable.not_refuted (h : query.Satisfiable) (hvalid : query.Valid) :
    ¬ query.Refuted := by
  intro hrefuted
  obtain ⟨σ, hσ⟩ := h
  exact hrefuted σ hσ (hvalid σ hσ)

end Query

end Negation

/-- The arrays that the expressions read, each of them once. -/
def findSymbolicObjects (es : List Expr) : List SymArray :=
  (es.flatMap Expr.findSymbolicObjects).eraseDups

theorem mem_findSymbolicObjects {es : List Expr} {array : SymArray} :
    array ∈ findSymbolicObjects es ↔ ∃ e ∈ es, array ∈ e.findSymbolicObjects := by
  rw [findSymbolicObjects, List.mem_eraseDups, List.mem_flatMap]

/-! ## Solvers -/

/-- Why a request is not answered. -/
inductive Failure
  | failed
  | stopped (stop : Stop)
  deriving DecidableEq, Repr

abbrev SolverM (S : Type) := EStateM Failure S

/-- An assertion of the source. -/
def assert {S : Type} (condition : Prop) [Decidable condition] : SolverM S Unit :=
  if condition then pure () else throw (.stopped .assertion)

inductive Validity
  | True | False | Unknown
  deriving DecidableEq, Repr

/-- What the validity of a query means. -/
def Query.HasValidity (query : Query) : Validity → Prop
  | .True => query.Valid
  | .False => query.Refuted
  | .Unknown => ¬ query.Valid ∧ ¬ query.Refuted

structure SolverImpl (S : Type) where
  computeTruth : Query → SolverM S Bool
  computeValidity : Query → SolverM S Validity
  computeValue : Query → SolverM S Expr
  computeInitialValues : Query → List SymArray → SolverM S (Option (List (List (BitVec 8))))

/-- The solver keeps its invariant, and it answers correctly or fails in one of the given ways. The
validity of an expression and its values are asked for only under constraints that can hold. -/
structure SolverImpl.Correct {S : Type} (impl : SolverImpl S) (Inv : S → Prop)
    (Fails : Failure → Prop) : Prop where
  computeTruth (query : Query) : query.Admissible → query.Satisfiable →
    Yields Inv Fails (impl.computeTruth query) fun isValid ↦ isValid = true ↔ query.Valid
  computeValidity (query : Query) : query.Admissible → query.Satisfiable →
    Yields Inv Fails (impl.computeValidity query) query.HasValidity
  computeValue (query : Query) : query.withFalse.Admissible → query.expr.IsPlain →
    query.Satisfiable → Yields Inv Fails (impl.computeValue query) query.HasValue
  computeInitialValues (query : Query) (objects : List SymArray) : query.Admissible →
    Yields Inv Fails (impl.computeInitialValues query objects) (query.Solution objects)

/-- `SolverImpl::computeValidity`, which is used where a solver has no own one. -/
def SolverImpl.validityOfTruth {S : Type} (computeTruth : Query → SolverM S Bool)
    (query : Query) : SolverM S Validity := do
  if ← computeTruth query then return .True
  if ← computeTruth query.negateExpr then return .False
  return .Unknown

theorem validityOfTruth_yields {S : Type} {Inv : S → Prop} {Fails : Failure → Prop}
    {computeTruth : Query → SolverM S Bool} {query : Query} (hadmissible : query.Admissible)
    (htruth : ∀ query, query.Admissible → query.Satisfiable →
      Yields Inv Fails (computeTruth query) fun isValid ↦ isValid = true ↔ query.Valid)
    (hsatisfiable : query.Satisfiable) :
    Yields Inv Fails (SolverImpl.validityOfTruth computeTruth query) query.HasValidity := by
  refine (htruth query hadmissible hsatisfiable).bind fun isTrue htrue ↦ ?_
  refine Yields.ite (fun h ↦ Yields.ret (htrue.mp h)) fun hnot ↦ ?_
  refine (htruth query.negateExpr hadmissible.negateExpr hsatisfiable).bind fun isFalse hfalse ↦ ?_
  rw [Query.valid_negateExpr hadmissible] at hfalse
  refine Yields.ite (fun h ↦ Yields.ret (hfalse.mp h)) fun hnot' ↦ Yields.ret ?_
  exact ⟨fun h ↦ hnot (htrue.mpr h), fun h ↦ hnot' (hfalse.mpr h)⟩

/-- A pure computation of which an assertion may fail. -/
def lift {S α : Type} : Except Stop α → SolverM S α
  | .ok a => pure a
  | .error stop => throw (.stopped stop)

theorem yields_lift {S α : Type} {Inv : S → Prop} {Fails : Failure → Prop} {x : Except Stop α}
    {Q : α → Prop} (h : Delivers (fun stop ↦ Fails (.stopped stop)) x Q) :
    Yields Inv Fails (lift x) Q := by
  cases x with
  | ok a => exact Yields.ret h
  | error stop => exact Yields.raise h

/-! ## Incomplete solvers -/

inductive PartialValidity
  | MustBeTrue | MustBeFalse | MayBeTrue | MayBeFalse | TrueOrFalse | None
  deriving DecidableEq, Repr

/-- What a partial validity of a query means. -/
def Query.HasPartialValidity (query : Query) : PartialValidity → Prop
  | .MustBeTrue => query.Valid
  | .MustBeFalse => query.Refuted
  | .MayBeTrue => ¬ query.Refuted
  | .MayBeFalse => ¬ query.Valid
  | .TrueOrFalse => ¬ query.Valid ∧ ¬ query.Refuted
  | .None => True

structure IncompleteSolver where
  computeTruth : Query → Except Stop PartialValidity
  computeValue : Query → Except Stop (Option Expr)
  /-- The outer option is the success of the attempt, and the inner one tells whether there is a
  solution. -/
  computeInitialValues : Query → List SymArray →
    Except Stop (Option (Option (List (List (BitVec 8)))))

namespace IncompleteSolver

def computeValidity (solver : IncompleteSolver) (query : Query) :
    Except Stop PartialValidity := do
  let trueResult ← solver.computeTruth query
  if trueResult = .MustBeTrue then return .MustBeTrue
  let falseResult ← solver.computeTruth query.negateExpr
  if falseResult = .MustBeTrue then return .MustBeFalse
  if trueResult ≠ .None ∧ falseResult ≠ .None then return .TrueOrFalse
  if trueResult ≠ .None then return .MayBeFalse
  if falseResult ≠ .None then return .MayBeTrue
  return .None

/-- The attempts that succeed are correct. A truth is proved or refuted by a counterexample. -/
structure Sound (solver : IncompleteSolver) (Fails : Failure → Prop) : Prop where
  computeTruth (query : Query) : query.Admissible → query.Satisfiable →
    Delivers (fun stop ↦ Fails (.stopped stop)) (solver.computeTruth query) fun result ↦
      query.HasPartialValidity result ∧ result ∈ [PartialValidity.MustBeTrue, .MayBeFalse, .None]
  computeValue (query : Query) : query.withFalse.Admissible → query.expr.IsPlain →
    query.Satisfiable → Delivers (fun stop ↦ Fails (.stopped stop)) (solver.computeValue query)
      fun result ↦ ∀ e ∈ result, query.HasValue e
  computeInitialValues (query : Query) (objects : List SymArray) : query.Admissible →
    Delivers (fun stop ↦ Fails (.stopped stop)) (solver.computeInitialValues query objects)
      fun result ↦ ∀ values ∈ result, query.Solution objects values

end IncompleteSolver

/-- A staged solver asks the primary one first. -/
def StagedSolverImpl {S : Type} (primary : IncompleteSolver) (secondary : SolverImpl S) :
    SolverImpl S where
  computeTruth query := do
    let trueResult ← lift (primary.computeTruth query)
    if trueResult ≠ .None then return trueResult = .MustBeTrue
    secondary.computeTruth query
  computeValidity query := do
    match ← lift (primary.computeValidity query) with
    | .MustBeTrue => return .True
    | .MustBeFalse => return .False
    | .TrueOrFalse => return .Unknown
    | .MayBeTrue => return if ← secondary.computeTruth query then .True else .Unknown
    | .MayBeFalse => return if ← secondary.computeTruth query.negateExpr then .False else .Unknown
    | .None => secondary.computeValidity query
  computeValue query := do
    match ← lift (primary.computeValue query) with
    | some result => return result
    | none => secondary.computeValue query
  computeInitialValues query objects := do
    match ← lift (primary.computeInitialValues query objects) with
    | some result => return result
    | none => secondary.computeInitialValues query objects

section Staged

variable {S : Type} {Inv : S → Prop} {Fails : Failure → Prop} {primary : IncompleteSolver}
  {secondary : SolverImpl S} {query : Query}

namespace IncompleteSolver

/-- A truth is proved, or refuted by a counterexample, or unknown. -/
theorem truth_cases {result : PartialValidity} (h : query.HasPartialValidity result ∧
    result ∈ [PartialValidity.MustBeTrue, .MayBeFalse, .None]) :
    result = .MustBeTrue ∧ query.Valid ∨ result = .MayBeFalse ∧ ¬ query.Valid ∨ result = .None := by
  obtain ⟨hmeaning, hmem⟩ := h
  simp only [List.mem_cons, List.not_mem_nil, or_false] at hmem
  rcases hmem with rfl | rfl | rfl
  · exact .inl ⟨rfl, hmeaning⟩
  · exact .inr (.inl ⟨rfl, hmeaning⟩)
  · exact .inr (.inr rfl)

/-- The truths of an expression and of its negation give a partial validity. -/
theorem Sound.computeValidity (h : primary.Sound Fails) (hadmissible : query.Admissible)
    (hsatisfiable : query.Satisfiable) :
    Delivers (fun stop ↦ Fails (.stopped stop)) (primary.computeValidity query)
      query.HasPartialValidity := by
  refine (h.computeTruth query hadmissible hsatisfiable).bind fun trueResult htrue ↦ ?_
  replace htrue := truth_cases htrue
  refine Delivers.ite (fun hmust ↦ ?_) fun hmust ↦ ?_
  · exact (htrue.resolve_right (by simp [hmust])).2
  refine (h.computeTruth query.negateExpr hadmissible.negateExpr hsatisfiable).bind
    fun falseResult hfalse ↦ ?_
  replace hfalse := truth_cases hfalse
  rw [Query.valid_negateExpr hadmissible] at hfalse
  refine Delivers.ite (fun hmust ↦ ?_) fun hmust' ↦ ?_
  · exact (hfalse.resolve_right (by simp [hmust])).2
  have hvalid (hknown : trueResult ≠ .None) : ¬ query.Valid :=
    ((htrue.resolve_left fun h ↦ hmust h.1).resolve_right hknown).2
  have hrefuted (hknown : falseResult ≠ .None) : ¬ query.Refuted :=
    ((hfalse.resolve_left fun h ↦ hmust' h.1).resolve_right hknown).2
  refine Delivers.ite (fun hboth ↦ ⟨hvalid hboth.1, hrefuted hboth.2⟩) fun _ ↦ ?_
  refine Delivers.ite hvalid fun _ ↦ ?_
  exact Delivers.ite hrefuted fun _ ↦ trivial

end IncompleteSolver

/-- A sound incomplete solver may be staged before a correct one. -/
theorem StagedSolverImpl.correct (hprimary : primary.Sound Fails)
    (hsecondary : secondary.Correct Inv Fails) :
    (StagedSolverImpl primary secondary).Correct Inv Fails where
  computeTruth query hadmissible hsatisfiable := by
    refine (yields_lift (hprimary.computeTruth query hadmissible hsatisfiable)).bind
      fun trueResult htrue ↦ ?_
    refine Yields.ite (fun hknown ↦ Yields.ret ?_) fun _ ↦
      hsecondary.computeTruth query hadmissible hsatisfiable
    rcases IncompleteSolver.truth_cases htrue with ⟨rfl, hvalid⟩ | ⟨rfl, hvalid⟩ | rfl
    · simp [hvalid]
    · simp [hvalid]
    · exact absurd rfl hknown
  computeValidity query hadmissible hsatisfiable := by
    refine (yields_lift (hprimary.computeValidity hadmissible hsatisfiable)).bind
      fun result hresult ↦ ?_
    cases result with
    | MustBeTrue => exact Yields.ret hresult
    | MustBeFalse => exact Yields.ret hresult
    | TrueOrFalse => exact Yields.ret hresult
    | None => exact hsecondary.computeValidity query hadmissible hsatisfiable
    | MayBeTrue =>
      refine (hsecondary.computeTruth query hadmissible hsatisfiable).bind fun isTrue htrue ↦
        Yields.ret ?_
      by_cases hvalid : query.Valid
      · rw [if_pos (htrue.mpr hvalid)]
        exact hvalid
      · rw [if_neg (htrue.not.mpr hvalid)]
        exact ⟨hvalid, hresult⟩
    | MayBeFalse =>
      refine (hsecondary.computeTruth query.negateExpr hadmissible.negateExpr hsatisfiable).bind
        fun isFalse hfalse ↦ Yields.ret ?_
      rw [Query.valid_negateExpr hadmissible] at hfalse
      by_cases hrefuted : query.Refuted
      · rw [if_pos (hfalse.mpr hrefuted)]
        exact hrefuted
      · rw [if_neg (hfalse.not.mpr hrefuted)]
        exact ⟨hresult, hrefuted⟩
  computeValue query hadmissible hplain hsatisfiable := by
    refine (yields_lift (hprimary.computeValue query hadmissible hplain hsatisfiable)).bind
      fun result hresult ↦ ?_
    cases result with
    | some e => exact Yields.ret (hresult e rfl)
    | none => exact hsecondary.computeValue query hadmissible hplain hsatisfiable
  computeInitialValues query objects hadmissible := by
    refine (yields_lift (hprimary.computeInitialValues query objects hadmissible)).bind
      fun result hresult ↦ ?_
    cases result with
    | some values => exact Yields.ret (hresult values rfl)
    | none => exact hsecondary.computeInitialValues query objects hadmissible

end Staged

end CoverageVP.Klee
