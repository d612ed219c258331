import CoverageVP.Klee.Z3Builder

/-!
# The core solver

Z3 is asked whether the constraints and the negation of the expression can hold together. What it
answers is a parameter; it may give up, and it may have a state of its own on which this depends.
The values of the arrays are read off its model byte by byte.
-/

namespace CoverageVP.Klee

open Clover (BV SymArray Assignment Bindings bytesOf)
open Lib (Delivers Yields SmtTerm SmtModel)
open Klee.Expr

inductive CheckResult
  | satisfiable (model : SmtModel SymArray)
  | unsatisfiable
  | undef (reason : String)

/-- The check of a list of formulas by Z3. -/
abbrev SolverCheck (S : Type) := List (SmtTerm SymArray .bool) → S → CheckResult × S

namespace Z3Solver

variable {S : Type} (check : SolverCheck S)

/-- Only a formula can be asserted. -/
def asFormula : Z3ASTHandle → Except Abort (SmtTerm SymArray .bool)
  | ⟨.bool, t⟩ => return t
  | ⟨.bv _, _⟩ => throw .abort

def constructAll : List Expr → Except Abort (List (SmtTerm SymArray .bool))
  | [] => return []
  | c :: rest => do
    let formula ← asFormula (← Z3Builder.construct c)
    return formula :: (← constructAll rest)

/-- A counterexample is asked for. -/
def constructNegated (e : Expr) : Except Abort (SmtTerm SymArray .bool) := do
  asFormula (← Z3.mkNot (← Z3Builder.construct e))

/-- What is asserted for a query. -/
def assertions (query : Query) : Except Abort (List (SmtTerm SymArray .bool)) := do
  let constraints ← constructAll query.constraints
  let negated ← constructNegated query.expr
  return constraints ++ [negated]

/-- The values that a model gives to an array. -/
def arrayData (model : SmtModel SymArray) (array : SymArray) : List (BitVec 8) :=
  (List.range array.size).map fun offset ↦ model array (BitVec.ofNat 32 offset)

/-- Nothing is returned if there is no solution. -/
def handleSolverResponse (objects : List SymArray) :
    CheckResult → SolverM S (Option (List (List (BitVec 8))))
  | .satisfiable model => return some (objects.map (arrayData model))
  | .unsatisfiable => return none
  | .undef reason =>
    if reason ∈ ["timeout", "canceled", "(resource limits reached)", "unknown"] then throw .failed
    else throw (.stopped .assertion)

def solverCheck (formulas : List (SmtTerm SymArray .bool)) : SolverM S CheckResult :=
  fun s ↦ .ok (check formulas s).1 (check formulas s).2

def internalRunSolver (query : Query) (objects : List SymArray) :
    SolverM S (Option (List (List (BitVec 8)))) := do
  match assertions query with
  | .ok formulas => handleSolverResponse objects (← solverCheck check formulas)
  | .error .abort => throw (.stopped .assertion)

/-- The values are not asked for. -/
def computeTruth (query : Query) : SolverM S Bool :=
  return (← internalRunSolver check query []).isNone

def computeValue (query : Query) : SolverM S Expr := do
  let objects := findSymbolicObjects [query.expr]
  match ← internalRunSolver check query.withFalse objects with
  | none => throw (.stopped .assertion)
  | some values => lift (Bindings.evaluate (objects.zip values) query.expr)

end Z3Solver

def Z3Solver {S : Type} (check : SolverCheck S) : SolverImpl S where
  computeTruth := Z3Solver.computeTruth check
  computeValidity := SolverImpl.validityOfTruth (Z3Solver.computeTruth check)
  computeValue := Z3Solver.computeValue check
  computeInitialValues := Z3Solver.internalRunSolver check

/-! ## Correctness -/

/-- What Z3 promises: a model satisfies all formulas, and without one no model does. -/
structure SolverCheck.Sound {S : Type} (check : SolverCheck S) : Prop where
  satisfiable (formulas : List (SmtTerm SymArray .bool)) (s : S) (model : SmtModel SymArray) :
    (check formulas s).1 = .satisfiable model → ∀ formula ∈ formulas, formula.Holds model
  unsatisfiable (formulas : List (SmtTerm SymArray .bool)) (s : S) :
    (check formulas s).1 = .unsatisfiable →
      ∀ model, ∃ formula ∈ formulas, ¬ formula.Holds model

/-- There are formulas that are not decided. -/
def SolverCheck.GivesUp {S : Type} (check : SolverCheck S) : Prop :=
  ∃ formulas s reason, (check formulas s).1 = .undef reason

open Classical in
/-- A check that always decides. -/
noncomputable def SolverCheck.deciding : SolverCheck Unit := fun formulas s ↦
  (if h : ∃ M : SmtModel SymArray, ∀ formula ∈ formulas, formula.Holds M then .satisfiable h.choose
    else .unsatisfiable, s)

theorem SolverCheck.deciding_sound : SolverCheck.deciding.Sound where
  satisfiable formulas s M h := by
    by_cases hM : ∃ M : SmtModel SymArray, ∀ formula ∈ formulas, formula.Holds M
    · rw [deciding, dif_pos hM] at h
      obtain rfl : hM.choose = M := CheckResult.satisfiable.inj h
      exact hM.choose_spec
    · rw [deciding, dif_neg hM] at h
      cases h
  unsatisfiable formulas s h M := by
    by_cases hM : ∃ M : SmtModel SymArray, ∀ formula ∈ formulas, formula.Holds M
    · rw [deciding, dif_pos hM] at h
      cases h
    · by_contra hall
      exact hM ⟨M, fun formula hmem ↦ not_not.mp fun hnot ↦ hall ⟨formula, hmem, hnot⟩⟩

namespace Z3Solver

/-- The program ends, or the core solver gives up, which it does only if Z3 gives up on some
formulas. -/
def Fails {S : Type} (check : SolverCheck S) (e : Failure) : Prop :=
  e = .stopped .assertion ∨ e = .failed ∧ check.GivesUp

section Formulas

variable {M : SmtModel SymArray} {σ : Assignment} {e : Expr} {cs : List Expr} {query : Query}

/-- The formula holds in every model that agrees with an assignment under which the expression
holds. -/
def Expresses (t : SmtTerm SymArray .bool) (e : Expr) : Prop :=
  ∀ M σ, Z3Builder.Models M σ e → (t.Holds M ↔ e.Holds σ)

theorem asFormula_delivers (he : e.IsPlainCondition) (t : Z3ASTHandle)
    (ht : Z3Builder.construct e = .ok t) :
    Delivers (fun _ ↦ True) (asFormula t) (Expresses · e) := by
  obtain ⟨s, u⟩ := t
  cases s with
  | bv w => exact trivial
  | bool =>
    intro M σ hM
    have hcodes := Z3Builder.construct_codes hM he.1.wellTyped (he.1.shiftsFit σ)
    rw [ht] at hcodes
    rcases hcodes with ⟨⟨v, hv, -⟩, -⟩ | ⟨-, v, hv, hvalue⟩
    · cases hv
    · cases hv
      rw [SmtTerm.Holds, hvalue, decide_eq_true_iff]

theorem constructAll_delivers (h : ∀ c ∈ cs, c.IsPlainCondition) :
    Delivers (fun _ ↦ True) (constructAll cs) (List.Forall₂ Expresses · cs) := by
  induction cs with
  | nil => exact .nil
  | cons c rest ih =>
    obtain ⟨hc, hrest⟩ := List.forall_mem_cons.mp h
    cases hconstruct : Z3Builder.construct c with
    | error stop =>
      rw [constructAll, hconstruct]
      exact trivial
    | ok t =>
      rw [constructAll, hconstruct]
      refine (asFormula_delivers hc t hconstruct).bind fun formula hformula ↦ ?_
      exact (ih hrest).bind fun formulas hformulas ↦ Delivers.ret (.cons hformula hformulas)

theorem forall_holds_iff {formulas : List (SmtTerm SymArray .bool)}
    (h : List.Forall₂ Expresses formulas cs) (hM : ∀ c ∈ cs, Z3Builder.Models M σ c) :
    (∀ formula ∈ formulas, formula.Holds M) ↔ AllHold σ cs := by
  induction h with
  | nil => exact iff_of_true (fun _ h ↦ absurd h List.not_mem_nil) fun _ h ↦ absurd h List.not_mem_nil
  | cons hhead _ ih =>
    obtain ⟨hc, hrest⟩ := List.forall_mem_cons.mp hM
    rw [AllHold, List.forall_mem_cons, List.forall_mem_cons, hhead M σ hc, ih hrest]
    rfl

theorem constructNegated_delivers (he : e.IsPlainCondition) :
    Delivers (fun _ ↦ True) (constructNegated e)
      fun t ↦ ∀ M σ, Z3Builder.Models M σ e → (t.Holds M ↔ ¬ e.Holds σ) := by
  rw [constructNegated]
  cases hconstruct : Z3Builder.construct e with
  | error stop => exact trivial
  | ok t =>
    obtain ⟨s, u⟩ := t
    cases s with
    | bv w => exact trivial
    | bool =>
      have hexpresses : Expresses u e := asFormula_delivers he _ hconstruct
      intro M σ hM
      rw [← hexpresses M σ hM, SmtTerm.Holds, SmtTerm.Holds, SmtTerm.value, Bool.not_eq_true']
      exact (Bool.not_eq_true _).to_iff.symm

/-- The assertions hold together in a model of a counterexample. -/
theorem assertions_delivers (h : query.Admissible) :
    Delivers (fun _ ↦ True) (assertions query) fun formulas ↦ ∀ M σ,
      (∀ c ∈ query.constraints, Z3Builder.Models M σ c) → Z3Builder.Models M σ query.expr →
      ((∀ formula ∈ formulas, formula.Holds M) ↔
        AllHold σ query.constraints ∧ ¬ query.expr.Holds σ) := by
  refine (constructAll_delivers h.constraints).bind fun formulas hformulas ↦ ?_
  refine (constructNegated_delivers h.expr).bind fun negated hnegated ↦ Delivers.ret ?_
  intro M σ hM hexpr
  rw [List.forall_mem_append, List.forall_mem_singleton, forall_holds_iff hformulas hM,
    hnegated M σ hexpr]

/-- The values that a model gives to the arrays. -/
def assignmentOf (M : SmtModel SymArray) : Assignment :=
  fun array ↦ Lib.Bytes.word (fun index ↦ M array (BitVec.ofNat 32 index)) (8 * array.size) 0

theorem byte_assignmentOf (M : SmtModel SymArray) (array : SymArray) {index : Nat}
    (h : index < array.size) :
    M array (BitVec.ofNat 32 index) = (assignmentOf M array).extractLsb' (8 * index) 8 :=
  (extract_word (fun index ↦ M array (BitVec.ofNat 32 index)) h).symm

theorem models_assignmentOf (M : SmtModel SymArray) (e : Expr) :
    Z3Builder.Models M (assignmentOf M) e :=
  fun array _ _ hindex ↦ byte_assignmentOf M array hindex

theorem arrayData_eq (M : SmtModel SymArray) (array : SymArray) :
    arrayData M array = bytesOf (assignmentOf M array) :=
  List.map_congr_left fun _ hindex ↦ byte_assignmentOf M array (List.mem_range.mp hindex)

/-- A model with the values of an assignment. -/
def modelOf (σ : Assignment) : SmtModel SymArray :=
  fun array index ↦ (σ array).extractLsb' (8 * index.toNat) 8

theorem models_modelOf (he : e.IsPlain) : Z3Builder.Models (modelOf σ) σ e := by
  intro array harray index hindex
  rw [modelOf, BitVec.toNat_ofNat, Nat.mod_eq_of_lt (hindex.trans (he.sizes array harray))]

end Formulas

section Yields

variable {S : Type} {check : SolverCheck S} {query : Query}

theorem internalRunSolver_yields (hcheck : check.Sound) (h : query.Admissible)
    (objects : List SymArray) :
    Yields (fun _ ↦ True) (Fails check) (internalRunSolver check query objects)
      (query.Solution objects) := by
  have hassertions := assertions_delivers h
  rw [internalRunSolver]
  cases hformulas : assertions query with
  | error stop => exact Yields.raise (.inl rfl)
  | ok formulas =>
    rw [hformulas] at hassertions
    have hanswer : Yields (fun _ ↦ True) (Fails check) (solverCheck check formulas) fun result ↦
        ∃ s, (check formulas s).1 = result := fun s _ ↦ ⟨trivial, s, rfl⟩
    refine hanswer.bind fun result hresult ↦ ?_
    obtain ⟨s, hs⟩ := hresult
    cases result with
    | satisfiable M =>
      have hall := hcheck.satisfiable formulas s M hs
      have hsolves := (hassertions M (assignmentOf M) (fun c _ ↦ models_assignmentOf M c)
        (models_assignmentOf M query.expr)).mp hall
      refine Yields.ret ⟨assignmentOf M, hsolves.1, hsolves.2, ?_⟩
      exact List.map_congr_left fun array _ ↦ arrayData_eq M array
    | unsatisfiable =>
      refine Yields.ret fun σ hσ ↦ not_not.mp fun hexpr ↦ ?_
      obtain ⟨formula, hmem, hnot⟩ := hcheck.unsatisfiable formulas s hs (modelOf σ)
      refine hnot ((hassertions (modelOf σ) σ (fun c hc ↦ models_modelOf (h.constraints c hc).1)
        (models_modelOf h.expr.1)).mpr ⟨hσ, hexpr⟩ formula hmem)
    | undef reason =>
      exact Yields.ite (fun _ ↦ Yields.raise (.inr ⟨rfl, formulas, s, reason, hs⟩)) fun _ ↦
        Yields.raise (.inl rfl)

theorem computeTruth_yields (hcheck : check.Sound) (h : query.Admissible) :
    Yields (fun _ ↦ True) (Fails check) (computeTruth check query)
      fun isValid ↦ isValid = true ↔ query.Valid := by
  refine (internalRunSolver_yields hcheck h []).bind fun values hvalues ↦ Yields.ret ?_
  cases values with
  | none => exact iff_of_true rfl hvalues
  | some values =>
    obtain ⟨σ, hσ, hexpr, -⟩ := hvalues
    exact iff_of_false Bool.false_ne_true fun hvalid ↦ hexpr (hvalid σ hσ)

theorem computeValue_yields (hcheck : check.Sound) (h : query.withFalse.Admissible)
    (hplain : query.expr.IsPlain) (hsatisfiable : query.Satisfiable) :
    Yields (fun _ ↦ True) (Fails check) (computeValue check query) query.HasValue := by
  refine (internalRunSolver_yields hcheck h _).bind fun values hvalues ↦ ?_
  cases values with
  | none =>
    obtain ⟨σ, hσ⟩ := hsatisfiable
    exact absurd (hvalues σ hσ) (ConstraintManager.not_holds_false σ)
  | some values =>
    obtain ⟨σ, hσ, -, rfl⟩ := hvalues
    dsimp only
    rw [evaluate_eq hplain.wellTyped hplain.no_division]
    refine Yields.ret ⟨σ, hσ, congrArg constant (congrArg (BV.mk _) ?_)⟩
    refine bits_congr (fun array harray ↦ Bindings.assignment_zip ?_ σ) _
    exact mem_findSymbolicObjects.mpr ⟨_, List.mem_singleton_self _, harray⟩

/-- With a sound Z3 the core solver answers every admissible query correctly, or it gives up. -/
theorem correct (hcheck : check.Sound) : (Z3Solver check).Correct (fun _ ↦ True) (Fails check) where
  computeTruth _ h _ := computeTruth_yields hcheck h
  computeValidity _ h hsatisfiable :=
    validityOfTruth_yields h (fun _ h _ ↦ computeTruth_yields hcheck h) hsatisfiable
  computeValue _ := computeValue_yields hcheck
  computeInitialValues _ objects h := internalRunSolver_yields hcheck h objects

end Yields

end Z3Solver

end CoverageVP.Klee
