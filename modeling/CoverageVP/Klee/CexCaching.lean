import CoverageVP.Klee.MapOfSets
import CoverageVP.Klee.Solver

/-!
# The cache of counterexamples

The counterexample of a query is an assignment that satisfies the constraints and the negation of
the expression, the key of the query. The solver remembers for each key that was solved an
assignment, or that there is none. A key without a solution answers for all keys that contain it,
and a solution of a key for those it contains; a solution of another key is tried as well. So a
query may be answered by the solution of a different one.
-/

namespace CoverageVP.Klee

open Clover (BV SymArray Assignment Bindings)
open Lib (Yields Both below getOwn modifyOwn)
open Klee.Expr

/-- The options of the command line. The assignments are kept in the order of their addresses. -/
structure CexCacheOptions where
  tryAll : Bool
  superSet : Bool
  experimental : Bool
  assignmentLessThan : Bindings → Bindings → Bool

structure CexCache [LinearOrder Expr] where
  cache : MapOfSets Expr (Option Bindings)
  assignmentsTable : List Bindings

namespace CexCachingSolver

variable [LinearOrder Expr] {S : Type} (options : CexCacheOptions)

def satisfies (key : Finset Expr) (a : Bindings) : Bool :=
  match Bindings.satisfies a key.sort with
  | .ok holds => holds
  | .error _ => false

def nullOrSatisfyingAssignment (key : Finset Expr) : Option Bindings → Bool
  | none => true
  | some a => satisfies key a

/-- A cached result for a key: an assignment, or that there is none. -/
def searchForAssignment (own : CexCache) (key : Finset Expr) : Option (Option Bindings) :=
  match own.cache.lookup key with
  | some result => some result
  | none =>
    let superset := if options.superSet then own.cache.findSuperset Option.isSome key else none
    if options.tryAll then
      (superset.or (own.cache.findSubset Option.isNone key)).or
        ((own.assignmentsTable.find? (satisfies key)).map some)
    else superset.or (own.cache.findSubset (nullOrSatisfyingAssignment key) key)

/-- The key of a query with the cached result. -/
def lookupAssignment (own : CexCache) (query : Query) :
    Finset Expr × Option (Option Bindings) :=
  let constraints := query.constraints.toFinset
  match createIsZero query.expr with
  | constant a =>
    if ConstantExpr.isFalse a then (constraints, some none)
    else (constraints, searchForAssignment options own constraints)
  | neg =>
    (insert neg constraints, searchForAssignment options own (insert neg constraints))

/-- The table of all assignments is a set. -/
def memoize (table : List Bindings) (binding : Bindings) : List Bindings :=
  if binding ∈ table then table
  else table.takeWhile (options.assignmentLessThan · binding) ++
    binding :: table.dropWhile (options.assignmentLessThan · binding)

def getAssignment (solver : SolverImpl S) (query : Query) :
    SolverM (S × CexCache) (Option Bindings) := do
  let (key, found) := lookupAssignment options (← getOwn) query
  match found with
  | some result => return result
  | none =>
    let objects := findSymbolicObjects key.sort
    match ← below (solver.computeInitialValues query objects) with
    | some values =>
      let binding := objects.zip values
      modifyOwn fun own ↦
        { cache := own.cache.insert key (some binding)
          assignmentsTable := memoize options own.assignmentsTable binding }
      return some binding
    | none =>
      modifyOwn fun own ↦ { own with cache := own.cache.insert key none }
      return none

/-- The value of an expression under the assignment that the constraints must have. -/
def evaluateConstant {α : Type} (a : Option Bindings) (e : Expr) (f : Bindings → BV → SolverM S α) :
    SolverM S α := do
  match a with
  | none => throw (.stopped .assertion)
  | some a =>
    match ← lift (Bindings.evaluate a e) with
    | constant value => f a value
    | _ => throw (.stopped .assertion)

def computeTruth (solver : SolverImpl S) (query : Query) : SolverM (S × CexCache) Bool := do
  if options.experimental ∧ (lookupAssignment options (← getOwn) query.negateExpr).2 = some none then
    throw .failed
  return (← getAssignment options solver query).isNone

def computeValidity (solver : SolverImpl S) (query : Query) :
    SolverM (S × CexCache) Validity := do
  evaluateConstant (← getAssignment options solver query.withFalse) query.expr fun _ value ↦ do
    if ConstantExpr.isTrue value then
      return if (← getAssignment options solver query).isNone then .True else .Unknown
    else
      return if (← getAssignment options solver query.negateExpr).isNone then .False else .Unknown

def computeValue (solver : SolverImpl S) (query : Query) : SolverM (S × CexCache) Expr := do
  evaluateConstant (← getAssignment options solver query.withFalse) query.expr fun _ value ↦
    return constant value

def computeInitialValues (solver : SolverImpl S) (query : Query) (objects : List SymArray) :
    SolverM (S × CexCache) (Option (List (List (BitVec 8)))) :=
  return (← getAssignment options solver query).map fun a ↦ Bindings.valuesOf a objects

end CexCachingSolver

def CexCachingSolver [LinearOrder Expr] {S : Type} (options : CexCacheOptions)
    (solver : SolverImpl S) : SolverImpl (S × CexCache) where
  computeTruth := CexCachingSolver.computeTruth options solver
  computeValidity := CexCachingSolver.computeValidity options solver
  computeValue := CexCachingSolver.computeValue options solver
  computeInitialValues := CexCachingSolver.computeInitialValues options solver

/-! ## Keys -/

/-- The assignment solves the key. -/
def Solves (σ : Assignment) (key : Finset Expr) : Prop := ∀ e ∈ key, e.Holds σ

/-- What a result for a key means. -/
def KeyResult (key : Finset Expr) : Option Bindings → Prop
  | none => ∀ σ, ¬ Solves σ key
  | some a => Bindings.Complete a ∧ Solves (Bindings.assignment a) key

/-- A key without a solution answers for the larger ones. -/
theorem keyResult_none_of_subset {s key : Finset Expr} (h : KeyResult s none) (hsub : s ⊆ key) :
    KeyResult key none :=
  fun σ hσ ↦ h σ fun e he ↦ hσ e (hsub he)

/-- All results in the cache are right. -/
structure CexSound [LinearOrder Expr] (own : CexCache) : Prop where
  cache (key : Finset Expr) (result : Option Bindings) :
    own.cache.lookup key = some result → KeyResult key result
  assignmentsTable : ∀ a ∈ own.assignmentsTable, Bindings.Complete a

/-- The key stands for the constraints and the negated expression. -/
structure IsKey (query : Query) (key : Finset Expr) : Prop where
  plain : ∀ e ∈ key, e.IsPlainCondition
  solves_iff : ∀ σ, Solves σ key ↔ AllHold σ query.constraints ∧ ¬ query.expr.Holds σ

namespace CexCachingSolver

variable [LinearOrder Expr] {S : Type} {options : CexCacheOptions} {own : CexCache}
  {key : Finset Expr}

theorem solves_of_satisfies (hplain : ∀ e ∈ key, e.IsPlainCondition) {a : Bindings}
    (h : satisfies key a = true) : Solves (Bindings.assignment a) key := by
  have hmem (e : Expr) : e ∈ key.sort ↔ e ∈ key := Finset.mem_sort _
  have hconditions : Conditions key.sort :=
    fun e he ↦ (hplain e ((hmem e).mp he)).isCondition
  have hdivision : ¬ Occurs key.sort .division := by
    rintro ⟨e, he, hpart⟩
    exact (hplain e ((hmem e).mp he)).1.no_division hpart
  have hsatisfies := satisfies_eq a hconditions hdivision
  rw [CexCachingSolver.satisfies, hsatisfies] at h
  exact fun e he ↦ of_decide_eq_true h e ((hmem e).mpr he)

theorem searchForAssignment_sound (hown : CexSound own)
    (hplain : ∀ e ∈ key, e.IsPlainCondition) {result : Option Bindings}
    (h : searchForAssignment options own key = some result) : KeyResult key result := by
  have hsuperset {result : Option Bindings}
      (h : (if options.superSet then own.cache.findSuperset Option.isSome key else none) =
        some result) : KeyResult key result := by
    split_ifs at h
    obtain ⟨s, hsub, hlookup, hsome⟩ := MapOfSets.findSuperset_sound h
    obtain ⟨a, rfl⟩ := Option.isSome_iff_exists.mp hsome
    obtain ⟨hcomplete, hsolves⟩ := hown.cache s _ hlookup
    exact ⟨hcomplete, fun e he ↦ hsolves e (hsub he)⟩
  rw [searchForAssignment] at h
  cases hlookup : own.cache.lookup key with
  | some found =>
    rw [hlookup] at h
    exact Option.some.inj h ▸ hown.cache key found hlookup
  | none =>
    rw [hlookup] at h
    dsimp only at h
    by_cases htryAll : options.tryAll = true
    · rw [if_pos htryAll] at h
      rcases Option.or_eq_some_iff.mp h with h | ⟨-, h⟩
      · rcases Option.or_eq_some_iff.mp h with h | ⟨-, h⟩
        · exact hsuperset h
        · obtain ⟨s, hsub, hlookup, hnone⟩ := MapOfSets.findSubset_sound h
          obtain rfl := Option.isNone_iff_eq_none.mp hnone
          exact keyResult_none_of_subset (hown.cache s none hlookup) hsub
      · obtain ⟨a, hfind, rfl⟩ := Option.map_eq_some_iff.mp h
        exact ⟨hown.assignmentsTable a (List.mem_of_find?_eq_some hfind),
          solves_of_satisfies hplain (List.find?_some hfind)⟩
    · rw [if_neg htryAll] at h
      rcases Option.or_eq_some_iff.mp h with h | ⟨-, h⟩
      · exact hsuperset h
      · obtain ⟨s, hsub, hlookup, hp⟩ := MapOfSets.findSubset_sound h
        cases result with
        | none => exact keyResult_none_of_subset (hown.cache s none hlookup) hsub
        | some a => exact ⟨(hown.cache s _ hlookup).1, solves_of_satisfies hplain hp⟩

/-- The key of a query and its result. -/
theorem lookupAssignment_spec (options : CexCacheOptions) (hown : CexSound own) {query : Query}
    (hadmissible : query.Admissible) :
    (∃ key, IsKey query key ∧ (lookupAssignment options own query).1 = key ∧
      ∀ result, (lookupAssignment options own query).2 = some result → KeyResult key result) ∨
    (lookupAssignment options own query).2 = some none ∧ query.Valid := by
  have hneg := hadmissible.expr.createIsZero
  have hholds := holds_createIsZero hadmissible.expr.isCondition
  have hconstraints (hzero : ∀ σ, ¬ query.expr.Holds σ) :
      IsKey query query.constraints.toFinset := by
    refine ⟨fun e he ↦ hadmissible.constraints e (List.mem_toFinset.mp he), fun σ ↦ ?_⟩
    rw [and_iff_left (hzero σ)]
    exact forall_congr' fun e ↦ imp_congr_left List.mem_toFinset
  have hinsert : IsKey query (insert (createIsZero query.expr) query.constraints.toFinset) := by
    refine ⟨fun e he ↦ ?_, fun σ ↦ ?_⟩
    · rcases Finset.mem_insert.mp he with rfl | he
      · exact hneg
      · exact hadmissible.constraints e (List.mem_toFinset.mp he)
    · rw [← hholds σ, and_comm]
      exact (Finset.forall_mem_insert _ _ _).trans
        (and_congr_right fun _ ↦ forall_congr' fun e ↦ imp_congr_left List.mem_toFinset)
  have hsearch {key : Finset Expr} (hkey : IsKey query key) (result : Option Bindings)
      (h : searchForAssignment options own key = some result) : KeyResult key result :=
    searchForAssignment_sound hown hkey.plain h
  cases hexpr : createIsZero query.expr with
  | constant a =>
    rw [hexpr] at hneg hholds
    rw [lookupAssignment, hexpr]
    dsimp only
    rcases ConstantExpr.isTrue_or_isFalse hneg.2 with rfl | rfl
    · have hkey := hconstraints fun σ ↦ (hholds σ).mp rfl
      exact .inl ⟨_, hkey, rfl, hsearch hkey⟩
    · refine .inr ⟨rfl, fun σ _ ↦ not_not.mp fun h ↦ ?_⟩
      exact ConstraintManager.not_holds_false σ ((hholds σ).mpr h)
  | _ =>
    rw [hexpr] at hinsert
    rw [lookupAssignment, hexpr]
    exact .inl ⟨_, hinsert, rfl, hsearch hinsert⟩

/-- A counterexample of the query, if there is one. -/
def IsAnswer (query : Query) : Option Bindings → Prop
  | none => query.Valid
  | some a => Bindings.Complete a ∧ AllHold (Bindings.assignment a) query.constraints ∧
      ¬ query.expr.Holds (Bindings.assignment a)

omit [LinearOrder Expr] in
theorem isAnswer_of_keyResult {query : Query} (hkey : IsKey query key)
    {result : Option Bindings} (h : KeyResult key result) : IsAnswer query result := by
  cases result with
  | none =>
    exact fun σ hσ ↦ not_not.mp fun hexpr ↦ h σ ((hkey.solves_iff σ).mpr ⟨hσ, hexpr⟩)
  | some a => exact ⟨h.1, (hkey.solves_iff _).mp h.2⟩

/-- A solution of the solver below is a result for the key. -/
theorem keyResult_of_solution {query : Query} (hkey : IsKey query key)
    {values : Option (List (List (BitVec 8)))}
    (h : query.Solution (findSymbolicObjects key.sort) values) :
    KeyResult key (values.map fun values ↦ (findSymbolicObjects key.sort).zip values) := by
  cases values with
  | none =>
    intro σ hσ
    obtain ⟨hall, hexpr⟩ := (hkey.solves_iff σ).mp hσ
    exact hexpr (h σ hall)
  | some values =>
    obtain ⟨σ, hall, hexpr, rfl⟩ := h
    refine ⟨Bindings.complete_zip _ σ, fun e he ↦ ?_⟩
    refine (holds_congr fun array harray ↦ ?_).mpr ((hkey.solves_iff σ).mpr ⟨hall, hexpr⟩ e he)
    exact Bindings.assignment_zip
      (mem_findSymbolicObjects.mpr ⟨e, (Finset.mem_sort _).mpr he, harray⟩) σ

theorem cexSound_empty : CexSound ⟨.empty, []⟩ := by
  refine ⟨fun key result hlookup ↦ ?_, fun a ha ↦ absurd ha List.not_mem_nil⟩
  rw [MapOfSets.lookup_empty] at hlookup
  cases hlookup

theorem cexSound_insert (hown : CexSound own) {result : Option Bindings}
    (h : KeyResult key result) {table : List Bindings} (htable : ∀ a ∈ table, Bindings.Complete a) :
    CexSound { cache := own.cache.insert key result, assignmentsTable := table } := by
  refine ⟨fun s found hfound ↦ ?_, htable⟩
  rw [MapOfSets.lookup_insert] at hfound
  split_ifs at hfound with hs
  · exact hs ▸ Option.some.inj hfound ▸ h
  · exact hown.cache s found hfound

omit [LinearOrder Expr] in
theorem mem_of_mem_memoize {table : List Bindings} {a binding : Bindings}
    (h : a ∈ memoize options table binding) : a = binding ∨ a ∈ table := by
  rw [memoize] at h
  split_ifs at h
  · exact .inr h
  · rcases List.mem_append.mp h with h | h
    · exact .inr ((List.takeWhile_sublist _).subset h)
    · exact (List.mem_cons.mp h).imp_right fun h ↦ (List.dropWhile_sublist _).subset h

section Yields

variable {Inv : S → Prop} {Fails : Failure → Prop} {solver : SolverImpl S} {query : Query}

theorem getAssignment_yields (hsolver : solver.Correct Inv Fails)
    (hadmissible : query.Admissible) :
    Yields (Both Inv CexSound) Fails (getAssignment options solver query) (IsAnswer query) := by
  refine Yields.getOwn.bind fun own hown ↦ ?_
  rcases lookupAssignment_spec options hown hadmissible with
    ⟨key, hkey, hfst, hresult⟩ | ⟨hsnd, hvalid⟩
  · cases hlookup : lookupAssignment options own query with
    | mk key' found =>
      rw [hlookup] at hfst hresult
      obtain rfl : key' = key := hfst
      cases found with
      | some result => exact Yields.ret (isAnswer_of_keyResult hkey (hresult result rfl))
      | none =>
        have hask := hsolver.computeInitialValues query (findSymbolicObjects key'.sort) hadmissible
        refine hask.below.bind fun values hvalues ↦ ?_
        have hkeyResult := keyResult_of_solution hkey hvalues
        have hanswer := isAnswer_of_keyResult hkey hkeyResult
        cases values with
        | some values =>
          refine (Yields.modifyOwn fun own hown ↦ ?_).bind fun _ _ ↦ Yields.ret hanswer
          refine cexSound_insert hown hkeyResult fun a ha ↦ ?_
          rcases mem_of_mem_memoize ha with rfl | ha
          · exact hkeyResult.1
          · exact hown.assignmentsTable a ha
        | none =>
          refine (Yields.modifyOwn fun own hown ↦ ?_).bind fun _ _ ↦ Yields.ret hanswer
          exact cexSound_insert hown hkeyResult hown.assignmentsTable
  · cases hlookup : lookupAssignment options own query with
    | mk key found =>
      rw [hlookup] at hsnd
      obtain rfl : found = some none := hsnd
      exact Yields.ret hvalid

/-- Satisfiable constraints have an assignment, and an expression has its value there. -/
theorem evaluateConstant_yields {α : Type} {Q : α → Prop} {a : Option Bindings}
    (ha : IsAnswer query.withFalse a) (hsatisfiable : query.Satisfiable)
    (hplain : query.expr.IsPlain) {f : Bindings → BV → SolverM (S × CexCache) α}
    (hf : ∀ a, AllHold (Bindings.assignment a) query.constraints →
      Yields (Both Inv CexSound) Fails (f a (query.expr.eval (Bindings.assignment a))) Q) :
    Yields (Both Inv CexSound) Fails (evaluateConstant a query.expr f) Q := by
  cases a with
  | none =>
    obtain ⟨σ, hσ⟩ := hsatisfiable
    exact absurd (ha σ hσ) (ConstraintManager.not_holds_false σ)
  | some a =>
    rw [evaluateConstant, evaluate_eq hplain.wellTyped hplain.no_division]
    exact hf a ha.2.1

omit [LinearOrder Expr] in
theorem isNone_iff {a : Option Bindings} (h : IsAnswer query a) : a.isNone = true ↔ query.Valid := by
  cases a with
  | none => exact iff_of_true rfl h
  | some a => exact iff_of_false Bool.false_ne_true fun hvalid ↦ h.2.2 (hvalid _ h.2.1)

theorem computeTruth_yields (hsolver : solver.Correct Inv Fails)
    (hfails : options.experimental = true → Fails .failed) (hadmissible : query.Admissible) :
    Yields (Both Inv CexSound) Fails (computeTruth options solver query) fun isValid ↦
      isValid = true ↔ query.Valid := by
  refine Yields.getOwn.bind fun own _ ↦ Yields.ite (fun h ↦ Yields.raise (hfails h.1)) fun _ ↦ ?_
  exact (getAssignment_yields hsolver hadmissible).bind fun a ha ↦ Yields.ret (isNone_iff ha)

theorem computeValidity_yields (hsolver : solver.Correct Inv Fails)
    (hadmissible : query.Admissible) (hsatisfiable : query.Satisfiable) :
    Yields (Both Inv CexSound) Fails (computeValidity options solver query) query.HasValidity := by
  have hask {query : Query} (hadmissible : query.Admissible) :
      Yields (Both Inv CexSound) Fails (getAssignment options solver query) (IsAnswer query) :=
    getAssignment_yields hsolver hadmissible
  refine (hask hadmissible.withFalse).bind fun a ha ↦
    evaluateConstant_yields ha hsatisfiable hadmissible.expr.1 fun a hall ↦ ?_
  have hiff := isTrue_eval_iff hadmissible.expr.2 (Bindings.assignment a)
  refine Yields.ite (fun htrue ↦ ?_) fun hfalse ↦ ?_
  · refine (hask hadmissible).bind fun b hb ↦ Yields.ret ?_
    by_cases hvalid : query.Valid
    · rw [if_pos ((isNone_iff hb).mpr hvalid)]
      exact hvalid
    · rw [if_neg ((isNone_iff hb).not.mpr hvalid)]
      exact ⟨hvalid, fun h ↦ h _ hall (hiff.mp htrue)⟩
  · refine (hask hadmissible.negateExpr).bind fun b hb ↦ Yields.ret ?_
    have hnone := isNone_iff hb
    rw [Query.valid_negateExpr hadmissible] at hnone
    by_cases hrefuted : query.Refuted
    · rw [if_pos (hnone.mpr hrefuted)]
      exact hrefuted
    · rw [if_neg (hnone.not.mpr hrefuted)]
      exact ⟨fun h ↦ hfalse (hiff.mpr (h _ hall)), hrefuted⟩

/-- The cache of counterexamples never changes an answer, whatever it was asked before. -/
theorem correct (hsolver : solver.Correct Inv Fails)
    (hfails : options.experimental = true → Fails .failed) :
    (CexCachingSolver options solver).Correct (Both Inv CexSound) Fails where
  computeTruth _ hadmissible _ := computeTruth_yields hsolver hfails hadmissible
  computeValidity _ hadmissible hsatisfiable :=
    computeValidity_yields hsolver hadmissible hsatisfiable
  computeValue query hadmissible hplain hsatisfiable := by
    refine (getAssignment_yields hsolver hadmissible).bind fun a ha ↦
      evaluateConstant_yields ha hsatisfiable hplain fun a hall ↦ Yields.ret ?_
    exact ⟨_, hall, rfl⟩
  computeInitialValues query objects hadmissible := by
    refine (getAssignment_yields hsolver hadmissible).bind fun a ha ↦ Yields.ret ?_
    cases a with
    | none => exact ha
    | some a => exact ⟨_, ha.2.1, ha.2.2, Bindings.valuesOf_eq ha.1 objects⟩

end Yields

end CexCachingSolver

end CoverageVP.Klee
