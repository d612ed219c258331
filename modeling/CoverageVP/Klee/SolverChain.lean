import CoverageVP.Klee.Caching
import CoverageVP.Klee.CexCaching
import CoverageVP.Klee.Independent

/-!
# The solver of the engine

The engine puts an incomplete solver, a cache of counterexamples, a cache of validities and the
splitting into independent constraints on top of a core solver. The methods of `Solver` answer
queries about constants themselves. A satisfying assignment of a query is a counterexample of its
negation; a solver that fails is taken to have found none.
-/

namespace CoverageVP.Klee

open Clover (BV SymArray Assignment Bindings bytesOf)
open Lib (Yields Both below)
open Klee.Expr

/-- The state of the solvers above the core solver. -/
abbrev ChainState (S : Type) [LinearOrder Expr] := (S × CexCache) × ValidityCache

/-- The solvers in the order in which the engine creates them, the last one first. -/
def solverChain [LinearOrder Expr] [LinearOrder SymArray] {S : Type} (options : CexCacheOptions)
    (fastCex : IncompleteSolver) (core : SolverImpl S) : SolverImpl (ChainState S) :=
  IndependentSolver (CachingSolver (CexCachingSolver options (StagedSolverImpl fastCex core)))

/-- The caches are empty at the start. -/
def ChainState.init {S : Type} [LinearOrder Expr] (s : S) : ChainState S :=
  ((s, ⟨.empty, []⟩), [])

namespace Solver

variable {S : Type} (impl : SolverImpl S)

def evaluate (query : Query) : SolverM S Validity := do
  assert (query.expr.getWidth = 1)
  match query.expr with
  | constant a => return if ConstantExpr.isTrue a then .True else .False
  | _ => impl.computeValidity query

def mustBeTrue (query : Query) : SolverM S Bool := do
  assert (query.expr.getWidth = 1)
  match query.expr with
  | constant a => return ConstantExpr.isTrue a
  | _ => impl.computeTruth query

def mayBeFalse (query : Query) : SolverM S Bool :=
  return !(← mustBeTrue impl query)

def mustBeFalse (query : Query) : SolverM S Bool := mustBeTrue impl query.negateExpr

def mayBeTrue (query : Query) : SolverM S Bool :=
  return !(← mustBeFalse impl query)

/-- The result is cast to a constant. -/
def getValue (query : Query) : SolverM S BV := do
  match query.expr with
  | constant a => return a
  | _ =>
    match ← impl.computeValue query with
    | constant a => return a
    | _ => throw (.stopped .assertion)

/-- A failure and the lack of a solution are not told apart. -/
def getInitialValues (query : Query) (objects : List SymArray) :
    SolverM S (Option (List (List (BitVec 8)))) :=
  tryCatch (impl.computeInitialValues query objects) fun
    | .failed => return none
    | .stopped stop => throw (.stopped stop)

/-- `getAssignment` of the engine. An expression that is always true is not passed on once it is
negated. -/
def getAssignment (query : Query) : SolverM S (Option Bindings) := do
  let nq := query.negateExpr
  let objects := findSymbolicObjects [nq.expr] ++
    nq.constraints.flatMap fun e ↦ findSymbolicObjects [e]
  if nq.expr = constant (.ofBool true) then return none
  return (← getInitialValues impl nq objects).map fun values ↦ objects.zip values

end Solver

/-! ## What the chain promises -/

section Chain

variable [LinearOrder Expr] [LinearOrder SymArray] {S : Type} {options : CexCacheOptions}
  {fastCex : IncompleteSolver} {core : SolverImpl S} {Inv : S → Prop} {Fails : Failure → Prop}

/-- All results in the caches are right. -/
def ChainSound (Inv : S → Prop) : ChainState S → Prop := Both (Both Inv CexSound) CacheSound

omit [LinearOrder SymArray] in
theorem chainSound_init {s : S} (h : Inv s) : ChainSound Inv (ChainState.init s) :=
  ⟨⟨h, CexCachingSolver.cexSound_empty⟩, fun _ hentry ↦ absurd hentry List.not_mem_nil⟩

omit [LinearOrder SymArray] in
/-- What the solvers below the splitting promise. -/
theorem cachingSolver_correct (hfastCex : fastCex.Sound Fails) (hcore : core.Correct Inv Fails)
    (hfails : options.experimental = true → Fails .failed) :
    (CachingSolver (CexCachingSolver options (StagedSolverImpl fastCex core))).Correct
      (ChainSound Inv) Fails :=
  CachingSolver.correct (CexCachingSolver.correct (StagedSolverImpl.correct hfastCex hcore) hfails)

/-- What `assert` fails with. -/
def OrAssertion (Fails : Failure → Prop) (e : Failure) : Prop :=
  Fails e ∨ e = .stopped .assertion

/-- The chain answers like the core solver, whatever it was asked before. Only the check of the
splitting can fail in addition. -/
theorem solverChain_correct (hfastCex : fastCex.Sound Fails) (hcore : core.Correct Inv Fails)
    (hfails : options.experimental = true → Fails .failed) :
    (solverChain options fastCex core).Correct (ChainSound Inv) (OrAssertion Fails) where
  computeTruth _ hadmissible hsatisfiable :=
    (IndependentSolver.computeTruth_yields (cachingSolver_correct hfastCex hcore hfails)
      hadmissible hsatisfiable).conseq (fun _ h ↦ h) fun _ ↦ .inl
  computeValidity _ hadmissible hsatisfiable :=
    (IndependentSolver.computeValidity_yields (cachingSolver_correct hfastCex hcore hfails)
      hadmissible hsatisfiable).conseq (fun _ h ↦ h) fun _ ↦ .inl
  computeValue _ hadmissible hplain hsatisfiable :=
    (IndependentSolver.computeValue_yields (cachingSolver_correct hfastCex hcore hfails)
      hadmissible hplain hsatisfiable).conseq (fun _ h ↦ h) fun _ ↦ .inl
  computeInitialValues _ objects hadmissible :=
    (IndependentSolver.computeInitialValues_yields
      (cachingSolver_correct hfastCex hcore hfails) hadmissible objects).conseq (fun _ h ↦ h)
      fun _ h ↦ h.imp_right And.left

end Chain

/-! ## Queries of the engine -/

namespace Solver

variable {S : Type} {impl : SolverImpl S} {Inv : S → Prop} {Fails : Failure → Prop} {query : Query}

theorem assert_yields {condition : Prop} [Decidable condition] (h : condition) :
    Yields Inv Fails (assert condition : SolverM S Unit) fun _ ↦ True :=
  Yields.ite (fun _ ↦ Yields.ret trivial) fun hnot ↦ absurd h hnot

theorem evaluate_yields (himpl : impl.Correct Inv Fails) (hadmissible : query.Admissible)
    (hsatisfiable : query.Satisfiable) :
    Yields Inv Fails (evaluate impl query) query.HasValidity := by
  refine (assert_yields hadmissible.expr.2).bind fun _ _ ↦ ?_
  cases hexpr : query.expr with
  | constant a =>
    refine Yields.ret ?_
    rcases ConstantExpr.isTrue_or_isFalse (hexpr ▸ hadmissible.expr.2 : (constant a).getWidth = 1)
      with rfl | rfl
    · exact fun σ _ ↦ hexpr ▸ rfl
    · exact fun σ _ ↦ hexpr ▸ ConstraintManager.not_holds_false σ
  | _ => exact himpl.computeValidity query hadmissible hsatisfiable

theorem mustBeTrue_yields (himpl : impl.Correct Inv Fails) (hadmissible : query.Admissible)
    (hsatisfiable : query.Satisfiable) :
    Yields Inv Fails (mustBeTrue impl query) fun result ↦ result = true ↔ query.Valid := by
  refine (assert_yields hadmissible.expr.2).bind fun _ _ ↦ ?_
  cases hexpr : query.expr with
  | constant a =>
    refine Yields.ret ?_
    rcases ConstantExpr.isTrue_or_isFalse (hexpr ▸ hadmissible.expr.2 : (constant a).getWidth = 1)
      with rfl | rfl
    · exact iff_of_true rfl fun σ _ ↦ hexpr ▸ rfl
    · refine iff_of_false Bool.false_ne_true fun hvalid ↦ ?_
      obtain ⟨σ, hσ⟩ := hsatisfiable
      exact ConstraintManager.not_holds_false σ (hexpr ▸ hvalid σ hσ)
  | _ => exact himpl.computeTruth query hadmissible hsatisfiable

theorem mayBeTrue_yields (himpl : impl.Correct Inv Fails) (hadmissible : query.Admissible)
    (hsatisfiable : query.Satisfiable) :
    Yields Inv Fails (mayBeTrue impl query) fun result ↦ result = true ↔ ¬ query.Refuted := by
  refine (mustBeTrue_yields himpl hadmissible.negateExpr hsatisfiable).bind fun result hresult ↦
    Yields.ret ?_
  rw [Query.valid_negateExpr hadmissible] at hresult
  rw [← hresult]
  simp

theorem getValue_yields (himpl : impl.Correct Inv Fails) (hadmissible : query.withFalse.Admissible)
    (hplain : query.expr.IsPlain) (hsatisfiable : query.Satisfiable) :
    Yields Inv Fails (getValue impl query) fun a ↦ query.HasValue (constant a) := by
  cases hexpr : query.expr with
  | constant a =>
    rw [getValue, hexpr]
    refine Yields.ret (hsatisfiable.imp fun σ hσ ↦ ⟨hσ, ?_⟩)
    rw [hexpr]
    exact congrArg (fun bits ↦ constant ⟨a.width, bits⟩) (BitVec.setWidth_eq a.bits).symm
  | _ =>
    rw [getValue, hexpr]
    refine (himpl.computeValue query hadmissible hplain hsatisfiable).bind fun e he ↦ ?_
    obtain ⟨σ, hσ, rfl⟩ := he
    exact Yields.ret ⟨σ, hσ, rfl⟩

/-- What a counterexample of the negation means. -/
def HasAssignment (query : Query) (objects : List SymArray) : Option Bindings → Prop
  | none => query.Refuted
  | some bindings => ∃ σ, AllHold σ query.constraints ∧ query.expr.Holds σ ∧
      bindings = objects.map fun array ↦ (array, bytesOf (σ array))

/-- The arrays for which an assignment is asked. -/
def objectsOf (query : Query) : List SymArray :=
  findSymbolicObjects [query.negateExpr.expr] ++
    query.constraints.flatMap fun e ↦ findSymbolicObjects [e]

/-- An assignment that is found is right, and one is found whenever there is one, unless the core
solver fails. -/
theorem getAssignment_yields (himpl : impl.Correct Inv Fails) (hadmissible : query.Admissible) :
    Yields Inv (fun e ↦ Fails e ∧ e ≠ .failed) (getAssignment impl query) fun result ↦
      HasAssignment query (objectsOf query) result ∨ result = none ∧ Fails .failed := by
  have hneg := holds_createIsZero hadmissible.expr.isCondition
  refine Yields.ite (fun htrue ↦ Yields.ret (.inl fun σ _ hexpr ↦ (hneg σ).mp ?_ hexpr)) fun _ ↦ ?_
  · have hconstant : createIsZero query.expr = constant (.ofBool true) := htrue
    rw [hconstant]
    rfl
  have hask := himpl.computeInitialValues query.negateExpr (objectsOf query) hadmissible.negateExpr
  -- a failure of the core solver is taken for the lack of a solution
  have hcaught : Yields Inv (fun e ↦ Fails e ∧ e ≠ .failed)
      (getInitialValues impl query.negateExpr (objectsOf query)) fun values ↦
        query.negateExpr.Solution (objectsOf query) values ∨ values = none ∧ Fails .failed := by
    refine Lib.Triple.handle (hask.post fun _ ↦ .inl) fun e ↦ Lib.Triple.of_start fun s hs ↦ ?_
    cases e with
    | failed => exact Lib.Triple.ret fun s' hs' ↦ hs' ▸ ⟨hs.1, .inr ⟨rfl, hs.2⟩⟩
    | stopped stop => exact Lib.Triple.raise fun s' hs' ↦ hs' ▸ ⟨hs.1, hs.2, nofun⟩
  refine hcaught.bind fun values hvalues ↦ Yields.ret ?_
  rcases hvalues with hvalues | ⟨rfl, hfailed⟩
  · refine .inl ?_
    cases values with
    | none => exact (Query.valid_negateExpr hadmissible).mp hvalues
    | some values =>
      obtain ⟨σ, hσ, hexpr, rfl⟩ := hvalues
      refine ⟨σ, hσ, not_not.mp fun h ↦ hexpr ((hneg σ).mpr h), ?_⟩
      exact List.map_prod_left_eq_zip.symm
  · exact .inr ⟨rfl, hfailed⟩

end Solver

end CoverageVP.Klee
