import CoverageVP.Klee.Solver
import Mathlib.Order.Defs.LinearOrder

/-!
# The cache of validities

The caching solver remembers what is known of the validity of an expression under a set of
constraints. An expression and its negation share an entry, so that a result is negated when it is
stored or looked up for the larger of the two, and an entry is never overwritten: a partial result
that becomes definite later stays partial in the cache.
-/

namespace CoverageVP.Klee

open Clover (SymArray)
open Lib (Delivers Yields Both below getOwn modifyOwn)
open Klee.Expr

abbrev ValidityCache := List (Query × PartialValidity)

def negatePartialValidity : PartialValidity → Except Stop PartialValidity
  | .MustBeTrue => .ok .MustBeFalse
  | .MustBeFalse => .ok .MustBeTrue
  | .MayBeTrue => .ok .MayBeFalse
  | .MayBeFalse => .ok .MayBeTrue
  | .TrueOrFalse => .ok .TrueOrFalse
  | .None => .error .assertion

namespace CachingSolver

variable [LinearOrder Expr] {S : Type}

/-- The smaller one of an expression and its negation, and whether it is the negation. -/
def canonicalizeQuery (originalQuery : Expr) : Expr × Bool :=
  if originalQuery < createIsZero originalQuery then (originalQuery, false)
  else (createIsZero originalQuery, true)

/-- What a result says about the canonical form of an expression. -/
def orient (negationUsed : Bool) (result : PartialValidity) : Except Stop PartialValidity :=
  if negationUsed then negatePartialValidity result else .ok result

def cacheLookup (cache : ValidityCache) (query : Query) :
    Except Stop (Option PartialValidity) :=
  let (canonicalQuery, negationUsed) := canonicalizeQuery query.expr
  match cache.lookup ⟨query.constraints, canonicalQuery⟩ with
  | some result => do return some (← orient negationUsed result)
  | none => .ok none

def cacheInsert (query : Query) (result : PartialValidity) : SolverM (S × ValidityCache) Unit := do
  let (canonicalQuery, negationUsed) := canonicalizeQuery query.expr
  let cachedResult ← lift (orient negationUsed result)
  modifyOwn fun cache ↦
    if (cache.lookup ⟨query.constraints, canonicalQuery⟩).isSome then cache
    else (⟨query.constraints, canonicalQuery⟩, cachedResult) :: cache

def computeValidity (solver : SolverImpl S) (query : Query) :
    SolverM (S × ValidityCache) Validity := do
  match ← lift (cacheLookup (← getOwn) query) with
  | some .MustBeTrue => return .True
  | some .MustBeFalse => return .False
  | some .TrueOrFalse => return .Unknown
  | some .MayBeTrue =>
    if ← below (solver.computeTruth query) then
      cacheInsert query .MustBeTrue
      return .True
    else
      cacheInsert query .TrueOrFalse
      return .Unknown
  | some .MayBeFalse =>
    if ← below (solver.computeTruth query.negateExpr) then
      cacheInsert query .MustBeFalse
      return .False
    else
      cacheInsert query .TrueOrFalse
      return .Unknown
  | some .None => throw (.stopped .assertion)
  | none =>
    let result ← below (solver.computeValidity query)
    match result with
    | .True => cacheInsert query .MustBeTrue
    | .False => cacheInsert query .MustBeFalse
    | .Unknown => cacheInsert query .TrueOrFalse
    return result

def computeTruth (solver : SolverImpl S) (query : Query) :
    SolverM (S × ValidityCache) Bool := do
  match ← lift (cacheLookup (← getOwn) query) with
  | some .MayBeTrue =>
    let isValid ← below (solver.computeTruth query)
    cacheInsert query (if isValid then .MustBeTrue else .TrueOrFalse)
    return isValid
  | some cachedResult => return cachedResult = .MustBeTrue
  | none =>
    let isValid ← below (solver.computeTruth query)
    cacheInsert query (if isValid then .MustBeTrue else .MayBeFalse)
    return isValid

end CachingSolver

def CachingSolver [LinearOrder Expr] {S : Type} (solver : SolverImpl S) :
    SolverImpl (S × ValidityCache) where
  computeTruth := CachingSolver.computeTruth solver
  computeValidity := CachingSolver.computeValidity solver
  computeValue query := below (solver.computeValue query)
  computeInitialValues query objects := below (solver.computeInitialValues query objects)

/-! ## What the cache knows -/

/-- Every entry is true, and tells something. -/
def CacheSound (cache : ValidityCache) : Prop :=
  ∀ entry ∈ cache, entry.1.HasPartialValidity entry.2 ∧ entry.2 ≠ .None

/-- A result about the negation of an expression is a result about the expression. -/
theorem negatePartialValidity_spec {query negated : Query} {result : PartialValidity}
    (hvalid : negated.Valid ↔ query.Refuted) (hrefuted : negated.Refuted ↔ query.Valid)
    (hmeaning : query.HasPartialValidity result) (hne : result ≠ .None) :
    ∃ result', negatePartialValidity result = .ok result' ∧ negated.HasPartialValidity result' ∧
      result' ≠ .None := by
  cases result with
  | MustBeTrue => exact ⟨_, rfl, hrefuted.mpr hmeaning, by decide⟩
  | MustBeFalse => exact ⟨_, rfl, hvalid.mpr hmeaning, by decide⟩
  | MayBeTrue => exact ⟨_, rfl, hvalid.not.mpr hmeaning, by decide⟩
  | MayBeFalse => exact ⟨_, rfl, hrefuted.not.mpr hmeaning, by decide⟩
  | TrueOrFalse =>
    exact ⟨_, rfl, ⟨hvalid.not.mpr hmeaning.2, hrefuted.not.mpr hmeaning.1⟩, by decide⟩
  | None => exact absurd rfl hne

namespace CachingSolver

variable [LinearOrder Expr] {S : Type} {Inv : S → Prop} {Fails : Failure → Prop}
  {solver : SolverImpl S} {query : Query}

omit [LinearOrder Expr] in
theorem mem_of_lookup {cache : ValidityCache} {result : PartialValidity}
    (h : cache.lookup query = some result) : (query, result) ∈ cache := by
  induction cache with
  | nil => cases h
  | cons entry rest ih =>
    rw [List.lookup_cons] at h
    split at h
    · rename_i heq
      obtain rfl := Option.some.inj h
      rw [beq_iff_eq.mp heq]
      exact List.mem_cons_self
    · exact List.mem_cons_of_mem _ (ih h)

theorem canonicalizeQuery_cases (e : Expr) :
    canonicalizeQuery e = (e, false) ∨ canonicalizeQuery e = (createIsZero e, true) := by
  rw [canonicalizeQuery]
  split_ifs
  · exact .inl rfl
  · exact .inr rfl

theorem cacheLookup_delivers {cache : ValidityCache} (hcache : CacheSound cache)
    (hadmissible : query.Admissible) {E : Stop → Prop} :
    Delivers E (cacheLookup cache query) fun result ↦
      ∀ r ∈ result, query.HasPartialValidity r ∧ r ≠ .None := by
  rw [cacheLookup]
  rcases canonicalizeQuery_cases query.expr with h | h
  · rw [h]
    dsimp only
    cases hlookup : cache.lookup ⟨query.constraints, query.expr⟩ with
    | none => exact fun r hr ↦ absurd hr (Option.not_mem_none r)
    | some result =>
      intro r hr
      obtain rfl := Option.mem_some_iff.mp hr
      exact hcache _ (mem_of_lookup hlookup)
  · rw [h]
    dsimp only
    cases hlookup : cache.lookup ⟨query.constraints, createIsZero query.expr⟩ with
    | none => exact fun r hr ↦ absurd hr (Option.not_mem_none r)
    | some result =>
      obtain ⟨hmeaning, hne⟩ := hcache _ (mem_of_lookup hlookup)
      obtain ⟨result', hnegate, hmeaning', hne'⟩ :=
        negatePartialValidity_spec
          (Query.refuted_negateExpr hadmissible).symm (Query.valid_negateExpr hadmissible).symm
          hmeaning hne
      dsimp only [orient]
      rw [if_pos rfl, hnegate]
      intro r hr
      obtain rfl := Option.mem_some_iff.mp hr
      exact ⟨hmeaning', hne'⟩

theorem cacheInsert_yields (hadmissible : query.Admissible) {result : PartialValidity}
    (hmeaning : query.HasPartialValidity result) (hne : result ≠ .None) :
    Yields (Both Inv CacheSound) Fails (cacheInsert query result) fun _ ↦ True := by
  have hinsert {canonical : Query} {cachedResult : PartialValidity}
      (hmeaning : canonical.HasPartialValidity cachedResult) (hne : cachedResult ≠ .None) :
      Yields (Both Inv CacheSound) Fails (modifyOwn fun cache : ValidityCache ↦
        if (cache.lookup canonical).isSome then cache else (canonical, cachedResult) :: cache)
        fun _ ↦ True := by
    refine Yields.modifyOwn fun cache hcache ↦ ?_
    split_ifs
    · exact hcache
    · exact List.forall_mem_cons.mpr ⟨⟨hmeaning, hne⟩, hcache⟩
  rw [cacheInsert]
  rcases canonicalizeQuery_cases query.expr with h | h
  · rw [h]
    exact hinsert hmeaning hne
  · obtain ⟨result', hnegate, hmeaning', hne'⟩ :=
      negatePartialValidity_spec (Query.valid_negateExpr hadmissible)
        (Query.refuted_negateExpr hadmissible) hmeaning hne
    rw [h]
    dsimp only [orient]
    rw [if_pos rfl, hnegate]
    exact hinsert hmeaning' hne'

/-- A result is stored before it is returned. -/
theorem insert_yields {α : Type} (hadmissible : query.Admissible) (result : PartialValidity)
    (hmeaning : query.HasPartialValidity result) (hne : result ≠ .None) {Q : α → Prop} {a : α}
    (ha : Q a) :
    Yields (Both Inv CacheSound) Fails (do cacheInsert query result; return a) Q :=
  (cacheInsert_yields hadmissible hmeaning hne).bind fun _ _ ↦ Yields.ret ha

theorem lookup_bind {α : Type} (hadmissible : query.Admissible) {Q : α → Prop}
    {f : Option PartialValidity → SolverM (S × ValidityCache) α}
    (hf : ∀ result, (∀ r ∈ result, query.HasPartialValidity r ∧ r ≠ .None) →
      Yields (Both Inv CacheSound) Fails (f result) Q) :
    Yields (Both Inv CacheSound) Fails (do f (← lift (cacheLookup (← getOwn) query))) Q :=
  Yields.getOwn.bind fun _ hcache ↦ (yields_lift (cacheLookup_delivers hcache hadmissible)).bind hf

theorem computeTruth_yields (hsolver : solver.Correct Inv Fails) (hadmissible : query.Admissible)
    (hsatisfiable : query.Satisfiable) :
    Yields (Both Inv CacheSound) Fails (computeTruth solver query) fun isValid ↦
      isValid = true ↔ query.Valid := by
  have hask := (hsolver.computeTruth query hadmissible hsatisfiable).below (J := CacheSound)
  refine lookup_bind hadmissible fun result hresult ↦ ?_
  cases result with
  | none =>
    refine hask.bind fun isValid hvalid ↦ insert_yields hadmissible _ ?_ ?_ hvalid
    · cases isValid with
      | true => exact hvalid.mp rfl
      | false => exact hvalid.not.mp Bool.false_ne_true
    · cases isValid <;> decide
  | some cachedResult =>
    obtain ⟨hmeaning, hne⟩ := hresult cachedResult rfl
    cases cachedResult with
    | MustBeTrue => exact Yields.ret (iff_of_true rfl hmeaning)
    | MustBeFalse =>
      exact Yields.ret (iff_of_false (by decide) fun h ↦ hsatisfiable.not_refuted h hmeaning)
    | MayBeTrue =>
      refine hask.bind fun isValid hvalid ↦ insert_yields hadmissible _ ?_ ?_ hvalid
      · cases isValid with
        | true => exact hvalid.mp rfl
        | false => exact ⟨hvalid.not.mp Bool.false_ne_true, hmeaning⟩
      · cases isValid <;> decide
    | MayBeFalse => exact Yields.ret (iff_of_false (by decide) hmeaning)
    | TrueOrFalse => exact Yields.ret (iff_of_false (by decide) hmeaning.1)
    | None => exact absurd rfl hne

theorem computeValidity_yields (hsolver : solver.Correct Inv Fails)
    (hadmissible : query.Admissible) (hsatisfiable : query.Satisfiable) :
    Yields (Both Inv CacheSound) Fails (computeValidity solver query) query.HasValidity := by
  refine lookup_bind hadmissible fun result hresult ↦ ?_
  cases result with
  | none =>
    refine (hsolver.computeValidity query hadmissible hsatisfiable).below.bind
      fun validity hvalidity ↦ ?_
    cases validity with
    | True => exact insert_yields hadmissible .MustBeTrue hvalidity (by decide) hvalidity
    | False => exact insert_yields hadmissible .MustBeFalse hvalidity (by decide) hvalidity
    | Unknown => exact insert_yields hadmissible .TrueOrFalse hvalidity (by decide) hvalidity
  | some cachedResult =>
    obtain ⟨hmeaning, hne⟩ := hresult cachedResult rfl
    cases cachedResult with
    | MustBeTrue => exact Yields.ret hmeaning
    | MustBeFalse => exact Yields.ret hmeaning
    | TrueOrFalse => exact Yields.ret hmeaning
    | MayBeTrue =>
      refine (hsolver.computeTruth query hadmissible hsatisfiable).below.bind
        fun isTrue htrue ↦ Yields.ite (fun h ↦ ?_) fun h ↦ ?_
      · exact insert_yields hadmissible .MustBeTrue (htrue.mp h) (by decide) (htrue.mp h)
      · have hunknown : query.HasValidity .Unknown := ⟨htrue.not.mp h, hmeaning⟩
        exact insert_yields hadmissible .TrueOrFalse hunknown (by decide) hunknown
    | MayBeFalse =>
      refine (hsolver.computeTruth query.negateExpr hadmissible.negateExpr
        hsatisfiable).below.bind fun isFalse hfalse ↦ ?_
      rw [Query.valid_negateExpr hadmissible] at hfalse
      refine Yields.ite (fun h ↦ ?_) fun h ↦ ?_
      · exact insert_yields hadmissible .MustBeFalse (hfalse.mp h) (by decide) (hfalse.mp h)
      · have hunknown : query.HasValidity .Unknown := ⟨hmeaning, hfalse.not.mp h⟩
        exact insert_yields hadmissible .TrueOrFalse hunknown (by decide) hunknown
    | None => exact absurd rfl hne

/-- A caching solver answers like the solver below it, whatever it was asked before. -/
theorem correct (hsolver : solver.Correct Inv Fails) :
    (CachingSolver solver).Correct (Both Inv CacheSound) Fails where
  computeTruth _ hadmissible hsatisfiable := computeTruth_yields hsolver hadmissible hsatisfiable
  computeValidity _ hadmissible hsatisfiable :=
    computeValidity_yields hsolver hadmissible hsatisfiable
  computeValue query hadmissible hplain hsatisfiable :=
    (hsolver.computeValue query hadmissible hplain hsatisfiable).below
  computeInitialValues query objects hadmissible :=
    (hsolver.computeInitialValues query objects hadmissible).below

end CachingSolver

end CoverageVP.Klee
