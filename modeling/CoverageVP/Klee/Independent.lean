import CoverageVP.Klee.Solver
import CoverageVP.Lib.Factors
import Mathlib.Data.Finset.Sort

/-!
# Independent constraints

Constraints that read different bytes do not influence each other. To decide a query, the solver
passes on the constraints only that are connected with the expression by common bytes. To find a
counterexample it splits the constraints into independent factors, solves each of them, and puts
the values together: of an array that occurs in several factors, each factor determines the bytes
that it reads. At the end the values are checked against the query.

A factor that reads nothing is not passed on. It is assumed to hold, and if it does not, the check
fails.
-/

namespace CoverageVP.Klee

open Clover (BV SymArray Assignment Bindings bytesOf)
open Lib (Delivers Factor Yields)
open Klee.Expr

/-! ## The bytes an expression reads -/

def Part.element : Part → Option (SymArray × Nat)
  | .byte array index => some (array, index)
  | .division | .delicateShift | .uncanonical => none

def Expr.elements (e : Expr) : Finset (SymArray × Nat) := (e.parts.filterMap Part.element).toFinset

abbrev IndependentElementSet := Factor (SymArray × Nat) Expr

def IndependentElementSet.ofExpr (e : Expr) : IndependentElementSet := ⟨e.elements, [e]⟩

/-- The constraints that are connected with the expression. -/
def getIndependentConstraints (query : Query) : IndependentElementSet × List Expr :=
  (IndependentElementSet.ofExpr query.expr).connect
    (query.constraints.map fun c ↦ (c, IndependentElementSet.ofExpr c))

def getAllIndependentConstraintsSets (query : Query) :
    Except Stop (List IndependentElementSet) := do
  let factors ← match query.expr with
    | constant a => if ConstantExpr.isFalse a then pure [] else throw .assertion
    | _ => pure [IndependentElementSet.ofExpr (createIsZero query.expr)]
  return Factor.merge (factors ++ query.constraints.map IndependentElementSet.ofExpr)

/-! ## Putting values together -/

/-- The bytes at the given elements are replaced. -/
def overwrite (elements : Finset (SymArray × Nat)) (array : SymArray) (old bytes : List (BitVec 8)) :
    List (BitVec 8) :=
  old.mapIdx fun index byte ↦ if (array, index) ∈ elements then bytes.getD index 0 else byte

/-- The values of a new array are all taken over. -/
def storeValue (elements : Finset (SymArray × Nat)) (retMap : Bindings) (array : SymArray)
    (bytes : List (BitVec 8)) : Except Stop Bindings :=
  match retMap.find? fun binding ↦ binding.1 = array with
  | some (_, old) =>
    if old.length = bytes.length then
      return retMap.map fun binding ↦
        (binding.1, if binding.1 = array then overwrite elements array old bytes else binding.2)
    else throw .assertion
  | none => return retMap ++ [(array, bytes)]

def storeValues (elements : Finset (SymArray × Nat)) :
    List (SymArray × List (BitVec 8)) → Bindings → Except Stop Bindings
  | [], retMap => return retMap
  | (array, bytes) :: rest, retMap => do
    storeValues elements rest (← storeValue elements retMap array bytes)

/-- The expressions evaluate to the constant `true`. -/
def evaluateToTrue (assign : Bindings) : List Expr → Except Stop Bool
  | [] => return true
  | e :: rest => do
    match ← Bindings.evaluateFree assign e with
    | constant a => if ConstantExpr.isTrue a then evaluateToTrue assign rest else return false
    | _ => throw .assertion

def assertCreatedPointEvaluatesToTrue (query : Query) (objects : List SymArray)
    (values : List (List (BitVec 8))) (retMap : Bindings) : Except Stop Bool :=
  evaluateToTrue (objects.zip values ++ retMap) (query.constraints ++ [createIsZero query.expr])

namespace IndependentSolver

variable {S : Type}

/-- The query without the constraints that are not connected with its expression. -/
def required (query : Query) : Query :=
  { query with constraints := (getIndependentConstraints query).2 }

variable [LinearOrder SymArray]

/-- The arrays of a factor, in the order of their addresses. -/
def calculateArrayReferences (ie : IndependentElementSet) : List SymArray :=
  (ie.elements.image Prod.fst).sort

def solveFactors (solver : SolverImpl S) :
    List IndependentElementSet → Bindings → SolverM S (Option Bindings)
  | [], retMap => return some retMap
  | factor :: rest, retMap => do
    let arraysInFactor := calculateArrayReferences factor
    if arraysInFactor = [] then solveFactors solver rest retMap
    else
      match ← solver.computeInitialValues ⟨factor.exprs, constant (.ofBool false)⟩
        arraysInFactor with
      | none => return none
      | some tempValues =>
        assert (tempValues.length = arraysInFactor.length)
        let retMap ← lift (storeValues factor.elements (arraysInFactor.zip tempValues) retMap)
        solveFactors solver rest retMap

def computeInitialValues (solver : SolverImpl S) (query : Query) (objects : List SymArray) :
    SolverM S (Option (List (List (BitVec 8)))) := do
  let factors ← lift (getAllIndependentConstraintsSets query)
  match ← solveFactors solver factors [] with
  | none => return none
  | some retMap =>
    let values := Bindings.valuesOf retMap objects
    let satisfied ← lift (assertCreatedPointEvaluatesToTrue query objects values retMap)
    assert (satisfied = true)
    return some values

end IndependentSolver

def IndependentSolver [LinearOrder SymArray] {S : Type} (solver : SolverImpl S) : SolverImpl S where
  computeTruth query := solver.computeTruth (IndependentSolver.required query)
  computeValidity query := solver.computeValidity (IndependentSolver.required query)
  computeValue query := solver.computeValue (IndependentSolver.required query)
  computeInitialValues := IndependentSolver.computeInitialValues solver

def byte (σ : Assignment) (array : SymArray) (index : Nat) : BitVec 8 :=
  (σ array).extractLsb' (8 * index) 8

theorem mem_elements {e : Expr} {array : SymArray} {index : Nat} :
    (array, index) ∈ e.elements ↔ .byte array index ∈ e.parts := by
  rw [Expr.elements, List.mem_toFinset, List.mem_filterMap]
  constructor
  · rintro ⟨part, hpart, h⟩
    cases part with
    | byte array' index' =>
      cases h
      exact hpart
    | _ => cases h
  · exact fun h ↦ ⟨_, h, rfl⟩

theorem bits_congr_bytes {σ τ : Assignment} {e : Expr}
    (h : ∀ array index, .byte array index ∈ e.parts → byte σ array index = byte τ array index)
    (w : Nat) : e.bits σ w = e.bits τ w := by
  induction e generalizing w with
  | constant value => rfl
  | read array index =>
    have hbyte := h array index (List.mem_singleton.mpr rfl)
    simp only [bits]
    exact congrArg (BitVec.setWidth w) hbyte
  | concat left right ihl ihr =>
    have hl := ihl (fun a i ha ↦ h a i (List.mem_append_left _ ha)) left.getWidth
    have hr := ihr (fun a i ha ↦ h a i (List.mem_append_right _ ha)) right.getWidth
    simp only [bits, hl, hr]
  | extract expr offset width ih => simp only [bits, ih h]
  | not expr ih => simp only [bits, ih h]
  | zext src width ih => simp only [bits, ih h]
  | sext src width ih => simp only [bits, ih h]
  | arithmetic kind left right ihl ihr =>
    have hl := ihl (fun a i ha ↦ h a i (mem_parts_arithmetic_of_mem (.inl ha))) w
    have hr := ihr (fun a i ha ↦ h a i (mem_parts_arithmetic_of_mem (.inr ha))) w
    simp only [bits, hl, hr]
  | comparison kind left right ihl ihr =>
    have hl := ihl (fun a i ha ↦ h a i (mem_parts_comparison_of_mem (.inl ha))) left.getWidth
    have hr := ihr (fun a i ha ↦ h a i (mem_parts_comparison_of_mem (.inr ha))) left.getWidth
    simp only [bits, hl, hr]

/-- Behind the end of an array there are zeros. -/
theorem byte_of_le (σ : Assignment) {array : SymArray} {index : Nat} (h : array.size ≤ index) :
    byte σ array index = 0 := by
  apply BitVec.eq_of_getLsbD_eq
  intro i hi
  rw [byte, BitVec.getLsbD_extractLsb', BitVec.getLsbD_of_ge _ _ (by omega), Bool.and_false]
  exact BitVec.getLsbD_zero.symm

/-- The bytes in the set are those of the first assignment, the others those of the second. -/
def combine (elements : Finset (SymArray × Nat)) (σ τ : Assignment) : Assignment := fun array ↦
  Lib.Bytes.word (fun index ↦ if (array, index) ∈ elements then byte σ array index
    else byte τ array index) (8 * array.size) 0

theorem byte_combine (elements : Finset (SymArray × Nat)) (σ τ : Assignment) (array : SymArray)
    (index : Nat) :
    byte (combine elements σ τ) array index =
      if (array, index) ∈ elements then byte σ array index else byte τ array index := by
  by_cases h : index < array.size
  · exact extract_word _ h
  · rw [byte_of_le _ (not_lt.mp h), byte_of_le _ (not_lt.mp h), byte_of_le _ (not_lt.mp h), ite_self]

theorem bits_combine_left {elements : Finset (SymArray × Nat)} {e : Expr}
    (h : e.elements ⊆ elements) (σ τ : Assignment) (w : Nat) :
    e.bits (combine elements σ τ) w = e.bits σ w :=
  bits_congr_bytes (fun array index hpart ↦ by
    rw [byte_combine, if_pos (h (mem_elements.mpr hpart))]) w

theorem bits_combine_right {elements : Finset (SymArray × Nat)} {e : Expr}
    (h : ∀ x ∈ e.elements, x ∉ elements) (σ τ : Assignment) (w : Nat) :
    e.bits (combine elements σ τ) w = e.bits τ w :=
  bits_congr_bytes (fun array index hpart ↦ by
    rw [byte_combine, if_neg (h _ (mem_elements.mpr hpart))]) w

namespace IndependentSolver

section Required

variable {query : Query}

theorem mem_constraints_of_mem_required (query : Query) {c : Expr}
    (h : c ∈ (required query).constraints) :
    c ∈ query.constraints := by
  obtain ⟨item, hitem, heq, -⟩ := (Factor.connect_selects _ _).required_subset c h
  obtain ⟨c', hc', rfl⟩ := List.mem_map.mp hitem
  exact heq ▸ hc'

/-- An assignment of the required constraints extends to one of all constraints, which leaves the
value of the expression. -/
theorem exists_extension {σ : Assignment} (hσ : AllHold σ (required query).constraints)
    (hsatisfiable : query.Satisfiable) :
    ∃ ρ, AllHold ρ query.constraints ∧ ∀ w, query.expr.bits ρ w = query.expr.bits σ w := by
  obtain ⟨τ, hτ⟩ := hsatisfiable
  have hselects := Factor.connect_selects (IndependentElementSet.ofExpr query.expr)
    (query.constraints.map fun c ↦ (c, IndependentElementSet.ofExpr c))
  refine ⟨combine (getIndependentConstraints query).1.elements σ τ, fun c hc ↦ ?_,
    bits_combine_left hselects.closure_subset σ τ⟩
  rcases hselects.split _ (List.mem_map_of_mem hc) with hrequired | hdisjoint
  · obtain ⟨item, hitem, heq, hsub⟩ := hselects.required_subset c hrequired
    obtain ⟨c', -, rfl⟩ := List.mem_map.mp hitem
    obtain rfl : c' = c := heq
    exact (bits_combine_left hsub σ τ 1).trans (hσ c' hrequired)
  · refine (bits_combine_right (fun x hx hmem ↦ hdisjoint ⟨x, hx, hmem⟩) σ τ 1).trans (hτ c hc)

theorem satisfiable_required (h : query.Satisfiable) : (required query).Satisfiable :=
  h.imp fun _ hσ c hc ↦ hσ c (mem_constraints_of_mem_required query hc)

theorem valid_required (h : query.Satisfiable) : (required query).Valid ↔ query.Valid := by
  constructor
  · exact fun hvalid σ hσ ↦ hvalid σ fun c hc ↦ hσ c (mem_constraints_of_mem_required query hc)
  · intro hvalid σ hσ
    obtain ⟨ρ, hρ, hbits⟩ := exists_extension hσ h
    exact (hbits 1).symm.trans (hvalid ρ hρ)

theorem refuted_required (h : query.Satisfiable) : (required query).Refuted ↔ query.Refuted := by
  constructor
  · exact fun hrefuted σ hσ ↦ hrefuted σ fun c hc ↦ hσ c (mem_constraints_of_mem_required query hc)
  · intro hrefuted σ hσ hholds
    obtain ⟨ρ, hρ, hbits⟩ := exists_extension hσ h
    exact hrefuted ρ hρ ((hbits 1).trans hholds)

theorem hasValidity_of_required (h : query.Satisfiable) {validity : Validity}
    (hvalidity : (required query).HasValidity validity) : query.HasValidity validity := by
  cases validity with
  | True => exact (valid_required h).mp hvalidity
  | False => exact (refuted_required h).mp hvalidity
  | Unknown =>
    exact ⟨(valid_required h).not.mp hvalidity.1, (refuted_required h).not.mp hvalidity.2⟩

theorem hasValue_of_required (h : query.Satisfiable) {e : Expr}
    (hvalue : (required query).HasValue e) : query.HasValue e := by
  obtain ⟨σ, hσ, rfl⟩ := hvalue
  obtain ⟨ρ, hρ, hbits⟩ := exists_extension hσ h
  refine ⟨ρ, hρ, congrArg constant ?_⟩
  rw [eval, eval, hbits]
  rfl

theorem admissible_required (h : query.Admissible) : (required query).Admissible :=
  ⟨fun c hc ↦ h.constraints c (mem_constraints_of_mem_required query hc), h.expr⟩

variable [LinearOrder SymArray] {S : Type} {Inv : S → Prop} {Fails : Failure → Prop}
  {solver : SolverImpl S}

theorem computeTruth_yields (hsolver : solver.Correct Inv Fails) (hadmissible : query.Admissible)
    (hsatisfiable : query.Satisfiable) :
    Yields Inv Fails ((IndependentSolver solver).computeTruth query)
      fun isValid ↦ isValid = true ↔ query.Valid :=
  (hsolver.computeTruth _ (admissible_required hadmissible)
    (satisfiable_required hsatisfiable)).post fun _ h ↦ h.trans (valid_required hsatisfiable)

theorem computeValidity_yields (hsolver : solver.Correct Inv Fails)
    (hadmissible : query.Admissible) (hsatisfiable : query.Satisfiable) :
    Yields Inv Fails ((IndependentSolver solver).computeValidity query) query.HasValidity :=
  (hsolver.computeValidity _ (admissible_required hadmissible)
    (satisfiable_required hsatisfiable)).post fun _ ↦ hasValidity_of_required hsatisfiable

theorem computeValue_yields (hsolver : solver.Correct Inv Fails)
    (hadmissible : query.withFalse.Admissible) (hplain : query.expr.IsPlain)
    (hsatisfiable : query.Satisfiable) :
    Yields Inv Fails ((IndependentSolver solver).computeValue query) query.HasValue := by
  have hrequired : (required query).withFalse.Admissible :=
    ⟨fun c hc ↦ hadmissible.constraints c (mem_constraints_of_mem_required query hc),
      isPlainCondition_constant false⟩
  exact (hsolver.computeValue (required query) hrequired hplain
    (satisfiable_required hsatisfiable)).post fun _ ↦ hasValue_of_required hsatisfiable

end Required

end IndependentSolver

/-- The array has a value. -/
def Bound (retMap : Bindings) (array : SymArray) : Prop :=
  (retMap.find? fun binding ↦ binding.1 = array).isSome

/-- The values of the given arrays are taken over from an assignment: at the given elements, and
everywhere in an array that had no value. -/
structure Updates (elements : Finset (SymArray × Nat)) (arrays : List SymArray) (σ : Assignment)
    (retMap retMap' : Bindings) : Prop where
  complete : Bindings.Complete retMap'
  bound : ∀ array, Bound retMap' array ↔ Bound retMap array ∨ array ∈ arrays
  new : ∀ array ∈ arrays, ∀ index < array.size, (array, index) ∈ elements →
    Bindings.initialValue retMap' array index = byte σ array index
  fresh : ∀ array ∈ arrays, ∀ index < array.size, ¬ Bound retMap array →
    Bindings.initialValue retMap' array index = byte σ array index
  old : ∀ array, Bound retMap array → ∀ index < array.size, (array, index) ∉ elements →
    Bindings.initialValue retMap' array index = Bindings.initialValue retMap array index
  others : ∀ array, array ∉ arrays → ∀ index,
    Bindings.initialValue retMap' array index = Bindings.initialValue retMap array index

section Values

variable {elements : Finset (SymArray × Nat)} {retMap : Bindings} {array : SymArray}
  {σ : Assignment}

/-- A value is replaced where the array is bound. -/
theorem find_replace (f : List (BitVec 8)) (array' : SymArray) :
    (retMap.map fun binding ↦ (binding.1, if binding.1 = array then f else binding.2)).find?
        (fun binding ↦ binding.1 = array') =
      (retMap.find? fun binding ↦ binding.1 = array').map fun binding ↦
        (binding.1, if binding.1 = array then f else binding.2) := by
  rw [List.find?_map]
  rfl

theorem getD_overwrite {old bytes : List (BitVec 8)} {index : Nat} (h : index < old.length) :
    (overwrite elements array old bytes).getD index 0 =
      if (array, index) ∈ elements then bytes.getD index 0 else old.getD index 0 := by
  simp [overwrite, List.getD_eq_getElem?_getD, h]

theorem storeValue_updates (hcomplete : Bindings.Complete retMap) :
    Delivers (fun _ ↦ False) (storeValue elements retMap array (bytesOf (σ array)))
      (Updates elements [array] σ retMap) := by
  have hlength : (bytesOf (σ array)).length = array.size := Bindings.length_bytesOf (σ array)
  have hgetD {index : Nat} (h : index < array.size) :
      (bytesOf (σ array)).getD index 0 = byte σ array index := Bindings.getD_bytesOf _ h
  rw [storeValue]
  cases hfind : retMap.find? fun binding ↦ binding.1 = array with
  | some binding =>
    obtain ⟨found, old⟩ := binding
    have hfound : found = array := by simpa using List.find?_some hfind
    subst hfound
    have hold : old.length = found.size := hcomplete _ (List.mem_of_find?_eq_some hfind)
    have hbound : Bound retMap found := by
      rw [Bound, hfind]
      rfl
    dsimp only
    rw [if_pos (hold.trans hlength.symm)]
    have hthis {index : Nat} (hindex : index < found.size) : Bindings.initialValue
        (retMap.map fun binding ↦ (binding.1, if binding.1 = found then
          overwrite elements found old (bytesOf (σ found)) else binding.2)) found index =
        if (found, index) ∈ elements then byte σ found index
          else Bindings.initialValue retMap found index := by
      rw [Bindings.initialValue, find_replace, hfind, Bindings.initialValue, hfind]
      dsimp only [Option.map_some]
      rw [if_pos rfl, getD_overwrite (hold ▸ hindex), hgetD hindex]
    have hothers {array' : SymArray} (hne : array' ≠ found) (index : Nat) : Bindings.initialValue
        (retMap.map fun binding ↦ (binding.1, if binding.1 = found then
          overwrite elements found old (bytesOf (σ found)) else binding.2)) array' index =
        Bindings.initialValue retMap array' index := by
      rw [Bindings.initialValue, find_replace, Bindings.initialValue]
      cases hfind' : retMap.find? fun binding ↦ binding.1 = array' with
      | none => rfl
      | some binding =>
        have hkey : binding.1 = array' := by simpa using List.find?_some hfind'
        dsimp only [Option.map_some]
        rw [if_neg (hkey ▸ hne)]
    refine ⟨?_, fun array' ↦ ?_, fun array' h index hindex hmem ↦ ?_, fun array' h index hindex hfresh ↦ ?_,
      fun array' hbound' index hindex hmem ↦ ?_, fun array' h index ↦ ?_⟩
    · intro binding h
      obtain ⟨binding', h', rfl⟩ := List.mem_map.mp h
      dsimp only
      split_ifs with heq
      · rw [overwrite, List.length_mapIdx, hold, heq]
      · exact hcomplete binding' h'
    · rw [Bound, find_replace, Option.isSome_map, List.mem_singleton]
      exact ⟨.inl, fun h ↦ h.elim id fun h ↦ h ▸ hbound⟩
    · obtain rfl := List.mem_singleton.mp h
      rw [hthis hindex, if_pos hmem]
    · obtain rfl := List.mem_singleton.mp h
      exact absurd hbound hfresh
    · by_cases hne : array' = found
      · subst hne
        rw [hthis hindex, if_neg hmem]
      · exact hothers hne index
    · exact hothers (fun heq ↦ h (List.mem_singleton.mpr heq)) index
  | none =>
    have hnone : ¬ Bound retMap array := by
      rw [Bound, hfind]
      exact Bool.false_ne_true
    have hthis (index : Nat) : Bindings.initialValue (retMap ++ [(array, bytesOf (σ array))]) array
        index = (bytesOf (σ array)).getD index 0 := by
      rw [Bindings.initialValue, List.find?_append, hfind]
      simp
    have hothers {array' : SymArray} (hne : array' ≠ array) (index : Nat) :
        Bindings.initialValue (retMap ++ [(array, bytesOf (σ array))]) array' index =
          Bindings.initialValue retMap array' index := by
      rw [Bindings.initialValue, List.find?_append, Bindings.initialValue]
      simp [Ne.symm hne]
    refine ⟨?_, fun array' ↦ ?_, fun array' h index hindex _ ↦ ?_, fun array' h index hindex _ ↦ ?_,
      fun array' hbound index _ _ ↦ ?_, fun array' h index ↦ ?_⟩
    · intro binding h
      rcases List.mem_append.mp h with h | h
      · exact hcomplete binding h
      · obtain rfl := List.mem_singleton.mp h
        exact hlength
    · rw [Bound, List.find?_append, Option.isSome_or, Bool.or_eq_true]
      refine or_congr Iff.rfl ?_
      by_cases heq : array = array'
      · subst heq
        simp
      · simp [heq, Ne.symm heq]
    · obtain rfl := List.mem_singleton.mp h
      exact (hthis index).trans (hgetD hindex)
    · obtain rfl := List.mem_singleton.mp h
      exact (hthis index).trans (hgetD hindex)
    · exact hothers (fun heq ↦ hnone (heq ▸ hbound)) index
    · exact hothers (fun heq ↦ h (List.mem_singleton.mpr heq)) index

theorem storeValues_updates (elements : Finset (SymArray × Nat)) (σ : Assignment)
    {arrays : List SymArray} (hnodup : arrays.Nodup)
    (hcomplete : Bindings.Complete retMap) :
    Delivers (fun _ ↦ False) (storeValues elements
      (arrays.zip (arrays.map fun array ↦ bytesOf (σ array))) retMap)
      (Updates elements arrays σ retMap) := by
  induction arrays generalizing retMap with
  | nil =>
    have hnone {array : SymArray} (h : array ∈ ([] : List SymArray)) : False :=
      List.not_mem_nil h
    exact ⟨hcomplete, fun _ ↦ ⟨.inl, fun h ↦ h.resolve_right hnone⟩, fun _ h ↦ (hnone h).elim,
      fun _ h ↦ (hnone h).elim, fun _ _ _ _ _ ↦ rfl, fun _ _ _ ↦ rfl⟩
  | cons x rest ih =>
    obtain ⟨hx, hrest⟩ := List.nodup_cons.mp hnodup
    have hstore : Delivers (fun _ ↦ False) (storeValue elements retMap x (bytesOf (σ x)))
        (Updates elements [x] σ retMap) := storeValue_updates hcomplete
    refine hstore.bind fun retMap₁ h₁ ↦ ?_
    refine (ih hrest h₁.complete).post fun retMap₂ h₂ ↦ ?_
    have hne {array : SymArray} (h : array ∈ rest) : array ≠ x := fun heq ↦ hx (heq ▸ h)
    have hnot {array : SymArray} (h : array ∈ rest) : array ∉ [x] := fun h' ↦
      hne h (List.mem_singleton.mp h')
    refine ⟨h₂.complete, fun array ↦ ?_, fun array h index hindex hmem ↦ ?_,
      fun array h index hindex hfresh ↦ ?_, fun array hbound index hindex hmem ↦ ?_,
      fun array h index ↦ ?_⟩
    · rw [h₂.bound, h₁.bound, List.mem_singleton, List.mem_cons, or_assoc]
    · rcases List.mem_cons.mp h with rfl | h
      · exact (h₂.others array hx index).trans
          (h₁.new array List.mem_cons_self index hindex hmem)
      · exact h₂.new array h index hindex hmem
    · rcases List.mem_cons.mp h with rfl | h
      · exact (h₂.others array hx index).trans
          (h₁.fresh array List.mem_cons_self index hindex hfresh)
      · refine h₂.fresh array h index hindex fun hbound ↦ ?_
        exact ((h₁.bound array).mp hbound).elim hfresh (hnot h)
    · exact (h₂.old array ((h₁.bound array).mpr (.inl hbound)) index hindex hmem).trans
        (h₁.old array hbound index hindex hmem)
    · exact (h₂.others array (fun h' ↦ h (List.mem_cons_of_mem _ h')) index).trans
        (h₁.others array (fun h' ↦ h (List.mem_singleton.mp h' ▸ List.mem_cons_self)) index)

end Values

/-! ## The factors are solved one after the other -/

/-- What is known of a factor: its elements contain the bytes that its expressions read. -/
def IndependentElementSet.Admissible (factor : IndependentElementSet) : Prop :=
  factor.Covers Expr.elements ∧ ∀ e ∈ factor.exprs, e.IsPlainCondition

/-- The values solve the given factors, apart from those that read nothing. -/
structure Solved (factors : List IndependentElementSet) (retMap : Bindings) : Prop where
  complete : Bindings.Complete retMap
  bound : ∀ factor ∈ factors, ∀ x ∈ factor.elements, Bound retMap x.1
  holds : ∀ factor ∈ factors, factor.elements ≠ ∅ →
    AllHold (Bindings.assignment retMap) factor.exprs

/-- The expressions of a factor depend on its elements only. -/
theorem allHold_congr {factor : IndependentElementSet} (h : factor.Covers Expr.elements)
    {σ τ : Assignment} (hbytes : ∀ array, ∀ index < array.size, (array, index) ∈ factor.elements →
      byte σ array index = byte τ array index) : AllHold σ factor.exprs ↔ AllHold τ factor.exprs := by
  refine forall₂_congr fun e he ↦ ?_
  rw [Holds, Holds, bits_congr_bytes fun array index hpart ↦ ?_]
  by_cases hindex : index < array.size
  · exact hbytes array index hindex (h e he (mem_elements.mpr hpart))
  · rw [byte_of_le _ (not_lt.mp hindex), byte_of_le _ (not_lt.mp hindex)]

section Solving

variable [LinearOrder SymArray] {S : Type} {Inv : S → Prop} {Fails : Failure → Prop}
  {solver : SolverImpl S} {retMap : Bindings} {factor : IndependentElementSet}
  {done factors : List IndependentElementSet}

open IndependentSolver

theorem mem_calculateArrayReferences {array : SymArray} :
    array ∈ calculateArrayReferences factor ↔ ∃ index, (array, index) ∈ factor.elements := by
  rw [calculateArrayReferences, Finset.mem_sort, Finset.mem_image]
  constructor
  · rintro ⟨⟨array', index⟩, h, rfl⟩
    exact ⟨index, h⟩
  · exact fun ⟨index, h⟩ ↦ ⟨_, h, rfl⟩

/-- The values of a factor do not disturb those of the factors before it. -/
theorem Solved.step {retMap' : Bindings} {σ : Assignment} (hsolved : Solved done retMap)
    (hdone : ∀ f ∈ done, f.Admissible) (hfactor : factor.Admissible)
    (hdisjoint : ∀ f ∈ done, ¬ f.Intersects factor)
    (hupdates : Updates factor.elements (calculateArrayReferences factor) σ retMap retMap')
    (hσ : AllHold σ factor.exprs) : Solved (done ++ [factor]) retMap' := by
  have hbyte {b : Bindings} {array : SymArray} {index : Nat} (h : index < array.size) :
      byte (Bindings.assignment b) array index = Bindings.initialValue b array index :=
    Bindings.byte_assignment b h
  refine ⟨hupdates.complete, fun f hf x hx ↦ ?_, fun f hf hne ↦ ?_⟩
  · rcases List.mem_append.mp hf with hf | hf
    · exact (hupdates.bound x.1).mpr (.inl (hsolved.bound f hf x hx))
    · obtain rfl := List.mem_singleton.mp hf
      exact (hupdates.bound x.1).mpr (.inr (mem_calculateArrayReferences.mpr ⟨x.2, hx⟩))
  · rcases List.mem_append.mp hf with hf | hf
    · refine (allHold_congr (hdone f hf).1 fun array index hindex hmem ↦ ?_).mp
        (hsolved.holds f hf hne)
      rw [hbyte hindex, hbyte hindex]
      exact (hupdates.old array (hsolved.bound f hf _ hmem) index hindex
        fun h ↦ hdisjoint f hf ⟨_, hmem, h⟩).symm
    · obtain rfl := List.mem_singleton.mp hf
      refine (allHold_congr hfactor.1 fun array index hindex hmem ↦ ?_).mp hσ
      rw [hbyte hindex]
      exact (hupdates.new array (mem_calculateArrayReferences.mpr ⟨index, hmem⟩) index hindex
        hmem).symm

omit [LinearOrder SymArray] in
/-- Nothing has to be solved for a factor that reads nothing. -/
theorem Solved.skip (hsolved : Solved done retMap) (hempty : factor.elements = ∅) :
    Solved (done ++ [factor]) retMap := by
  refine ⟨hsolved.complete, fun f hf x hx ↦ ?_, fun f hf hne ↦ ?_⟩
  · rcases List.mem_append.mp hf with hf | hf
    · exact hsolved.bound f hf x hx
    · obtain rfl := List.mem_singleton.mp hf
      exact absurd hx (hempty ▸ Finset.notMem_empty x)
  · rcases List.mem_append.mp hf with hf | hf
    · exact hsolved.holds f hf hne
    · obtain rfl := List.mem_singleton.mp hf
      exact absurd hempty hne

theorem solveFactors_yields (hsolver : solver.Correct Inv Fails)
    (hadmissible : ∀ f ∈ done ++ factors, f.Admissible)
    (hdisjoint : (done ++ factors).Pairwise fun a b ↦ ¬ a.Intersects b)
    (hsolved : Solved done retMap) :
    Yields Inv Fails (solveFactors solver factors retMap) fun result ↦
      match result with
      | none => ∃ f ∈ factors, ∀ σ, ¬ AllHold σ f.exprs
      | some retMap' => Solved (done ++ factors) retMap' := by
  induction factors generalizing done retMap with
  | nil => exact Yields.ret (by rwa [List.append_nil])
  | cons factor rest ih =>
    have happend : done ++ factor :: rest = done ++ [factor] ++ rest := by
      rw [List.append_assoc, List.singleton_append]
    have hdone : ∀ f ∈ done, f.Admissible :=
      fun f hf ↦ hadmissible f (List.mem_append_left _ hf)
    have hfactor : factor.Admissible :=
      hadmissible factor (List.mem_append_right _ List.mem_cons_self)
    have hbefore : ∀ f ∈ done, ¬ f.Intersects factor := fun f hf ↦
      (List.pairwise_append.mp hdisjoint).2.2 f hf factor List.mem_cons_self
    rw [happend] at hadmissible hdisjoint ⊢
    have hrest {retMap : Bindings} (h : Solved (done ++ [factor]) retMap) :
        Yields Inv Fails (solveFactors solver rest retMap) fun result ↦
          match result with
          | none => ∃ f ∈ factor :: rest, ∀ σ, ¬ AllHold σ f.exprs
          | some retMap' => Solved (done ++ [factor] ++ rest) retMap' :=
      (ih hadmissible hdisjoint h).post fun result hresult ↦ by
        cases result with
        | none => exact hresult.imp fun f hf ↦ ⟨List.mem_cons_of_mem _ hf.1, hf.2⟩
        | some retMap' => exact hresult
    refine Yields.ite (fun hnil ↦ ?_) fun hne ↦ ?_
    · refine hrest (hsolved.skip (Finset.eq_empty_iff_forall_notMem.mpr fun x hx ↦ ?_))
      have hmem := mem_calculateArrayReferences.mpr ⟨x.2, hx⟩
      rw [hnil] at hmem
      exact List.not_mem_nil hmem
    · have hquery : (⟨factor.exprs, constant (.ofBool false)⟩ : Query).Admissible :=
        ⟨hfactor.2, isPlainCondition_constant false⟩
      refine (hsolver.computeInitialValues _ (calculateArrayReferences factor) hquery).bind
        fun values hvalues ↦ ?_
      cases values with
      | none =>
        refine Yields.ret ⟨factor, List.mem_cons_self, fun σ hσ ↦ ?_⟩
        exact ConstraintManager.not_holds_false σ (hvalues σ hσ)
      | some tempValues =>
        obtain ⟨σ, hσ, -, rfl⟩ := hvalues
        have hlength : ((calculateArrayReferences factor).map fun array ↦ bytesOf (σ array)).length =
            (calculateArrayReferences factor).length := List.length_map _
        have hassert : Yields Inv Fails (assert (S := S)
            (((calculateArrayReferences factor).map fun array ↦ bytesOf (σ array)).length =
              (calculateArrayReferences factor).length)) fun _ ↦ True :=
          Yields.ite (fun _ ↦ Yields.ret trivial) fun h ↦ absurd hlength h
        refine hassert.bind fun _ _ ↦ ?_
        have hstore := storeValues_updates factor.elements σ
          (Finset.sort_nodup _ _ : (calculateArrayReferences factor).Nodup) hsolved.complete
        refine (yields_lift (hstore.conseq (fun _ h ↦ h) fun _ ↦ False.elim)).bind
          fun retMap' hupdates ↦ ?_
        exact hrest (hsolved.step hdone hfactor hbefore hupdates hσ)

end Solving

section Check

variable {retMap : Bindings} {objects : List SymArray}

theorem index_lt {e : Expr} (hwell : e.WellTyped) {array : SymArray} {index : Nat}
    (h : .byte array index ∈ e.parts) : index < array.size := by
  induction e with
  | constant value => exact absurd h List.not_mem_nil
  | read array' index' =>
    cases List.mem_singleton.mp h
    exact hwell
  | concat left right ihl ihr =>
    exact (List.mem_append.mp h).elim (ihl hwell.1) (ihr hwell.2)
  | extract expr offset width ih => exact ih hwell.1 h
  | not expr ih => exact ih hwell h
  | zext src width ih => exact ih hwell.1 h
  | sext src width ih => exact ih hwell.1 h
  | arithmetic kind left right ihl ihr =>
    rcases mem_addArithmetic.mp h with ⟨h, -⟩ | ⟨h, -⟩ | h
    · cases h
    · cases h
    · exact (List.mem_append.mp h).elim (ihl hwell.1) (ihr hwell.2.1)
  | comparison kind left right ihl ihr =>
    rcases mem_addComparison.mp h with ⟨h, -⟩ | h
    · cases h
    · exact (List.mem_append.mp h).elim (ihl hwell.1) (ihr hwell.2.1)

/-- Conditions all of whose bytes are bound are evaluated to their truth. -/
theorem evaluateToTrue_eq {assign : Bindings} {es : List Expr}
    (hplain : ∀ e ∈ es, e.IsPlainCondition)
    (hbound : ∀ e ∈ es, ∀ array index, .byte array index ∈ e.parts →
      Bindings.isBound assign array index = true) :
    evaluateToTrue assign es = .ok (decide (AllHold (Bindings.assignment assign) es)) := by
  induction es with
  | nil => rfl
  | cons e rest ih =>
    obtain ⟨he, hrest⟩ := List.forall_mem_cons.mp hplain
    obtain ⟨hboundHead, hboundRest⟩ := List.forall_mem_cons.mp hbound
    have hiff : AllHold (Bindings.assignment assign) (e :: rest) ↔
        e.Holds (Bindings.assignment assign) ∧ AllHold (Bindings.assignment assign) rest :=
      List.forall_mem_cons
    rw [evaluateToTrue, evaluateFree_eq hboundHead, evaluate_eq he.1.1 he.1.no_division]
    change (if _ then _ else _) = _
    by_cases htrue : e.Holds (Bindings.assignment assign)
    · rw [if_pos ((isTrue_eval_iff he.2 _).mpr htrue), ih hrest hboundRest]
      simp only [hiff, htrue, true_and]
    · rw [if_neg fun h ↦ htrue ((isTrue_eval_iff he.2 _).mp h)]
      simp only [hiff, htrue, false_and, decide_false]
      rfl

/-- The created point together with the values of the factors gives every array the same value as
the values of the factors alone. -/
theorem assignment_createdPoint (hcomplete : Bindings.Complete retMap) :
    Bindings.assignment (objects.zip (Bindings.valuesOf retMap objects) ++ retMap) =
      Bindings.assignment retMap := by
  rw [Bindings.valuesOf_eq hcomplete]
  funext array
  by_cases h : array ∈ objects
  · refine Bindings.assignment_eq (?_ : _ = some (array, _))
    rw [List.find?_append, Bindings.find_zip h]
    rfl
  · have hnone : (objects.zip (objects.map fun array ↦
        bytesOf (Bindings.assignment retMap array))).find?
          (fun binding ↦ binding.1 = array) = none := by
      refine List.find?_eq_none.mpr fun binding hmem heq ↦ h ?_
      exact of_decide_eq_true heq ▸ (List.of_mem_zip hmem).1
    refine congrArg (fun f ↦ Lib.Bytes.word f (8 * array.size) 0) (funext fun index ↦ ?_)
    rw [Bindings.initialValue, List.find?_append, hnone]
    rfl

theorem isBound_createdPoint (hcomplete : Bindings.Complete retMap) {array : SymArray}
    (hbound : Bound retMap array) {index : Nat} (h : index < array.size) :
    Bindings.isBound (objects.zip (Bindings.valuesOf retMap objects) ++ retMap) array index =
      true := by
  rw [Bindings.valuesOf_eq hcomplete, Bindings.isBound, List.find?_append]
  by_cases hmem : array ∈ objects
  · rw [Bindings.find_zip hmem]
    simp [Bindings.length_bytesOf, h]
  · have hcompleteZip := Bindings.complete_zip objects (Bindings.assignment retMap)
    cases hfind : (objects.zip (objects.map fun array ↦
        bytesOf (Bindings.assignment retMap array))).find? fun binding ↦ binding.1 = array with
    | some binding =>
      have hkey : binding.1 = array := by simpa using List.find?_some hfind
      have hlength := hcompleteZip binding (List.mem_of_find?_eq_some hfind)
      simp [hlength, hkey, h]
    | none =>
      obtain ⟨binding, hfind'⟩ := Option.isSome_iff_exists.mp hbound
      have hkey : binding.1 = array := by simpa using List.find?_some hfind'
      have hlength := hcomplete binding (List.mem_of_find?_eq_some hfind')
      rw [hfind']
      simp [hlength, hkey, h]

end Check

/-! ## Counterexamples -/

/-- What reads nothing holds. -/
structure Query.Grounded (query : Query) : Prop where
  constraints : ∀ c ∈ query.constraints, c.elements = ∅ → ∀ σ, c.Holds σ
  expr : query.negateExpr.expr.elements = ∅ → ∀ σ, query.negateExpr.expr.Holds σ

section InitialValues

variable {query : Query}

/-- The factors are disjoint and have the same expressions as the query. -/
structure Partition (query : Query) (factors : List IndependentElementSet) : Prop where
  admissible : ∀ f ∈ factors, f.Admissible
  disjoint : factors.Pairwise fun a b ↦ ¬ a.Intersects b
  mem_iff : ∀ e, (∃ f ∈ factors, e ∈ f.exprs) ↔
    e ∈ query.constraints ∨ (e = query.negateExpr.expr ∧ ∀ a, query.expr ≠ constant a)

theorem merge_partition (hadmissible : query.Admissible) {first : List IndependentElementSet}
    (hfirst : ∀ f, f ∈ first ↔ f = .ofExpr query.negateExpr.expr ∧ ∀ a, query.expr ≠ constant a) :
    Partition query (Factor.merge (first ++ query.constraints.map .ofExpr)) := by
  have hcovers : ∀ f ∈ first ++ query.constraints.map IndependentElementSet.ofExpr,
      f.Covers Expr.elements := by
    have hof (e : Expr) : (IndependentElementSet.ofExpr e).Covers Expr.elements := by
      intro e' he'
      obtain rfl := List.mem_singleton.mp he'
      exact Finset.Subset.refl _
    intro f hf
    rcases List.mem_append.mp hf with hf | hf
    · exact ((hfirst f).mp hf).1 ▸ hof _
    · obtain ⟨c, -, rfl⟩ := List.mem_map.mp hf
      exact hof c
  have hmem (e : Expr) : (∃ f ∈ Factor.merge (first ++ query.constraints.map .ofExpr),
      e ∈ f.exprs) ↔
      e ∈ query.constraints ∨ (e = query.negateExpr.expr ∧ ∀ a, query.expr ≠ constant a) := by
    rw [← List.mem_flatMap]
    refine ((Factor.merge_items _).mem_iff).trans ?_
    rw [Factor.items, List.mem_flatMap]
    constructor
    · rintro ⟨f, hf, he⟩
      rcases List.mem_append.mp hf with hf | hf
      · obtain ⟨rfl, hne⟩ := (hfirst f).mp hf
        exact .inr ⟨List.mem_singleton.mp he, hne⟩
      · obtain ⟨c, hc, rfl⟩ := List.mem_map.mp hf
        exact .inl (List.mem_singleton.mp he ▸ hc)
    · rintro (hc | ⟨rfl, hne⟩)
      · exact ⟨_, List.mem_append_right _ (List.mem_map_of_mem hc), List.mem_singleton_self e⟩
      · exact ⟨_, List.mem_append_left _ ((hfirst _).mpr ⟨rfl, hne⟩), List.mem_singleton_self _⟩
  refine ⟨fun f hf ↦ ⟨Factor.merge_covers hcovers f hf, fun e he ↦ ?_⟩, Factor.merge_disjoint _, hmem⟩
  rcases (hmem e).mp ⟨f, hf, he⟩ with h | ⟨rfl, -⟩
  · exact hadmissible.constraints e h
  · exact hadmissible.negateExpr.expr

theorem getAllIndependentConstraintsSets_delivers (hadmissible : query.Admissible) :
    Delivers (fun stop ↦ stop = .assertion ∧ ¬ query.Grounded)
      (getAllIndependentConstraintsSets query) (Partition query) := by
  rw [getAllIndependentConstraintsSets]
  cases hexpr : query.expr with
  | constant a =>
    dsimp only
    rcases ConstantExpr.isTrue_or_isFalse (hexpr ▸ hadmissible.expr.2 : (constant a).getWidth = 1)
      with rfl | rfl
    · refine ⟨rfl, fun hgrounded ↦ ?_⟩
      have hneg : query.negateExpr.expr = constant (.ofBool false) := by
        rw [Query.negateExpr, hexpr]
        rfl
      refine ConstraintManager.not_holds_false (fun _ ↦ 0) ?_
      rw [← hneg]
      exact hgrounded.expr (by rw [hneg]; rfl) _
    · refine merge_partition hadmissible fun f ↦ iff_of_false List.not_mem_nil ?_
      exact fun h ↦ h.2 _ hexpr
  | _ =>
    dsimp only
    rw [← hexpr]
    refine merge_partition hadmissible fun f ↦ ?_
    rw [List.mem_singleton, and_iff_left fun a h ↦ ?_]
    · rfl
    · rw [hexpr] at h
      cases h

variable [LinearOrder SymArray] {S : Type} {Inv : S → Prop} {Fails : Failure → Prop}
  {solver : SolverImpl S} {factors : List IndependentElementSet} {retMap : Bindings}

omit [LinearOrder SymArray] in
/-- What reads a byte is in a factor that reads it. -/
theorem Partition.exists_factor (hpartition : Partition query factors)
    (hadmissible : query.Admissible) {e : Expr}
    (he : e ∈ query.constraints ++ [query.negateExpr.expr]) (hne : e.elements ≠ ∅) :
    ∃ f ∈ factors, e ∈ f.exprs ∧ e.elements ⊆ f.elements := by
  have hmem : e ∈ query.constraints ∨ (e = query.negateExpr.expr ∧ ∀ a, query.expr ≠ constant a) := by
    refine (List.mem_append.mp he).imp_right fun h ↦ ?_
    obtain rfl := List.mem_singleton.mp h
    refine ⟨rfl, fun a ha ↦ hne (Finset.eq_empty_iff_forall_notMem.mpr fun ⟨array, index⟩ hx ↦ ?_)⟩
    have hpart := mem_parts_of_createIsZero hadmissible.expr.1.1 (mem_elements.mp hx)
    rw [ha] at hpart
    exact List.not_mem_nil hpart
  obtain ⟨f, hf, hef⟩ := (hpartition.mem_iff e).mpr hmem
  exact ⟨f, hf, hef, (hpartition.admissible f hf).1 e hef⟩

omit [LinearOrder SymArray] in
theorem Partition.valid_of_unsatisfiable (hpartition : Partition query factors)
    (hadmissible : query.Admissible) {f : IndependentElementSet} (hf : f ∈ factors)
    (hunsat : ∀ σ, ¬ AllHold σ f.exprs) : query.Valid := by
  intro σ hσ
  by_contra hexpr
  refine hunsat σ fun e he ↦ ?_
  rcases (hpartition.mem_iff e).mp ⟨f, hf, he⟩ with hc | ⟨rfl, -⟩
  · exact hσ e hc
  · exact (holds_createIsZero hadmissible.expr.isCondition σ).mpr hexpr

omit [LinearOrder SymArray] in
/-- The check of the point that the factors give decides whether the point solves the query. -/
theorem assertCreatedPoint_eq (hpartition : Partition query factors)
    (hadmissible : query.Admissible) (hsolved : Solved factors retMap) (objects : List SymArray) :
    assertCreatedPointEvaluatesToTrue query objects (Bindings.valuesOf retMap objects) retMap =
      .ok (decide (AllHold (Bindings.assignment retMap)
        (query.constraints ++ [query.negateExpr.expr]))) := by
  have hplain : ∀ e ∈ query.constraints ++ [query.negateExpr.expr], e.IsPlainCondition := by
    refine List.forall_mem_append.mpr ⟨hadmissible.constraints, List.forall_mem_singleton.mpr ?_⟩
    exact hadmissible.negateExpr.expr
  refine (evaluateToTrue_eq hplain fun e he array index hpart ↦ ?_).trans ?_
  · have hmem : (array, index) ∈ e.elements := mem_elements.mpr hpart
    obtain ⟨f, hf, -, hsub⟩ := hpartition.exists_factor hadmissible he
      (Finset.ne_empty_of_mem hmem)
    exact isBound_createdPoint hsolved.complete (hsolved.bound f hf _ (hsub hmem))
      (index_lt (hplain e he).1.1 hpart)
  · simp only [assignment_createdPoint hsolved.complete]

/-- The values of the factors solve the query, or the query has no solution. The check can fail
only if something reads nothing and does not hold. -/
theorem IndependentSolver.computeInitialValues_yields (hsolver : solver.Correct Inv Fails)
    (hadmissible : query.Admissible) (objects : List SymArray) :
    Yields Inv (fun e ↦ Fails e ∨ e = .stopped .assertion ∧ ¬ query.Grounded)
      (computeInitialValues solver query objects) (query.Solution objects) := by
  have hsets : Delivers (fun stop ↦ Fails (.stopped stop) ∨
      Failure.stopped stop = .stopped .assertion ∧ ¬ query.Grounded)
      (getAllIndependentConstraintsSets query) (Partition query) :=
    (getAllIndependentConstraintsSets_delivers hadmissible).conseq (fun _ h ↦ h)
      fun stop h ↦ .inr ⟨congrArg _ h.1, h.2⟩
  refine (yields_lift hsets).bind fun factors hpartition ↦ ?_
  have hempty : Solved [] [] :=
    ⟨fun _ h ↦ absurd h List.not_mem_nil, fun _ h ↦ absurd h List.not_mem_nil,
      fun _ h ↦ absurd h List.not_mem_nil⟩
  have hdisjoint : ([] ++ factors).Pairwise fun a b ↦ ¬ Factor.Intersects a b :=
    hpartition.disjoint
  have hsolve := solveFactors_yields hsolver hpartition.admissible hdisjoint hempty
  refine (hsolve.conseq (fun _ h ↦ h) fun _ h ↦ .inl h).bind fun result hresult ↦ ?_
  cases result with
  | none =>
    obtain ⟨f, hf, hunsat⟩ := hresult
    exact Yields.ret (hpartition.valid_of_unsatisfiable hadmissible hf hunsat)
  | some retMap =>
    have hsolved : Solved factors retMap := hresult
    dsimp only
    rw [assertCreatedPoint_eq hpartition hadmissible hsolved]
    change Yields Inv _ (assert _ >>= _) _
    refine Yields.bind (Q := fun _ ↦ AllHold (Bindings.assignment retMap)
      (query.constraints ++ [query.negateExpr.expr])) (Yields.ite (fun h ↦ ?_) fun h ↦ ?_)
      fun _ hall ↦ ?_
    · exact Yields.ret (of_decide_eq_true h)
    · refine Yields.raise (.inr ⟨rfl, fun hgrounded ↦ h (decide_eq_true fun e he ↦ ?_)⟩)
      by_cases hreads : e.elements = ∅
      · rcases List.mem_append.mp he with hc | hneg
        · exact hgrounded.constraints e hc hreads _
        · obtain rfl := List.mem_singleton.mp hneg
          exact hgrounded.expr hreads _
      · obtain ⟨f, hf, hef, hsub⟩ := hpartition.exists_factor hadmissible he hreads
        refine hsolved.holds f hf (fun hnone ↦ hreads ?_) e hef
        exact Finset.subset_empty.mp (hnone ▸ hsub)
    · obtain ⟨hconstraints, hneg⟩ := allHold_append.mp hall
      refine Yields.ret ⟨_, hconstraints, ?_, Bindings.valuesOf_eq hsolved.complete objects⟩
      exact (holds_createIsZero hadmissible.expr.isCondition _).mp (allHold_singleton.mp hneg)

end InitialValues

end CoverageVP.Klee
