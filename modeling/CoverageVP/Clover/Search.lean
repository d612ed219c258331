import CoverageVP.Clover.ExecutionTree

/-!
# The search for a new path

What the solver is asked about the path to a picked node, and what its answer says: either no input
takes the other side of the node, or the model that was found does. A search ends with a model, or
with an execution tree that has the path of every input.
-/

namespace CoverageVP.Clover

open Lib

/-! ## Queries -/

section Query

open Branch

variable {klee : Klee} {cs : List Expr} {Γ : Assignment → Prop}

/-- The arrays that a path and a set of constraints read. -/
def readsOf (path : Path) (cs : List Expr) : List SymArray :=
  path.flatMap (fun entry ↦ entry.1.findSymbolicObjects) ++ cs.flatMap Expr.findSymbolicObjects

theorem holds_branchCondition {bv : Expr} (hwidth : bv.getWidth = 1) (cond : Bool)
    (σ : Assignment) : (Trace.branchCondition bv cond).Holds σ ↔ decides σ bv = cond := by
  cases cond with
  | true =>
    rw [Trace.branchCondition, if_pos rfl, Expr.holds_eqTrue σ hwidth]
    simp [decides]
  | false =>
    rw [Trace.branchCondition, if_neg (by decide), Expr.holds_eqFalse σ hwidth]
    simp [decides]

theorem findSymbolicObjects_branchCondition (bv : Expr) (cond : Bool) :
    (Trace.branchCondition bv cond).findSymbolicObjects = bv.findSymbolicObjects := by
  cases cond <;> simp [Trace.branchCondition, Expr.eqTrue, Expr.eqFalse, Expr.findSymbolicObjects]

/-- Negating twice, as the tracer and the solver do, keeps the meaning of a condition. -/
theorem holds_createIsZero_createIsZero (hk : klee.Lawful) {e : Expr} {σ : Assignment} {b : Bool}
    (he : e.eval σ = .ofBool b) :
    (klee.createIsZero (klee.createIsZero e)).Holds σ ↔ b = true := by
  rw [Expr.Holds, hk.createIsZero_eval, hk.createIsZero_eval, he]
  cases b <;> decide

theorem eval_branchCondition (bv : Expr) (cond : Bool) (σ : Assignment) :
    ∃ b, (Trace.branchCondition bv cond).eval σ = .ofBool b := by
  cases cond
  all_goals exact ⟨_, rfl⟩

/-- What the answer of the solver says about a query whose constraints mean `Γ` and whose negated
expression means `P`. -/
theorem getAssignment_spec (hk : klee.Lawful) (query : Query) {P : Assignment → Prop}
    (hcs : ∀ σ, AllHold σ query.constraints ↔ Γ σ)
    (hmeaning : ∀ σ, Γ σ → ((klee.createIsZero query.expr).Holds σ ↔ P σ)) :
    (Solver.getAssignment klee query = none → ∀ σ, Γ σ → P σ) ∧
    ∀ assign, Solver.getAssignment klee query = some assign →
      ∃ (objects : List SymArray) (τ : Assignment),
        assign = objects.map (fun array ↦ (array, bytesOf (τ array))) ∧
        objects = (klee.createIsZero query.expr).findSymbolicObjects ++
          query.constraints.flatMap Expr.findSymbolicObjects ∧
        ∀ σ, (∀ array ∈ objects, σ array = τ array) → Γ σ ∧ ¬ P σ := by
  by_cases htrue : klee.createIsZero query.expr = .constant (.ofBool true)
  · have hnone : Solver.getAssignment klee query = none := if_pos htrue
    rw [hnone]
    refine ⟨fun _ σ hσ ↦ (hmeaning σ hσ).mp ?_, fun assign h ↦ by cases h⟩
    rw [htrue]
    rfl
  · have hask : Solver.getAssignment klee query = _ := if_neg htrue
    rw [hask]
    refine ⟨?_, ?_⟩
    · intro hnone σ hσ
      rw [Option.map_eq_none_iff] at hnone
      exact (hmeaning σ hσ).mp (hk.getInitialValues_none _ _ _ hnone σ ((hcs σ).mpr hσ))
    · intro assign hsome
      obtain ⟨values, hvalues, rfl⟩ := Option.map_eq_some_iff.mp hsome
      obtain ⟨τ, hτ, hnot, rfl⟩ := hk.getInitialValues_some _ _ _ _ hvalues
      refine ⟨_, τ, List.map_prod_left_eq_zip.symm, rfl, ?_⟩
      intro σ hσ
      have hall : AllHold σ query.constraints := by
        intro c hc
        refine (Expr.holds_congr fun array ha ↦ hσ array ?_).mpr (hτ c hc)
        exact List.mem_append_right _ (List.mem_flatMap.mpr ⟨c, hc, ha⟩)
      have hnq : ¬ (klee.createIsZero query.expr).Holds σ := by
        intro hholds
        exact hnot ((Expr.holds_congr fun array ha ↦ hσ array
          (List.mem_append_left _ ha)).mp hholds)
      have hΓ := (hcs σ).mp hall
      exact ⟨hΓ, fun h ↦ hnq ((hmeaning σ hΓ).mpr h)⟩

/-- What the solver is asked about the last node of a path. -/
theorem getAssignment_last (hk : klee.Lawful) {bv : Expr} (cond : Bool)
    (hwidth : bv.getWidth = 1) (hcs : ∀ σ, AllHold σ cs ↔ Γ σ) :
    ∃ query, Trace.newQuery klee cs [(bv, cond)] = some query ∧
      (Solver.getAssignment klee query = none → ∀ σ, Γ σ → decides σ bv = cond) ∧
      ∀ assign, Solver.getAssignment klee query = some assign →
        ∃ (objects : List SymArray) (τ : Assignment),
          assign = objects.map (fun array ↦ (array, bytesOf (τ array))) ∧
          objects ⊆ readsOf [(bv, cond)] cs ∧
          ∀ σ, (∀ array ∈ objects, σ array = τ array) → Γ σ ∧ decides σ bv ≠ cond := by
  have hmeaning : ∀ σ, Γ σ → ((klee.createIsZero (klee.createIsZero
      (klee.simplifyExpr cs (Trace.branchCondition bv cond)))).Holds σ ↔ decides σ bv = cond) := by
    intro σ hσ
    obtain ⟨b, hb⟩ := eval_branchCondition bv cond σ
    rw [holds_createIsZero_createIsZero hk
        ((hk.simplifyExpr_eval cs _ σ ((hcs σ).mpr hσ)).trans hb),
      ← holds_branchCondition hwidth cond σ, Expr.Holds, hb]
    cases b <;> decide
  have hreads : (klee.createIsZero (klee.createIsZero
      (klee.simplifyExpr cs (Trace.branchCondition bv cond)))).findSymbolicObjects ⊆
        readsOf [(bv, cond)] cs := by
    have hsimplify := hk.simplifyExpr_reads cs (Trace.branchCondition bv cond)
    rw [findSymbolicObjects_branchCondition] at hsimplify
    refine List.Subset.trans (hk.createIsZero_reads _)
      (List.Subset.trans (hk.createIsZero_reads _) ?_)
    simpa [readsOf] using hsimplify
  refine ⟨_, rfl, ?_⟩
  obtain ⟨hnone, hsome⟩ := getAssignment_spec hk (Query.negateExpr klee
    ⟨cs, klee.simplifyExpr cs (Trace.branchCondition bv cond)⟩) hcs hmeaning
  refine ⟨hnone, fun assign h ↦ ?_⟩
  obtain ⟨objects, τ, hassign, rfl, hmodel⟩ := hsome assign h
  exact ⟨_, τ, hassign, List.append_subset.mpr ⟨hreads, List.subset_append_right _ _⟩, hmodel⟩

/-- What the solver is asked about a path, and what its answer says. -/
theorem getAssignment_newQuery (hk : klee.Lawful) {path : Path} (hne : path ≠ [])
    (hwidth : ∀ entry ∈ path, entry.1.getWidth = 1) (hcs : ∀ σ, AllHold σ cs ↔ Γ σ)
    (hsat : ∃ τ, Γ τ ∧ Reaches τ path) :
    ∃ query, Trace.newQuery klee cs path = some query ∧
      (Solver.getAssignment klee query = none → ∀ σ, Γ σ → ¬ Selects σ path) ∧
      ∀ assign, Solver.getAssignment klee query = some assign →
        ∃ (objects : List SymArray) (τ : Assignment),
          assign = objects.map (fun array ↦ (array, bytesOf (τ array))) ∧
          objects ⊆ readsOf path cs ∧
          ∀ σ, (∀ array ∈ objects, σ array = τ array) → Γ σ ∧ Selects σ path := by
  induction path generalizing cs Γ with
  | nil => exact absurd rfl hne
  | cons entry rest ih =>
    obtain ⟨bv, cond⟩ := entry
    have hbv : bv.getWidth = 1 := hwidth (bv, cond) List.mem_cons_self
    cases rest with
    | nil =>
      obtain ⟨query, hquery, hnone, hsome⟩ := getAssignment_last hk cond hbv hcs
      exact ⟨query, hquery, fun h σ hσ hsel ↦ hsel (hnone h σ hσ), hsome⟩
    | cons next rest =>
      have hcs' : ∀ σ, AllHold σ (klee.addConstraint cs (Trace.branchCondition bv cond)) ↔
          side Γ bv cond σ := by
        intro σ
        obtain ⟨τ, hτ, hd, -⟩ := hsat
        rw [hk.addConstraint_holds cs _ ⟨τ, (hcs τ).mpr hτ,
          (holds_branchCondition hbv cond τ).mpr hd⟩, hcs, holds_branchCondition hbv]
        rfl
      have hsat' : ∃ τ, side Γ bv cond τ ∧ Reaches τ (next :: rest) := by
        obtain ⟨τ, hτ, hd, hreaches⟩ := hsat
        exact ⟨τ, ⟨hτ, hd⟩, hreaches⟩
      obtain ⟨query, hquery, hnone, hsome⟩ := ih (List.cons_ne_nil _ _)
        (fun entry hentry ↦ hwidth entry (List.mem_cons_of_mem _ hentry)) hcs' hsat'
      refine ⟨query, hquery, ?_, ?_⟩
      · intro h σ hσ hsel
        exact hnone h σ ⟨hσ, hsel.1⟩ hsel.2
      · intro assign h
        obtain ⟨objects, τ, hassign, hreads, hmodel⟩ := hsome assign h
        refine ⟨objects, τ, hassign, List.Subset.trans hreads ?_, ?_⟩
        · have hadd := hk.addConstraint_reads cs (Trace.branchCondition bv cond)
          rw [findSymbolicObjects_branchCondition] at hadd
          intro array harray
          rcases List.mem_append.mp harray with hpath | hcs
          · exact List.mem_append_left _ (List.mem_append_right _ hpath)
          · rcases List.mem_append.mp (hadd hcs) with hbv | hcs
            · exact List.mem_append_left _ (List.mem_append_left _ hbv)
            · exact List.mem_append_right _ hcs
        · intro σ hσ
          obtain ⟨⟨hΓ, hd⟩, hsel⟩ := hmodel σ hσ
          exact ⟨hΓ, hd, hsel⟩

end Query

/-! ## New paths -/

section FindNewPath

open Branch

variable {klee : Klee} {tree : DecisionTree Expr} {trace : Trace}

/-- The arrays that the conditions of a tree read. -/
def treeReads (tree : DecisionTree Expr) : List SymArray :=
  tree.conds.flatMap Expr.findSymbolicObjects

/-- The outcome of the search for a new path: all paths are executed, or the solver returned a model
under which the next run completes a node. -/
inductive Searched (tree : DecisionTree Expr) (root root' : Branch) : Option Bindings → Prop
  | done : (∀ σ, root.HasLeaf (tree.follow (decides σ))) → Searched tree root root' none
  | found {objects : List SymArray} {τ : Assignment} : objects ⊆ treeReads tree →
      (∀ σ, (∀ array ∈ objects, σ array = τ array) →
        Pending σ (fun _ ↦ True) root' tree) →
      (∀ path, root'.HasLeaf path ↔ root.HasLeaf path) →
      Searched tree root root' (some (objects.map fun array ↦ (array, bytesOf (τ array))))

/-- A pick without a model leaves the search where it was. -/
theorem Searched.of_picked {root root₁ root' : Branch} {found : Option Bindings}
    (h : Searched tree root₁ root' found)
    (hleaf : ∀ path, root₁.HasLeaf path ↔ root.HasLeaf path) :
    Searched tree root root' found := by
  cases h with
  | done hall => exact .done fun σ ↦ (hleaf _).mp (hall σ)
  | found hreads hpending hleaf' =>
    exact .found hreads hpending fun path ↦ (hleaf' path).trans (hleaf path)

theorem findNewPath_searched (hk : klee.Lawful) (hwidth : ∀ c ∈ tree.conds, c.getWidth = 1)
    (trace : Trace) (rand : RandSource)
    (he : Explored (fun _ ↦ True) trace.pathCondsRoot tree) (hne : trace.pathCondsRoot ≠ .null) :
    ∃ found trace' rand', trace.findNewPath klee rand = some (found, trace', rand') ∧
      Searched tree trace.pathCondsRoot trace'.pathCondsRoot found := by
  induction hn : trace.pathCondsRoot.openNodes using Nat.strong_induction_on
    generalizing trace rand with
  | _ n ih =>
    rw [Trace.findNewPath]
    rcases getRandomPath_cases trace.pathCondsRoot rand with
      ⟨path, root, rand', hpath, hpicked⟩ | ⟨rand', hpath, hexhausted⟩
    · have hconds : ∀ entry ∈ path, entry.1 ∈ tree.conds := hpicked.conds he
      have hcs : ∀ σ, AllHold σ [] ↔ True := by simp [AllHold]
      obtain ⟨query, hquery, hnone, hsome⟩ := getAssignment_newQuery hk hpicked.ne_nil
        (fun entry hentry ↦ hwidth _ (hconds entry hentry)) hcs (hpicked.exists_reaches he)
      split
      · next h => simp [hpath] at h
      · next h =>
        simp only [hpath, Prod.mk.injEq, Option.some.injEq] at h
        obtain ⟨rfl, rfl, rfl⟩ := h
        simp only [hquery]
        cases hassign : Solver.getAssignment klee query with
        | none =>
          have hunsat := hpicked.explored he (hnone hassign)
          obtain ⟨found, trace', rand'', hfind, hsearched⟩ := ih root.openNodes
            (hn ▸ hpicked.openNodes_lt) { trace with pathCondsRoot := root } rand' hunsat
            hpicked.ne_null.2 rfl
          exact ⟨found, trace', rand'', hfind, hsearched.of_picked hpicked.hasLeaf_iff⟩
        | some assign =>
          obtain ⟨objects, τ, rfl, hreads, hmodel⟩ := hsome assign hassign
          refine ⟨_, _, _, rfl, .found ?_ ?_ hpicked.hasLeaf_iff⟩
          · intro array harray
            have hmem := hreads harray
            simp only [readsOf, List.flatMap_nil, List.append_nil, List.mem_flatMap] at hmem
            obtain ⟨entry, hentry, harray⟩ := hmem
            exact List.mem_flatMap.mpr ⟨entry.1, hconds entry hentry, harray⟩
          · intro σ hσ
            exact hpicked.pending he (hmodel σ hσ).2
    · refine ⟨none, trace, rand', ?_, .done fun σ ↦ ?_⟩
      · split
        · next h =>
          simp only [hpath, Prod.mk.injEq, true_and] at h
          obtain ⟨rfl, rfl⟩ := h
          rfl
        · next h => simp [hpath] at h
      · exact he.hasLeaf_of_exhausted hexhausted hne trivial

end FindNewPath

end CoverageVP.Clover
