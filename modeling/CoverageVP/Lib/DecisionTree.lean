import Mathlib.Data.List.Perm.Subperm

/-!
# Binary decision trees

A finite binary tree whose inner nodes carry conditions. An input decides the conditions, and so
follows one path from the root to a leaf. The paths of a tree are finite in number, which bounds
every duplicate-free list of them.
-/

namespace CoverageVP.Lib

inductive DecisionTree (κ : Type*)
  | leaf
  | node (cond : κ) (onTrue onFalse : DecisionTree κ)

namespace DecisionTree

variable {κ : Type*}

/-- The conditions of the inner nodes. -/
def conds : DecisionTree κ → List κ
  | leaf => []
  | node c t f => c :: (t.conds ++ f.conds)

/-- The path that is followed when `holds` decides the conditions. -/
def follow (holds : κ → Bool) : DecisionTree κ → List Bool
  | leaf => []
  | node c t f => holds c :: if holds c then t.follow holds else f.follow holds

/-- The paths from the root to the leaves. -/
def paths : DecisionTree κ → List (List Bool)
  | leaf => [[]]
  | node _ t f => t.paths.map (true :: ·) ++ f.paths.map (false :: ·)

theorem follow_mem_paths (holds : κ → Bool) (tree : DecisionTree κ) :
    tree.follow holds ∈ tree.paths := by
  induction tree with
  | leaf => exact List.mem_singleton_self []
  | node c t f iht ihf =>
    rw [follow, paths, List.mem_append]
    cases holds c with
    | true => exact .inl (List.mem_map_of_mem iht)
    | false => exact .inr (List.mem_map_of_mem ihf)

theorem length_le_of_nodup {tree : DecisionTree κ} {executed : List (List Bool)}
    (hnodup : executed.Nodup) (hpaths : ∀ path ∈ executed, path ∈ tree.paths) :
    executed.length ≤ tree.paths.length :=
  (List.subperm_of_subset hnodup hpaths).length_le

end DecisionTree

end CoverageVP.Lib
