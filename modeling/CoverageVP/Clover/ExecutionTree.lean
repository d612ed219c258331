import CoverageVP.Clover.Explore

/-!
# The invariant of the execution tree

The invariant of the exploration loop relates the execution tree to the decision tree of the
program, under the condition that leads to their roots. A node that was not picked yet has one side
that was taken and one that was not; of a node that was picked, a side that is still missing cannot
be taken by any input. Between a pick and the run it prepares, there is one exception: the side that
this run is going to take.
-/

namespace CoverageVP.Clover

open Lib

/-- The inputs that reach a side of a condition. -/
def side (Γ : Assignment → Prop) (c : Expr) (d : Bool) : Assignment → Prop :=
  fun τ ↦ Γ τ ∧ decides τ c = d

namespace Branch

/-- The sides of a node with condition `c` that is reached by the inputs in `Γ`. -/
structure NodeOk (Γ : Assignment → Prop) (c : Expr) (n : Bool) (t f : Branch) : Prop where
  visited : t ≠ .null ∨ f ≠ .null
  unmarked : n = false → t = .null ∨ f = .null
  onTrue : n = true → t = .null → ∀ τ, Γ τ → decides τ c = false
  onFalse : n = true → f = .null → ∀ τ, Γ τ → decides τ c = true

section NodeOk

variable {Γ : Assignment → Prop} {c : Expr} {n : Bool} {t t' f f' : Branch}

theorem NodeOk.setTrue (h : NodeOk Γ c n t f) (ht : t ≠ .null) (ht' : t' ≠ .null) :
    NodeOk Γ c n t' f :=
  ⟨.inl ht', fun hn ↦ .inr ((h.unmarked hn).resolve_left ht), fun _ h ↦ absurd h ht', h.onFalse⟩

theorem NodeOk.setFalse (h : NodeOk Γ c n t f) (hf : f ≠ .null) (hf' : f' ≠ .null) :
    NodeOk Γ c n t f' :=
  ⟨.inr hf', fun hn ↦ .inl ((h.unmarked hn).resolve_right hf), h.onTrue, fun _ h ↦ absurd h hf'⟩

end NodeOk

/-- The branch is what earlier runs have made of the decision tree. -/
def Explored : (Assignment → Prop) → Branch → DecisionTree Expr → Prop
  | _, .null, _ => True
  | Γ, .node none _ _ _, .leaf => ∃ τ, Γ τ
  | Γ, .node (some c) n t f, .node c' onTrue onFalse =>
    (∃ τ, Γ τ) ∧ c = c' ∧ NodeOk Γ c n t f ∧ Explored (side Γ c true) t onTrue ∧
      Explored (side Γ c false) f onFalse
  | _, .node _ _ _ _, _ => False

/-- The branch is explored but for the side at which the run with input `σ` is going to leave it;
the node of that side has been picked. -/
def Pending (σ : Assignment) : (Assignment → Prop) → Branch → DecisionTree Expr → Prop
  | Γ, .node (some c) n t f, .node c' onTrue onFalse =>
    c = c' ∧
      if decides σ c then
        Explored (side Γ c false) f onFalse ∧
          ((n = true ∧ t = .null ∧ f ≠ .null) ∨
            (NodeOk Γ c n t f ∧ Pending σ (side Γ c true) t onTrue))
      else
        Explored (side Γ c true) t onTrue ∧
          ((n = true ∧ f = .null ∧ t ≠ .null) ∨
            (NodeOk Γ c n t f ∧ Pending σ (side Γ c false) f onFalse))
  | _, _, _ => False

/-- A path of an earlier run. -/
def HasLeaf : Branch → List Bool → Prop
  | .null, _ => False
  | .node none _ _ _, path => path = []
  | .node (some _) _ _ _, [] => False
  | .node (some _) _ t f, d :: path => if d then t.HasLeaf path else f.HasLeaf path

/-! ## Runs -/

section Insert

variable {σ : Assignment}

theorem insert_node (c : Expr) (onTrue onFalse : DecisionTree Expr) (bv : Option Expr) (n : Bool)
    (t f : Branch) :
    insert σ (.node c onTrue onFalse) (.node bv n t f) =
      if decides σ c then
        .node (some (bv.getD c)) n (insert σ onTrue (if t.isNull then placeholder else t)) f
      else
        .node (some (bv.getD c)) n t (insert σ onFalse (if f.isNull then placeholder else f)) := by
  rw [insert]
  split <;> rfl

theorem insert_ne_null (tree : DecisionTree Expr) {b : Branch} (hb : b ≠ .null) :
    insert σ tree b ≠ .null := by
  cases b with
  | null => exact absurd rfl hb
  | node bv n t f =>
    cases tree with
    | leaf => exact hb
    | node c onTrue onFalse =>
      rw [insert_node]
      split <;> exact Branch.noConfusion

theorem placeholder_ne_null : placeholder ≠ .null := Branch.noConfusion

/-- The first run through a tree. -/
theorem insert_placeholder (Γ : Assignment → Prop) (tree : DecisionTree Expr) (hσ : Γ σ) :
    Explored Γ (insert σ tree placeholder) tree ∧
      ∀ path, (insert σ tree placeholder).HasLeaf path ↔ path = tree.follow (decides σ) := by
  induction tree generalizing Γ with
  | leaf => exact ⟨⟨σ, hσ⟩, fun path ↦ Iff.rfl⟩
  | node c onTrue onFalse iht ihf =>
    rw [placeholder, insert_node, DecisionTree.follow]
    cases hd : decides σ c with
    | true =>
      obtain ⟨hexplored, hleaf⟩ := iht (side Γ c true) ⟨hσ, hd⟩
      refine ⟨⟨⟨σ, hσ⟩, rfl, ?_, hexplored, trivial⟩, ?_⟩
      · exact ⟨.inl (insert_ne_null _ placeholder_ne_null), fun _ ↦ .inr rfl, by simp, by simp⟩
      · intro path
        cases path with
        | nil => simp [HasLeaf]
        | cons d path => cases d <;> simp [HasLeaf, isNull, hleaf]
    | false =>
      obtain ⟨hexplored, hleaf⟩ := ihf (side Γ c false) ⟨hσ, hd⟩
      refine ⟨⟨⟨σ, hσ⟩, rfl, ?_, trivial, hexplored⟩, ?_⟩
      · exact ⟨.inr (insert_ne_null _ placeholder_ne_null), fun _ ↦ .inl rfl, by simp, by simp⟩
      · intro path
        cases path with
        | nil => simp [HasLeaf]
        | cons d path => cases d <;> simp [HasLeaf, isNull, hleaf]

theorem isNull_eq_false {b : Branch} (hb : b ≠ .null) : b.isNull = false := by
  cases b with
  | null => exact absurd rfl hb
  | node bv n t f => rfl

theorem Pending.ne_null {Γ : Assignment → Prop} {b : Branch} {tree : DecisionTree Expr}
    (h : Pending σ Γ b tree) : b ≠ .null := by
  rintro rfl
  exact h

/-- The run that a pick prepared completes the exploration of the picked node and follows a new
path. -/
theorem Pending.insert (Γ : Assignment → Prop) {b : Branch} {tree : DecisionTree Expr}
    (h : Pending σ Γ b tree) (hσ : Γ σ) :
    Explored Γ (insert σ tree b) tree ∧
      (∀ path, (insert σ tree b).HasLeaf path ↔
        b.HasLeaf path ∨ path = tree.follow (decides σ)) ∧
      ¬ b.HasLeaf (tree.follow (decides σ)) := by
  induction tree generalizing Γ b with
  | leaf =>
    match b, h with
    | .node (some _) _ _ _, h => exact h.elim
  | node c onTrue onFalse iht ihf =>
    match b, h with
    | .node (some c') n t f, ⟨hc, hnode⟩ =>
      subst hc
      rw [insert_node, DecisionTree.follow]
      cases hd : decides σ c' with
      | true =>
        rw [if_pos hd] at hnode
        obtain ⟨hother, ⟨hn, ht, hf⟩ | ⟨hok, hpending⟩⟩ := hnode
        · subst hn ht
          obtain ⟨hexplored, hleaf⟩ := insert_placeholder (side Γ c' true) onTrue ⟨hσ, hd⟩
          refine ⟨⟨⟨σ, hσ⟩, rfl, ?_, hexplored, hother⟩, ?_, ?_⟩
          · exact ⟨.inr hf, by simp, fun _ h ↦ absurd h (insert_ne_null _ placeholder_ne_null),
              fun _ h ↦ absurd h hf⟩
          · intro path
            cases path with
            | nil => simp [HasLeaf]
            | cons d path => cases d <;> simp [HasLeaf, isNull, hleaf]
          · simp [HasLeaf]
        · obtain ⟨hexplored, hleaf, hnew⟩ := iht (side Γ c' true) hpending ⟨hσ, hd⟩
          rw [isNull_eq_false hpending.ne_null]
          refine ⟨⟨⟨σ, hσ⟩, rfl, ?_, hexplored, hother⟩, ?_, ?_⟩
          · exact hok.setTrue hpending.ne_null (insert_ne_null _ hpending.ne_null)
          · intro path
            cases path with
            | nil => simp [HasLeaf]
            | cons d path => cases d <;> simp [HasLeaf, hleaf]
          · simpa [HasLeaf] using hnew
      | false =>
        rw [if_neg (by simp [hd])] at hnode
        obtain ⟨hother, ⟨hn, hf, ht⟩ | ⟨hok, hpending⟩⟩ := hnode
        · subst hn hf
          obtain ⟨hexplored, hleaf⟩ := insert_placeholder (side Γ c' false) onFalse ⟨hσ, hd⟩
          refine ⟨⟨⟨σ, hσ⟩, rfl, ?_, hother, hexplored⟩, ?_, ?_⟩
          · exact ⟨.inl ht, by simp, fun _ h ↦ absurd h ht,
              fun _ h ↦ absurd h (insert_ne_null _ placeholder_ne_null)⟩
          · intro path
            cases path with
            | nil => simp [HasLeaf]
            | cons d path => cases d <;> simp [HasLeaf, isNull, hleaf]
          · simp [HasLeaf]
        · obtain ⟨hexplored, hleaf, hnew⟩ := ihf (side Γ c' false) hpending ⟨hσ, hd⟩
          rw [isNull_eq_false hpending.ne_null]
          refine ⟨⟨⟨σ, hσ⟩, rfl, ?_, hother, hexplored⟩, ?_, ?_⟩
          · exact hok.setFalse hpending.ne_null (insert_ne_null _ hpending.ne_null)
          · intro path
            cases path with
            | nil => simp [HasLeaf]
            | cons d path => cases d <;> simp [HasLeaf, hleaf]
          · simpa [HasLeaf] using hnew

end Insert

/-! ## Picks -/

/-- The input takes the sides of a path up to its last node, and the other side there. -/
def Selects (σ : Assignment) : Path → Prop
  | [] => False
  | [(c, d)] => decides σ c ≠ d
  | (c, d) :: rest => decides σ c = d ∧ Selects σ rest

/-- The input takes the sides of a path up to its last node. -/
def Reaches (σ : Assignment) : Path → Prop
  | [] => True
  | [_] => True
  | (c, d) :: rest => decides σ c = d ∧ Reaches σ rest

theorem selects_cons {σ : Assignment} {c : Expr} {d : Bool} {path : Path} (h : path ≠ []) :
    Selects σ ((c, d) :: path) ↔ decides σ c = d ∧ Selects σ path := by
  cases path with
  | nil => exact absurd rfl h
  | cons head rest => rfl

theorem reaches_cons {σ : Assignment} {c : Expr} {d : Bool} {path : Path} (h : path ≠ []) :
    Reaches σ ((c, d) :: path) ↔ decides σ c = d ∧ Reaches σ path := by
  cases path with
  | nil => exact absurd rfl h
  | cons head rest => rfl

section Picked

variable {b b' : Branch} {path : Path}

theorem Picked.ne_null (h : Picked b path b') : b ≠ .null ∧ b' ≠ .null := by
  cases h <;> exact ⟨Branch.noConfusion, Branch.noConfusion⟩

theorem Picked.hasLeaf_iff (h : Picked b path b') (leaf : List Bool) :
    b'.HasLeaf leaf ↔ b.HasLeaf leaf := by
  induction h generalizing leaf with
  | here hnull => cases leaf <;> rfl
  | left hpicked ih =>
    cases leaf with
    | nil => rfl
    | cons d leaf => cases d <;> simp [HasLeaf, ih]
  | right hpicked ih =>
    cases leaf with
    | nil => rfl
    | cons d leaf => cases d <;> simp [HasLeaf, ih]

/-- The conditions of a path are those of the program. -/
theorem Picked.conds (h : Picked b path b') {Γ : Assignment → Prop} {tree : DecisionTree Expr}
    (he : Explored Γ b tree) : ∀ entry ∈ path, entry.1 ∈ tree.conds := by
  induction h generalizing Γ tree with
  | here hnull =>
    match tree, he with
    | .node c onTrue onFalse, ⟨_, hc, _⟩ => simp [DecisionTree.conds, hc]
  | left hpicked ih =>
    match tree, he with
    | .node c onTrue onFalse, ⟨_, hc, _, ht, _⟩ =>
      have hrest := ih ht
      intro entry hentry
      rcases List.mem_cons.mp hentry with rfl | hentry
      · simp [DecisionTree.conds, hc]
      · simp [DecisionTree.conds, hrest entry hentry]
  | right hpicked ih =>
    match tree, he with
    | .node c onTrue onFalse, ⟨_, hc, _, _, hf⟩ =>
      have hrest := ih hf
      intro entry hentry
      rcases List.mem_cons.mp hentry with rfl | hentry
      · simp [DecisionTree.conds, hc]
      · simp [DecisionTree.conds, hrest entry hentry]

/-- Some input reaches the picked node. -/
theorem Picked.exists_reaches (h : Picked b path b') {Γ : Assignment → Prop}
    {tree : DecisionTree Expr} (he : Explored Γ b tree) : ∃ τ, Γ τ ∧ Reaches τ path := by
  induction h generalizing Γ tree with
  | here hnull =>
    match tree, he with
    | .node c onTrue onFalse, ⟨⟨τ, hτ⟩, _⟩ => exact ⟨τ, hτ, trivial⟩
  | left hpicked ih =>
    match tree, he with
    | .node c onTrue onFalse, ⟨_, _, _, ht, _⟩ =>
      obtain ⟨τ, ⟨hτ, hd⟩, hreaches⟩ := ih ht
      exact ⟨τ, hτ, (reaches_cons hpicked.ne_nil).mpr ⟨hd, hreaches⟩⟩
  | right hpicked ih =>
    match tree, he with
    | .node c onTrue onFalse, ⟨_, _, _, _, hf⟩ =>
      obtain ⟨τ, ⟨hτ, hd⟩, hreaches⟩ := ih hf
      exact ⟨τ, hτ, (reaches_cons hpicked.ne_nil).mpr ⟨hd, hreaches⟩⟩

/-- If no input takes the other side of the picked node, the tree stays explored. -/
theorem Picked.explored (h : Picked b path b') {Γ : Assignment → Prop}
    {tree : DecisionTree Expr} (he : Explored Γ b tree) (hnone : ∀ τ, Γ τ → ¬ Selects τ path) :
    Explored Γ b' tree := by
  induction h generalizing Γ tree with
  | @here bv t f hnull =>
    cases tree with
    | leaf => cases he
    | node c onTrue onFalse =>
      obtain ⟨hsat, hc, hok, ht, hf⟩ := he
      refine ⟨hsat, hc, ⟨hok.visited, by simp, ?_, ?_⟩, ht, hf⟩
      · rintro - rfl τ hτ
        simpa [Selects, isNull] using hnone τ hτ
      · rintro - hfnull τ hτ
        have htnull : t.isNull = false :=
          isNull_eq_false (hok.visited.resolve_right (not_not.mpr hfnull))
        simpa [Selects, htnull] using hnone τ hτ
  | left hpicked ih =>
    cases tree with
    | leaf => cases he
    | node c onTrue onFalse =>
      obtain ⟨hsat, hc, hok, ht, hf⟩ := he
      have hnone' : ∀ τ, side Γ _ true τ → ¬ Selects τ _ := fun τ hτ hsel ↦
        hnone τ hτ.1 ((selects_cons hpicked.ne_nil).mpr ⟨hτ.2, hsel⟩)
      exact ⟨hsat, hc, hok.setTrue hpicked.ne_null.1 hpicked.ne_null.2, ih ht hnone', hf⟩
  | right hpicked ih =>
    cases tree with
    | leaf => cases he
    | node c onTrue onFalse =>
      obtain ⟨hsat, hc, hok, ht, hf⟩ := he
      have hnone' : ∀ τ, side Γ _ false τ → ¬ Selects τ _ := fun τ hτ hsel ↦
        hnone τ hτ.1 ((selects_cons hpicked.ne_nil).mpr ⟨hτ.2, hsel⟩)
      exact ⟨hsat, hc, hok.setFalse hpicked.ne_null.1 hpicked.ne_null.2, ht, ih hf hnone'⟩

/-- An input that takes the other side of the picked node is going to complete it. -/
theorem Picked.pending (h : Picked b path b') {Γ : Assignment → Prop}
    {tree : DecisionTree Expr} (he : Explored Γ b tree) {σ : Assignment} (hsel : Selects σ path) :
    Pending σ Γ b' tree := by
  induction h generalizing Γ tree with
  | @here bv t f hnull =>
    cases tree with
    | leaf => cases he
    | node c onTrue onFalse =>
      obtain ⟨hsat, hc, hok, ht, hf⟩ := he
      refine ⟨hc, ?_⟩
      by_cases htnull : t = .null
      · subst htnull
        have hd : decides σ bv = true := by simpa [Selects, isNull] using hsel
        rw [if_pos hd]
        exact ⟨hf, .inl ⟨rfl, rfl, hok.visited.resolve_left (not_not.mpr rfl)⟩⟩
      · have hd : decides σ bv = false := by
          simpa [Selects, isNull_eq_false htnull] using hsel
        rw [if_neg (by simp [hd])]
        exact ⟨ht, .inl ⟨rfl, hnull.resolve_left htnull, htnull⟩⟩
  | @left bv n t t' f path hpicked ih =>
    cases tree with
    | leaf => cases he
    | node c onTrue onFalse =>
      obtain ⟨hsat, hc, hok, ht, hf⟩ := he
      obtain ⟨hd, hsel⟩ := (selects_cons hpicked.ne_nil).mp hsel
      refine ⟨hc, ?_⟩
      rw [if_pos hd]
      exact ⟨hf, .inr ⟨hok.setTrue hpicked.ne_null.1 hpicked.ne_null.2, ih ht hsel⟩⟩
  | @right bv n t f f' path hpicked ih =>
    cases tree with
    | leaf => cases he
    | node c onTrue onFalse =>
      obtain ⟨hsat, hc, hok, ht, hf⟩ := he
      obtain ⟨hd, hsel⟩ := (selects_cons hpicked.ne_nil).mp hsel
      refine ⟨hc, ?_⟩
      rw [if_neg (by simp [hd])]
      exact ⟨ht, .inr ⟨hok.setFalse hpicked.ne_null.1 hpicked.ne_null.2, ih hf hsel⟩⟩

end Picked

/-- When no node is left to pick, every input follows a path that was executed. -/
theorem Explored.hasLeaf_of_exhausted {Γ : Assignment → Prop} {b : Branch}
    {tree : DecisionTree Expr} (he : Explored Γ b tree) (hex : b.Exhausted) (hb : b ≠ .null)
    {σ : Assignment} (hσ : Γ σ) : b.HasLeaf (tree.follow (decides σ)) := by
  induction tree generalizing Γ b with
  | leaf =>
    match b, he with
    | .node none _ _ _, _ => rfl
  | node c onTrue onFalse iht ihf =>
    match b, he, hex with
    | .node (some c') n t f, ⟨_, hc, hok, ht, hf⟩, ⟨hmarked, htex, hfex⟩ =>
      subst hc
      rw [DecisionTree.follow]
      cases hd : decides σ c' with
      | true =>
        have htnull : t ≠ .null := by
          intro htnull
          have hn := hmarked.resolve_right fun h ↦ h.1 htnull
          rw [hok.onTrue hn htnull σ hσ] at hd
          cases hd
        exact iht ht htex htnull ⟨hσ, hd⟩
      | false =>
        have hfnull : f ≠ .null := by
          intro hfnull
          have hn := hmarked.resolve_right fun h ↦ h.2 hfnull
          rw [hok.onFalse hn hfnull σ hσ] at hd
          cases hd
        exact ihf hf hfex hfnull ⟨hσ, hd⟩

end Branch

end CoverageVP.Clover
