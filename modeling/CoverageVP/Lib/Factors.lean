import Mathlib.Data.Finset.Lattice.Fold
import Mathlib.Data.List.Perm.Basic

/-!
# Independent groups

Items with finite supports are grouped so that the supports of different groups are disjoint: a
group absorbs the groups it meets, one pass after the other, until a pass adds nothing to any
support. In the same way the items that are connected to a given support are selected.
-/

namespace CoverageVP.Lib

variable {X E : Type} [DecidableEq X]

/-- A group of items with a set that contains their supports. -/
structure Factor (X E : Type) where
  elements : Finset X
  exprs : List E

namespace Factor

def Intersects (a b : Factor X E) : Prop := ∃ x ∈ a.elements, x ∈ b.elements

instance (a b : Factor X E) : Decidable (a.Intersects b) :=
  inferInstanceAs (Decidable (∃ x ∈ a.elements, x ∈ b.elements))

def add (a b : Factor X E) : Factor X E := ⟨a.elements ∪ b.elements, a.exprs ++ b.exprs⟩

/-- Whether the addition of `b` enlarges the set of `a`. -/
def grows (a b : Factor X E) : Bool := ¬ b.elements ⊆ a.elements

omit [DecidableEq X] in
theorem Intersects.symm {a b : Factor X E} (h : a.Intersects b) : b.Intersects a :=
  h.imp fun _ h ↦ h.symm

/-- The supports of the items are in the set of the group. -/
def Covers (support : E → Finset X) (a : Factor X E) : Prop :=
  ∀ e ∈ a.exprs, support e ⊆ a.elements

theorem Covers.add {support : E → Finset X} {a b : Factor X E} (ha : a.Covers support)
    (hb : b.Covers support) : (a.add b).Covers support := by
  intro e he
  rcases List.mem_append.mp he with he | he
  · exact (ha e he).trans Finset.subset_union_left
  · exact (hb e he).trans Finset.subset_union_right

theorem add_eq_of_not_grows {a b : Factor X E} (h : a.grows b = false) :
    (a.add b).elements = a.elements := by
  have hsub : b.elements ⊆ a.elements := by simpa [grows] using h
  exact Finset.union_eq_left.mpr hsub

/-! ## Merging -/

/-- The groups that `current` meets are added to it. The result is the enlarged group, the groups
that are left, and whether a support has grown. -/
def absorb (current : Factor X E) :
    List (Factor X E) → Factor X E × List (Factor X E) × Bool
  | [] => (current, [], false)
  | compare :: rest =>
    if current.Intersects compare then
      let result := absorb (current.add compare) rest
      (result.1, result.2.1, current.grows compare || result.2.2)
    else
      let result := absorb current rest
      (result.1, compare :: result.2.1, result.2.2)

theorem length_absorb (current : Factor X E) (factors : List (Factor X E)) :
    (current.absorb factors).2.1.length ≤ factors.length ∧
      ((current.absorb factors).2.2 = true →
        (current.absorb factors).2.1.length < factors.length) := by
  induction factors generalizing current with
  | nil => exact ⟨le_rfl, Bool.false_ne_true.elim⟩
  | cons compare rest ih =>
    rw [absorb]
    split_ifs
    · have hle := (ih (current.add compare)).1
      exact ⟨hle.trans (Nat.le_succ _), fun _ ↦ Nat.lt_succ_of_le hle⟩
    · have hrest := ih current
      exact ⟨Nat.succ_le_succ hrest.1, fun h ↦ Nat.succ_lt_succ (hrest.2 h)⟩

/-- One pass over all groups. -/
def pass : List (Factor X E) → List (Factor X E) × Bool
  | [] => ([], false)
  | current :: rest =>
    let result := current.absorb rest
    let others := pass result.2.1
    (result.1 :: others.1, result.2.2 || others.2)
  termination_by factors => factors.length
  decreasing_by exact Nat.lt_succ_of_le (current.length_absorb rest).1

theorem length_pass (factors : List (Factor X E)) :
    (pass factors).1.length ≤ factors.length ∧
      ((pass factors).2 = true → (pass factors).1.length < factors.length) := by
  induction factors using pass.induct with
  | case1 =>
    rw [pass]
    exact ⟨le_rfl, Bool.false_ne_true.elim⟩
  | case2 current rest result ih =>
    have habsorb := current.length_absorb rest
    rw [pass]
    refine ⟨Nat.succ_le_succ (ih.1.trans habsorb.1), fun h ↦ Nat.succ_lt_succ ?_⟩
    rcases Bool.or_eq_true_iff.mp h with h | h
    · exact ih.1.trans_lt (habsorb.2 h)
    · exact (ih.2 h).trans_le habsorb.1

/-- Passes until nothing grows. -/
def merge (factors : List (Factor X E)) : List (Factor X E) :=
  let result := pass factors
  if result.2 then merge result.1 else result.1
  termination_by factors.length
  decreasing_by exact (length_pass factors).2 ‹_›

/-! ## What merging preserves -/

/-- All items of the groups. -/
def items (factors : List (Factor X E)) : List E := factors.flatMap exprs

theorem absorb_items (current : Factor X E) (factors : List (Factor X E)) :
    ((current.absorb factors).1.exprs ++ items (current.absorb factors).2.1).Perm
      (current.exprs ++ items factors) := by
  induction factors generalizing current with
  | nil => exact .refl _
  | cons compare rest ih =>
    rw [absorb]
    split_ifs
    · refine (ih (current.add compare)).trans ?_
      rw [add, List.append_assoc]
      exact .refl _
    · have hrest := (ih current).append_left compare.exprs
      exact (List.perm_append_comm_assoc _ _ _).trans
        (hrest.trans (List.perm_append_comm_assoc _ _ _))

theorem pass_items (factors : List (Factor X E)) :
    (items (pass factors).1).Perm (items factors) := by
  induction factors using pass.induct with
  | case1 =>
    rw [pass]
  | case2 current rest result ih =>
    rw [pass]
    exact (ih.append_left _).trans (current.absorb_items rest)

theorem merge_items (factors : List (Factor X E)) : (items (merge factors)).Perm (items factors) := by
  induction factors using merge.induct with
  | case1 factors result h ih =>
    rw [merge, if_pos h]
    exact ih.trans (pass_items factors)
  | case2 factors result h =>
    rw [merge, if_neg h]
    exact pass_items factors

section Covers

variable {support : E → Finset X}

theorem absorb_covers {current : Factor X E} {factors : List (Factor X E)}
    (hcurrent : current.Covers support) (h : ∀ factor ∈ factors, factor.Covers support) :
    (current.absorb factors).1.Covers support ∧
      ∀ factor ∈ (current.absorb factors).2.1, factor.Covers support := by
  induction factors generalizing current with
  | nil => exact ⟨hcurrent, h⟩
  | cons compare rest ih =>
    obtain ⟨hcompare, hrest⟩ := List.forall_mem_cons.mp h
    rw [absorb]
    split_ifs
    · exact ih (hcurrent.add hcompare) hrest
    · obtain ⟨hfst, hsnd⟩ := ih hcurrent hrest
      exact ⟨hfst, List.forall_mem_cons.mpr ⟨hcompare, hsnd⟩⟩

theorem pass_covers {factors : List (Factor X E)} (h : ∀ factor ∈ factors, factor.Covers support) :
    ∀ factor ∈ (pass factors).1, factor.Covers support := by
  induction factors using pass.induct with
  | case1 =>
    rw [pass]
    exact h
  | case2 current rest result ih =>
    obtain ⟨hcurrent, hrest⟩ := List.forall_mem_cons.mp h
    obtain ⟨hfst, hsnd⟩ := absorb_covers hcurrent hrest
    rw [pass]
    exact List.forall_mem_cons.mpr ⟨hfst, ih hsnd⟩

theorem merge_covers {factors : List (Factor X E)} (h : ∀ factor ∈ factors, factor.Covers support) :
    ∀ factor ∈ merge factors, factor.Covers support := by
  induction factors using merge.induct with
  | case1 factors result hgrown ih =>
    rw [merge, if_pos hgrown]
    exact ih (pass_covers h)
  | case2 factors result hgrown =>
    rw [merge, if_neg hgrown]
    exact pass_covers h

end Covers

/-- A group that does not grow meets none of the groups that are left. -/
theorem absorb_disjoint {current : Factor X E} {factors : List (Factor X E)}
    (h : (current.absorb factors).2.2 = false) :
    (current.absorb factors).1.elements = current.elements ∧
      ∀ factor ∈ (current.absorb factors).2.1, ¬ current.Intersects factor := by
  induction factors generalizing current with
  | nil => exact ⟨rfl, fun _ h ↦ absurd h List.not_mem_nil⟩
  | cons compare rest ih =>
    rw [absorb] at h ⊢
    split_ifs at h ⊢ with hmeets
    · obtain ⟨hgrows, hrest⟩ := Bool.or_eq_false_iff.mp h
      have hsame := add_eq_of_not_grows hgrows
      obtain ⟨hfst, hsnd⟩ := ih hrest
      refine ⟨hfst.trans hsame, fun factor hfactor hintersects ↦ hsnd factor hfactor ?_⟩
      obtain ⟨x, hx, hx'⟩ := hintersects
      exact ⟨x, hsame ▸ hx, hx'⟩
    · obtain ⟨hfst, hsnd⟩ := ih h
      exact ⟨hfst, List.forall_mem_cons.mpr ⟨hmeets, hsnd⟩⟩

theorem absorb_subset (current : Factor X E) (factors : List (Factor X E)) :
    ∀ factor ∈ (current.absorb factors).2.1, factor ∈ factors := by
  induction factors generalizing current with
  | nil => exact fun _ h ↦ h
  | cons compare rest ih =>
    rw [absorb]
    split_ifs
    · exact fun factor h ↦ List.mem_cons_of_mem _ (ih _ factor h)
    · exact fun factor h ↦ (List.mem_cons.mp h).elim (fun h ↦ h ▸ List.mem_cons_self)
        fun h ↦ List.mem_cons_of_mem _ (ih _ factor h)

/-- In a pass in which nothing grows, every group has the set of a group of before. -/
theorem pass_elements {factors : List (Factor X E)} (h : (pass factors).2 = false) :
    ∀ factor ∈ (pass factors).1, ∃ factor' ∈ factors, factor.elements = factor'.elements := by
  induction factors using pass.induct with
  | case1 =>
    rw [pass]
    exact fun _ h ↦ absurd h List.not_mem_nil
  | case2 current rest result ih =>
    rw [pass] at h ⊢
    obtain ⟨habsorb, hrest⟩ := Bool.or_eq_false_iff.mp h
    refine List.forall_mem_cons.mpr ⟨?_, fun factor hfactor ↦ ?_⟩
    · exact ⟨current, List.mem_cons_self, (absorb_disjoint habsorb).1⟩
    · obtain ⟨factor', hfactor', heq⟩ := ih hrest factor hfactor
      exact ⟨factor', List.mem_cons_of_mem _ (current.absorb_subset rest factor' hfactor'), heq⟩

theorem pass_disjoint {factors : List (Factor X E)} (h : (pass factors).2 = false) :
    (pass factors).1.Pairwise fun a b ↦ ¬ a.Intersects b := by
  induction factors using pass.induct with
  | case1 =>
    rw [pass]
    exact .nil
  | case2 current rest result ih =>
    rw [pass] at h ⊢
    obtain ⟨habsorb, hrest⟩ := Bool.or_eq_false_iff.mp h
    obtain ⟨hsame, hdisjoint⟩ := absorb_disjoint habsorb
    refine List.pairwise_cons.mpr ⟨fun factor hfactor hintersects ↦ ?_, ih hrest⟩
    obtain ⟨factor', hfactor', heq⟩ := pass_elements hrest factor hfactor
    obtain ⟨x, hx, hx'⟩ := hintersects
    exact hdisjoint factor' hfactor' ⟨x, hsame ▸ hx, heq ▸ hx'⟩

/-- The sets of merged groups are disjoint. -/
theorem merge_disjoint (factors : List (Factor X E)) :
    (merge factors).Pairwise fun a b ↦ ¬ a.Intersects b := by
  induction factors using merge.induct with
  | case1 factors result h ih =>
    rw [merge, if_pos h]
    exact ih
  | case2 factors result h =>
    rw [merge, if_neg h]
    exact pass_disjoint (Bool.eq_false_iff.mpr h)

/-! ## Selecting the connected items -/

/-- A pass over the items that are left: those whose support meets the closure are required and
enlarge it. -/
def connectPass (closure : Factor X E) :
    List (E × Factor X E) → Factor X E × List E × List (E × Factor X E) × Bool
  | [] => (closure, [], [], false)
  | item :: rest =>
    if item.2.Intersects closure then
      let result := connectPass (closure.add item.2) rest
      (result.1, item.1 :: result.2.1, result.2.2.1, closure.grows item.2 || result.2.2.2)
    else
      let result := connectPass closure rest
      (result.1, result.2.1, item :: result.2.2.1, result.2.2.2)

theorem length_connectPass (closure : Factor X E) (worklist : List (E × Factor X E)) :
    (closure.connectPass worklist).2.2.1.length ≤ worklist.length ∧
      ((closure.connectPass worklist).2.2.2 = true →
        (closure.connectPass worklist).2.2.1.length < worklist.length) := by
  induction worklist generalizing closure with
  | nil => exact ⟨le_rfl, Bool.false_ne_true.elim⟩
  | cons item rest ih =>
    rw [connectPass]
    split_ifs
    · have hle := (ih (closure.add item.2)).1
      exact ⟨hle.trans (Nat.le_succ _), fun _ ↦ Nat.lt_succ_of_le hle⟩
    · have hrest := ih closure
      exact ⟨Nat.succ_le_succ hrest.1, fun h ↦ Nat.succ_lt_succ (hrest.2 h)⟩

/-- The closure of a support and the items that are connected to it. -/
def connect (closure : Factor X E) (worklist : List (E × Factor X E)) : Factor X E × List E :=
  let result := closure.connectPass worklist
  if result.2.2.2 then
    let others := connect result.1 result.2.2.1
    (others.1, result.2.1 ++ others.2)
  else (result.1, result.2.1)
  termination_by worklist.length
  decreasing_by exact (length_connectPass closure worklist).2 ‹_›

/-- What a selection achieves: the closure contains what it started from, the selected items are in
it, and the others are disjoint from it. -/
structure Selects (closure : Factor X E) (worklist : List (E × Factor X E))
    (closure' : Factor X E) (required : List E) : Prop where
  closure_subset : closure.elements ⊆ closure'.elements
  required_subset : ∀ e ∈ required, ∃ item ∈ worklist, item.1 = e ∧
    item.2.elements ⊆ closure'.elements
  split : ∀ item ∈ worklist, item.1 ∈ required ∨ ¬ item.2.Intersects closure'

/-- One pass: what is left was not met when it was looked at. -/
theorem connectPass_spec (closure : Factor X E) (worklist : List (E × Factor X E)) :
    closure.elements ⊆ (closure.connectPass worklist).1.elements ∧
    (∀ e ∈ (closure.connectPass worklist).2.1, ∃ item ∈ worklist, item.1 = e ∧
      item.2.elements ⊆ (closure.connectPass worklist).1.elements) ∧
    (∀ item ∈ worklist, item.1 ∈ (closure.connectPass worklist).2.1 ∨
      item ∈ (closure.connectPass worklist).2.2.1) ∧
    (∀ item ∈ (closure.connectPass worklist).2.2.1, item ∈ worklist) ∧
    ((closure.connectPass worklist).2.2.2 = false →
      (closure.connectPass worklist).1.elements = closure.elements ∧
      ∀ item ∈ (closure.connectPass worklist).2.2.1, ¬ item.2.Intersects closure) := by
  induction worklist generalizing closure with
  | nil =>
    have hnil {p : E × Factor X E → Prop} : ∀ item ∈ ([] : List (E × Factor X E)), p item :=
      fun _ h ↦ absurd h List.not_mem_nil
    exact ⟨Finset.Subset.refl _, fun _ h ↦ absurd h List.not_mem_nil, hnil, hnil, fun _ ↦ ⟨rfl, hnil⟩⟩
  | cons item rest ih =>
    rw [connectPass]
    split_ifs with hmeets
    · obtain ⟨hclosure, hrequired, hsplit, hleft, hdone⟩ := ih (closure.add item.2)
      refine ⟨Finset.subset_union_left.trans hclosure, ?_, ?_, ?_, fun h ↦ ?_⟩
      · refine List.forall_mem_cons.mpr ⟨⟨item, List.mem_cons_self, rfl,
          Finset.subset_union_right.trans hclosure⟩, fun e he ↦ ?_⟩
        obtain ⟨item', hitem', heq⟩ := hrequired e he
        exact ⟨item', List.mem_cons_of_mem _ hitem', heq⟩
      · exact List.forall_mem_cons.mpr ⟨.inl List.mem_cons_self, fun item' h ↦
          (hsplit item' h).imp_left (List.mem_cons_of_mem _)⟩
      · exact fun item' h ↦ List.mem_cons_of_mem _ (hleft item' h)
      · obtain ⟨hgrows, hrest⟩ := Bool.or_eq_false_iff.mp h
        have hsame := add_eq_of_not_grows hgrows
        obtain ⟨heq, hnone⟩ := hdone hrest
        refine ⟨heq.trans hsame, fun item' h hintersects ↦ hnone item' h ?_⟩
        obtain ⟨x, hx, hx'⟩ := hintersects
        exact ⟨x, hx, hsame ▸ hx'⟩
    · obtain ⟨hclosure, hrequired, hsplit, hleft, hdone⟩ := ih closure
      refine ⟨hclosure, fun e he ↦ ?_, ?_, ?_, fun h ↦ ⟨(hdone h).1, ?_⟩⟩
      · obtain ⟨item', hitem', heq⟩ := hrequired e he
        exact ⟨item', List.mem_cons_of_mem _ hitem', heq⟩
      · exact List.forall_mem_cons.mpr ⟨.inr List.mem_cons_self, fun item' h ↦
          (hsplit item' h).imp_right (List.mem_cons_of_mem _)⟩
      · exact List.forall_mem_cons.mpr ⟨List.mem_cons_self, fun item' h ↦
          List.mem_cons_of_mem _ (hleft item' h)⟩
      · exact List.forall_mem_cons.mpr ⟨hmeets, (hdone h).2⟩

/-- Every item is selected or disjoint from the closure. -/
theorem connect_selects (closure : Factor X E) (worklist : List (E × Factor X E)) :
    Selects closure worklist (closure.connect worklist).1 (closure.connect worklist).2 := by
  induction closure, worklist using connect.induct with
  | case1 closure worklist result h ih =>
    obtain ⟨hclosure, hrequired, hsplit, hleft, -⟩ := connectPass_spec closure worklist
    rw [connect, if_pos h]
    refine ⟨hclosure.trans ih.closure_subset, fun e he ↦ ?_, fun item hitem ↦ ?_⟩
    · rcases List.mem_append.mp he with he | he
      · obtain ⟨item, hitem, heq, hsub⟩ := hrequired e he
        exact ⟨item, hitem, heq, hsub.trans ih.closure_subset⟩
      · obtain ⟨item, hitem, heq⟩ := ih.required_subset e he
        exact ⟨item, hleft item hitem, heq⟩
    · rcases hsplit item hitem with hitem | hitem
      · exact .inl (List.mem_append_left _ hitem)
      · exact (ih.split item hitem).imp_left (List.mem_append_right _)
  | case2 closure worklist result h =>
    obtain ⟨hclosure, hrequired, hsplit, -, hdone⟩ := connectPass_spec closure worklist
    obtain ⟨hsame, hnone⟩ := hdone (Bool.eq_false_iff.mpr h)
    rw [connect, if_neg h]
    refine ⟨hclosure, hrequired, fun item hitem ↦ (hsplit item hitem).imp_right fun hitem hmeets ↦
      hnone item hitem ?_⟩
    obtain ⟨x, hx, hx'⟩ := hmeets
    exact ⟨x, hx, hsame ▸ hx'⟩

end Factor

end CoverageVP.Lib
