import Mathlib.Order.Lattice

/-!
# The first candidate of the highest priority

A loop over candidates that keeps the best one so far, and replaces it by a strictly better one, ends
with the first candidate of the highest priority. The priority of a candidate may be missing, and
asking for it may fail.
-/

namespace CoverageVP.Lib.Selection

variable {ι π φ : Type} [LinearOrder π]

/-- The better one of the best candidate so far and another one. -/
def better (best : ι × π) (i : ι) : Option π → ι × π
  | some p => if best.2 < p then (i, p) else best
  | none => best

def choose (prio : ι → Option π) (start : ι × π) (ids : List ι) : ι × π :=
  ids.foldl (fun best i ↦ better best i (prio i)) start

/-- The loop if a priority may fail. -/
def chooseM (prio : ι → Except φ (Option π)) (start : ι × π) (ids : List ι) : Except φ (ι × π) :=
  ids.foldlM (fun best i ↦ do return better best i (← prio i)) start

section Pure

variable {ids : List ι}

/-- Nothing beats the start, or the choice is the first one of the highest priority above it. -/
theorem choose_cases (prio : ι → Option π) (start : ι × π) (ids : List ι) :
    (choose prio start ids = start ∧ ∀ i ∈ ids, ∀ p ∈ prio i, p ≤ start.2) ∨
      ∃ before after i p, ids = before ++ i :: after ∧ choose prio start ids = (i, p) ∧
        prio i = some p ∧ start.2 < p ∧ (∀ j ∈ before, ∀ q ∈ prio j, q < p) ∧
        ∀ j ∈ after, ∀ q ∈ prio j, q ≤ p := by
  induction ids generalizing start with
  | nil => exact .inl ⟨rfl, fun _ h ↦ absurd h List.not_mem_nil⟩
  | cons i ids ih =>
    have hfold : choose prio start (i :: ids) = choose prio (better start i (prio i)) ids := rfl
    rw [hfold]
    by_cases hi : ∃ p, prio i = some p ∧ start.2 < p
    · obtain ⟨p, hp, hlt⟩ := hi
      have hbetter : better start i (prio i) = (i, p) := by
        rw [hp]
        exact if_pos hlt
      rw [hbetter]
      rcases ih (i, p) with ⟨heq, hle⟩ | ⟨before, after, j, q, rfl, heq, hq, hpq, hb, ha⟩
      · exact .inr ⟨[], ids, i, p, rfl, heq, hp, hlt, fun _ h ↦ absurd h List.not_mem_nil, hle⟩
      · refine .inr ⟨i :: before, after, j, q, rfl, heq, hq, hlt.trans hpq, ?_, ha⟩
        intro k hk r hr
        rcases List.mem_cons.mp hk with rfl | hk
        · obtain rfl : r = p := Option.some.inj (hr.symm.trans hp)
          exact hpq
        · exact hb k hk r hr
    · have hkeep : ∀ p ∈ prio i, p ≤ start.2 := fun p hp ↦ not_lt.mp fun hlt ↦ hi ⟨p, hp, hlt⟩
      have hbetter : better start i (prio i) = start := by
        cases hp : prio i with
        | none => rfl
        | some p => exact if_neg (not_lt.mpr (hkeep p hp))
      rw [hbetter]
      rcases ih start with ⟨heq, hle⟩ | ⟨before, after, j, q, rfl, heq, hq, hsq, hb, ha⟩
      · refine .inl ⟨heq, fun j hj p hp ↦ ?_⟩
        rcases List.mem_cons.mp hj with rfl | hj
        · exact hkeep p hp
        · exact hle j hj p hp
      · refine .inr ⟨i :: before, after, j, q, rfl, heq, hq, hsq, ?_, ha⟩
        intro k hk r hr
        rcases List.mem_cons.mp hk with rfl | hk
        · exact (hkeep r hr).trans_lt hsq
        · exact hb k hk r hr

/-- Among sorted candidates the choice is the lowest one of the highest priority. -/
theorem choose_of_sorted [LinearOrder ι] (prio : ι → Option π) (start : ι × π)
    (hsorted : ids.Pairwise (· < ·)) :
    (choose prio start ids = start ∧ ∀ i ∈ ids, ∀ p ∈ prio i, p ≤ start.2) ∨
      ∃ i p, i ∈ ids ∧ choose prio start ids = (i, p) ∧ prio i = some p ∧ start.2 < p ∧
        ∀ j ∈ ids, ∀ q ∈ prio j, q ≤ p ∧ (q = p → i ≤ j) := by
  rcases choose_cases prio start ids with h | ⟨before, after, i, p, rfl, heq, hp, hlt, hb, ha⟩
  · exact .inl h
  · refine .inr ⟨i, p, List.mem_append_right _ List.mem_cons_self, heq, hp, hlt, ?_⟩
    intro j hj q hq
    rcases List.mem_append.mp hj with hj | hj
    · have hqp := hb j hj q hq
      exact ⟨hqp.le, fun h ↦ absurd h hqp.ne⟩
    rcases List.mem_cons.mp hj with rfl | hj
    · rw [hp] at hq
      exact ⟨(Option.some.inj hq).symm.le, fun _ ↦ le_refl j⟩
    · have hij : i < j := List.rel_of_pairwise_cons (List.pairwise_append.mp hsorted).2.1 hj
      exact ⟨ha j hj q hq, fun _ ↦ hij.le⟩

end Pure

/-! ## What the loop is for -/

section Chosen

variable [LinearOrder ι] {eligible eligible' : ι → Prop} {rank rank' : ι → π} {i j default : ι}

/-- The first one of the highest rank among the eligible ones. -/
structure FirstBest (P : ι → Prop) (rank : ι → π) (i : ι) : Prop where
  eligible : P i
  le : ∀ j, P j → rank j ≤ rank i
  first : ∀ j, P j → rank j = rank i → i ≤ j

/-- The first one of the highest rank, or a default if none is eligible. -/
def Chosen (default : ι) (eligible : ι → Prop) (rank : ι → π) (i : ι) : Prop :=
  (i = default ∧ ∀ j, ¬ eligible j) ∨ FirstBest eligible rank i

/-- Of two eligible ones the second one is chosen if its rank is higher. -/
theorem FirstBest.eq_iff_of_pair {k : ι} (h : FirstBest eligible rank i) (hj : eligible j)
    (hk : eligible k) (hlt : j < k) (hpair : i = j ∨ i = k) : i = k ↔ rank j < rank k := by
  constructor
  · rintro rfl
    exact lt_of_le_of_ne (h.le j hj) fun heq ↦ absurd (h.first j hj heq) (not_le.mpr hlt)
  · intro hrank
    rcases hpair with rfl | rfl
    · exact absurd hrank (not_lt.mpr (h.le k hk))
    · rfl

theorem Chosen.firstBest (h : Chosen default eligible rank i) (hj : eligible j) :
    FirstBest eligible rank i := by
  rcases h with ⟨-, hnone⟩ | h
  · exact absurd hj (hnone j)
  · exact h

/-- Only the order of the ranks of the eligible ones matters. -/
theorem Chosen.congr (h : Chosen default eligible rank i) (heligible : ∀ j, eligible j ↔ eligible' j)
    (horder : ∀ j k, eligible j → eligible k → j < k → (rank j < rank k ↔ rank' j < rank' k)) :
    Chosen default eligible' rank' i := by
  rcases h with ⟨rfl, hnone⟩ | h
  · exact .inl ⟨rfl, fun j hj ↦ hnone j ((heligible j).mpr hj)⟩
  have hcompare : ∀ j, eligible j → rank' j ≤ rank' i ∧ (rank' j = rank' i → i ≤ j) := by
    intro j hj
    rcases lt_trichotomy j i with hlt | rfl | hgt
    · have hrank : rank j < rank i :=
        lt_of_le_of_ne (h.le j hj) fun heq ↦ absurd (h.first j hj heq) (not_le.mpr hlt)
      have hrank' := (horder j i hj h.eligible hlt).mp hrank
      exact ⟨hrank'.le, fun heq ↦ absurd heq hrank'.ne⟩
    · exact ⟨le_refl _, fun _ ↦ le_refl _⟩
    · have hrank' := mt (horder i j h.eligible hj hgt).mpr (not_lt.mpr (h.le j hj))
      exact ⟨not_lt.mp hrank', fun _ ↦ hgt.le⟩
  refine .inr ⟨(heligible i).mp h.eligible, fun j hj ↦ ?_, fun j hj ↦ ?_⟩
  · exact (hcompare j ((heligible j).mpr hj)).1
  · exact (hcompare j ((heligible j).mpr hj)).2

/-- The loop over the sorted candidates finds the first one of the highest rank. -/
theorem chosen_choose {prio : ι → Option π} {start : ι × π} {ids : List ι}
    (hsorted : ids.Pairwise (· < ·)) (hmem : ∀ i, eligible i → i ∈ ids)
    (hprio : ∀ i ∈ ids, ∀ q, start.2 < q → (prio i = some q ↔ eligible i ∧ rank i = q))
    (hrank : ∀ i, eligible i → start.2 < rank i) :
    Chosen start.1 eligible rank (choose prio start ids).1 := by
  have hsome : ∀ j, eligible j → prio j = some (rank j) :=
    fun j hj ↦ (hprio j (hmem j hj) _ (hrank j hj)).mpr ⟨hj, rfl⟩
  rcases choose_of_sorted prio start hsorted with ⟨heq, hle⟩ | ⟨i, q, hi, heq, hq, hlt, hmax⟩
  · rw [heq]
    refine .inl ⟨rfl, fun j hj ↦ ?_⟩
    exact absurd (hrank j hj) (not_lt.mpr (hle j (hmem j hj) _ (hsome j hj)))
  · obtain ⟨heligible, rfl⟩ := (hprio i hi q hlt).mp hq
    rw [heq]
    refine .inr ⟨heligible, fun j hj ↦ ?_, fun j hj ↦ ?_⟩
    · exact (hmax j (hmem j hj) _ (hsome j hj)).1
    · exact (hmax j (hmem j hj) _ (hsome j hj)).2

end Chosen

/-! ## Priorities that may fail -/

theorem chooseM_eq_ok {prio : ι → Except φ (Option π)} {c : ι → Option π} {ids : List ι}
    (h : ∀ i ∈ ids, prio i = .ok (c i)) (start : ι × π) :
    chooseM prio start ids = .ok (choose c start ids) := by
  induction ids generalizing start with
  | nil => rfl
  | cons i ids ih =>
    have hfirst := h i List.mem_cons_self
    have hrest := ih (fun j hj ↦ h j (List.mem_cons_of_mem i hj)) (better start i (c i))
    rw [chooseM, List.foldlM_cons, hfirst]
    exact hrest

/-- A loop that ends has found every priority. -/
theorem exists_of_chooseM_eq_ok {prio : ι → Except φ (Option π)} {ids : List ι} {start r : ι × π}
    (h : chooseM prio start ids = .ok r) {i : ι} (hi : i ∈ ids) : ∃ c, prio i = .ok c := by
  induction ids generalizing start with
  | nil => cases hi
  | cons j ids ih =>
    rw [chooseM, List.foldlM_cons] at h
    cases hj : prio j with
    | error e =>
      rw [hj] at h
      cases h
    | ok c =>
      rw [hj] at h
      rcases List.mem_cons.mp hi with rfl | hi
      · exact ⟨c, hj⟩
      · exact ih h hi

/-- A loop that fails has asked for a priority that fails. -/
theorem exists_of_chooseM_eq_error {prio : ι → Except φ (Option π)} {ids : List ι} {start : ι × π}
    {e : φ} (h : chooseM prio start ids = .error e) : ∃ i ∈ ids, prio i = .error e := by
  induction ids generalizing start with
  | nil => cases h
  | cons j ids ih =>
    rw [chooseM, List.foldlM_cons] at h
    cases hj : prio j with
    | error e' =>
      rw [hj] at h
      cases h
      exact ⟨j, List.mem_cons_self, hj⟩
    | ok c =>
      rw [hj] at h
      obtain ⟨i, hi, hprio⟩ := ih h
      exact ⟨i, List.mem_cons_of_mem j hi, hprio⟩

end CoverageVP.Lib.Selection
