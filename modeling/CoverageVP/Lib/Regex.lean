import Mathlib.Data.List.Basic

/-!
# Regular expressions that prefer matches

Regular expressions with groups, matched in the way of a backtracking matcher: all matches at a
position are listed in the order in which the matcher would try them. A repetition, here of single
characters, prefers to take more, and an alternative prefers its left side. A search takes the first
match at the leftmost position that has one.
-/

namespace CoverageVP.Lib

inductive Regex (α : Type)
  | one (accepts : α → Bool)
  | many (accepts : α → Bool)
  | seq (r s : Regex α)
  | alt (r s : Regex α)
  | group (r : Regex α)

namespace Regex

variable {α : Type}

/-- The texts of the groups, and what is left of the input. -/
structure Match (α : Type) where
  groups : List (List α)
  rest : List α

/-- What is left after a repetition, after the longest one first. -/
def runs (accepts : α → Bool) : List α → List (List α)
  | [] => [[]]
  | x :: xs => if accepts x then runs accepts xs ++ [x :: xs] else [x :: xs]

/-- The match of a sequence. -/
def Match.after (m m' : Match α) : Match α := ⟨m'.groups ++ m.groups, m.rest⟩

/-- The match of a group in an input. -/
def Match.grouped (xs : List α) (m : Match α) : Match α :=
  ⟨xs.take (xs.length - m.rest.length) :: m.groups, m.rest⟩

def allMatches : Regex α → List α → List (Match α)
  | one _, [] => []
  | one accepts, x :: xs => if accepts x then [⟨[], xs⟩] else []
  | many accepts, xs => (runs accepts xs).map fun rest ↦ ⟨[], rest⟩
  | seq r s, xs => (r.allMatches xs).flatMap fun m ↦ (s.allMatches m.rest).map (·.after m)
  | alt r s, xs => r.allMatches xs ++ s.allMatches xs
  | group r, xs => (r.allMatches xs).map (·.grouped xs)

/-- The text of a group is what its match took. -/
theorem Match.grouped_append (xs ys : List α) (groups : List (List α)) :
    Match.grouped (xs ++ ys) ⟨groups, ys⟩ = ⟨xs :: groups, ys⟩ := by
  rw [grouped, List.length_append, Nat.add_sub_cancel, List.take_left]

/-- The match that is preferred at the start of the input. -/
def first (r : Regex α) (xs : List α) : Option (Match α) := (r.allMatches xs).head?

/-- The match that is preferred at the leftmost position that has one. -/
def search (r : Regex α) : List α → Option (Match α)
  | [] => r.first []
  | x :: xs => (r.first (x :: xs)).or (search r xs)

/-- A fixed text. -/
def text [DecidableEq α] (x : α) : List α → Regex α
  | [] => one (· = x)
  | y :: ys => seq (one (· = x)) (text y ys)

attribute [local simp] runs allMatches first search text

/-! ## Repetitions -/

theorem mem_runs {accepts : α → Bool} {xs ys : List α} :
    ys ∈ runs accepts xs ↔ ∃ pre, xs = pre ++ ys ∧ ∀ x ∈ pre, accepts x = true := by
  induction xs with
  | nil =>
    constructor
    · intro h
      obtain rfl := List.mem_singleton.mp h
      exact ⟨[], rfl, nofun⟩
    · rintro ⟨pre, h, -⟩
      obtain ⟨-, rfl⟩ := List.append_eq_nil_iff.mp h.symm
      exact List.mem_singleton_self _
  | cons x xs ih =>
    rw [runs]
    constructor
    · intro h
      split at h
      case isFalse =>
        obtain rfl := List.mem_singleton.mp h
        exact ⟨[], rfl, nofun⟩
      case isTrue hx =>
        rcases List.mem_append.mp h with h | h
        · obtain ⟨pre, rfl, hpre⟩ := ih.mp h
          exact ⟨x :: pre, rfl, List.forall_mem_cons.mpr ⟨hx, hpre⟩⟩
        · obtain rfl := List.mem_singleton.mp h
          exact ⟨[], rfl, nofun⟩
    · rintro ⟨pre, hxs, hpre⟩
      cases pre with
      | nil =>
        rw [List.nil_append] at hxs
        rw [← hxs]
        split <;> simp
      | cons p pre =>
        obtain ⟨rfl, rfl⟩ := List.cons_eq_cons.mp hxs
        rw [if_pos (hpre x (List.mem_cons_self))]
        exact List.mem_append_left _
          (ih.mpr ⟨pre, rfl, fun y hy ↦ hpre y (List.mem_cons_of_mem _ hy)⟩)

/-- A repetition that all may follow takes all. -/
theorem head?_runs {accepts : α → Bool} (xs : List α) :
    (runs accepts xs).head? = some (xs.dropWhile accepts) := by
  induction xs with
  | nil => rfl
  | cons x xs ih =>
    rw [runs, List.dropWhile_cons]
    split
    · rw [List.head?_append, ih]
      rfl
    · rfl

/-- The longest repetition that can be continued is taken. -/
theorem findSome?_runs {β : Type} {accepts : α → Bool} {f : List α → Option β} {pre ys : List α}
    {b : β} (hpre : ∀ x ∈ pre, accepts x = true) (hb : f ys = some b)
    (hlongest : ∀ pre' ys', ys = pre' ++ ys' → pre' ≠ [] → (∀ x ∈ pre', accepts x = true) →
      f ys' = none) :
    (runs accepts (pre ++ ys)).findSome? f = some b := by
  induction pre with
  | cons x pre ih =>
    have hx := hpre x List.mem_cons_self
    rw [List.cons_append, runs, if_pos hx, List.findSome?_append,
      ih fun y hy ↦ hpre y (List.mem_cons_of_mem _ hy)]
    rfl
  | nil =>
    rw [List.nil_append]
    cases ys with
    | nil =>
      rw [runs, List.findSome?_singleton]
      exact hb
    | cons y ys =>
      have hnone : ∀ hy : accepts y = true, (runs accepts ys).findSome? f = none := by
        intro hy
        rw [List.findSome?_eq_none_iff]
        intro zs hzs
        obtain ⟨pre', rfl, hpre'⟩ := mem_runs.mp hzs
        exact hlongest (y :: pre') zs rfl (List.cons_ne_nil _ _)
          (List.forall_mem_cons.mpr ⟨hy, hpre'⟩)
      rw [runs]
      split
      case isTrue hy =>
        rw [List.findSome?_append, hnone hy, List.findSome?_singleton, hb]
        rfl
      case isFalse =>
        rw [List.findSome?_singleton]
        exact hb

/-! ## First matches -/

theorem first_seq (r s : Regex α) (xs : List α) :
    (seq r s).first xs = (r.allMatches xs).findSome? fun m ↦ (s.first m.rest).map (·.after m) := by
  rw [first, allMatches, List.head?_flatMap]
  congr
  funext m
  rw [List.head?_map]
  rfl

theorem first_group (r : Regex α) (xs : List α) :
    (group r).first xs = (r.first xs).map (·.grouped xs) := by
  rw [first, allMatches, List.head?_map]
  rfl

theorem first_seq_one_cons (accepts : α → Bool) (s : Regex α) (x : α) (xs : List α) :
    (seq (one accepts) s).first (x :: xs) = if accepts x then s.first xs else none := by
  have hafter : (fun m : Match α ↦ m.after ⟨[], xs⟩) = id := by
    funext m
    exact congrArg (Match.mk · m.rest) (List.nil_append m.groups)
  rw [first_seq, allMatches]
  split
  · rw [List.findSome?_singleton, hafter, Option.map_id_apply]
  · rfl

theorem first_many (accepts : α → Bool) (xs : List α) :
    (many accepts).first xs = some ⟨[], xs.dropWhile accepts⟩ := by
  rw [first, allMatches, List.head?_map, head?_runs]
  rfl

/-- A fixed text has one match. -/
theorem allMatches_text_append [DecidableEq α] (x : α) (xs ys : List α) :
    (text x xs).allMatches (x :: xs ++ ys) = [⟨[], ys⟩] := by
  induction xs generalizing x with
  | nil => simp
  | cons y xs ih =>
    rw [text, allMatches, List.cons_append, allMatches, if_pos (decide_eq_true rfl),
      List.flatMap_singleton, ih y]
    rfl

theorem allMatches_text_of_not_isPrefix [DecidableEq α] {x : α} {xs ys : List α}
    (h : ¬ x :: xs <+: ys) : (text x xs).allMatches ys = [] := by
  induction xs generalizing x ys with
  | nil =>
    cases ys with
    | nil => rfl
    | cons y ys =>
      rw [text, allMatches, if_neg]
      intro hx
      obtain rfl := of_decide_eq_true hx
      exact h ⟨ys, rfl⟩
  | cons z xs ih =>
    cases ys with
    | nil => rfl
    | cons y ys =>
      rw [text, allMatches, allMatches]
      split
      case isFalse => rfl
      case isTrue hx =>
        obtain rfl := of_decide_eq_true hx
        rw [List.flatMap_singleton, ih fun h' ↦ h (List.cons_prefix_cons.mpr ⟨rfl, h'⟩)]
        rfl

/-! ## Searches -/

theorem search_eq_none_iff {r : Regex α} {xs : List α} :
    r.search xs = none ↔ ∀ pre ys, xs = pre ++ ys → r.first ys = none := by
  induction xs with
  | nil =>
    rw [search]
    constructor
    · intro h pre ys hxs
      obtain ⟨-, rfl⟩ := List.append_eq_nil_iff.mp hxs.symm
      exact h
    · intro h
      exact h [] [] rfl
  | cons x xs ih =>
    rw [search, Option.or_eq_none_iff, ih]
    constructor
    · rintro ⟨hfirst, hrest⟩ pre ys hxs
      cases pre with
      | nil =>
        rw [List.nil_append] at hxs
        rw [← hxs]
        exact hfirst
      | cons p pre =>
        obtain ⟨-, rfl⟩ := List.cons_eq_cons.mp hxs
        exact hrest pre ys rfl
    · intro h
      refine ⟨h [] _ rfl, fun pre ys hxs ↦ h (x :: pre) ys ?_⟩
      rw [hxs, List.cons_append]

/-- What is found is a first match somewhere in the input. -/
theorem exists_first_of_search {r : Regex α} {xs : List α} {m : Match α}
    (h : r.search xs = some m) : ∃ pre ys, xs = pre ++ ys ∧ r.first ys = some m := by
  induction xs with
  | nil => exact ⟨[], [], rfl, h⟩
  | cons x xs ih =>
    rw [search] at h
    cases hfirst : r.first (x :: xs) with
    | some m' =>
      rw [hfirst, Option.some_or] at h
      cases h
      exact ⟨[], x :: xs, rfl, hfirst⟩
    | none =>
      rw [hfirst, Option.none_or] at h
      obtain ⟨pre, ys, rfl, hys⟩ := ih h
      exact ⟨x :: pre, ys, rfl, hys⟩

/-- A match at the start is found first. -/
theorem search_of_first {r : Regex α} {xs : List α} {m : Match α} (h : r.first xs = some m) :
    r.search xs = some m := by
  cases xs with
  | nil => exact h
  | cons x xs =>
    rw [search, h]
    rfl

end Regex

end CoverageVP.Lib
