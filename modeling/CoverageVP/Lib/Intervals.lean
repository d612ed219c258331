import Mathlib.Data.List.Basic

/-!
# Intervals between neighbours

Two elements of a set are neighbours if they are different and no third one lies between them. The
half-open intervals between neighbours are disjoint, and those of an increasing list are the
intervals from each of its elements to the next, which cover what lies between its ends.
-/

namespace CoverageVP.Lib

variable {α : Type}

/-- The pairs of consecutive elements of a list. -/
def pieces : List α → List (α × α)
  | a :: b :: l => (a, b) :: pieces (b :: l)
  | _ => []

@[simp]
theorem pieces_cons_cons (a b : α) (l : List α) :
    pieces (a :: b :: l) = (a, b) :: pieces (b :: l) := rfl

variable [LE α] [LT α] [Std.IsLinearOrder α] [Std.LawfulOrderLT α]

/-- Two elements of a set with none between them, the smaller one first. -/
structure Neighbours (P : α → Prop) (a b : α) : Prop where
  left : P a
  right : P b
  lt : a < b
  none_between : ∀ c, P c → a < c → ¬ c < b

/-- Intervals between neighbours that have an element in common are equal. -/
theorem Neighbours.eq_of_mem {P : α → Prop} {a b a' b' x : α} (h : Neighbours P a b)
    (h' : Neighbours P a' b') (hle : a ≤ x) (hlt : x < b) (hle' : a' ≤ x) (hlt' : x < b') :
    a = a' ∧ b = b' := by
  have hleft : a = a' := by
    apply Std.le_antisymm
    · exact Std.not_lt.mp fun hlt ↦
        h'.none_between a h.left hlt (Std.lt_of_le_of_lt hle hlt')
    · exact Std.not_lt.mp fun hlt' ↦
        h.none_between a' h'.left hlt' (Std.lt_of_le_of_lt hle' hlt)
  subst hleft
  refine ⟨rfl, Std.le_antisymm ?_ ?_⟩
  · exact Std.not_lt.mp (h.none_between b' h'.right h'.lt)
  · exact Std.not_lt.mp (h'.none_between b h.right h.lt)

/-- A new least element has the former one as its neighbour. -/
theorem neighbours_cons {P : α → Prop} {a b : α} (hb : P b) (hab : a < b) (hleast : ∀ c, P c → b ≤ c)
    (x y : α) :
    Neighbours (fun c ↦ c = a ∨ P c) x y ↔ (x = a ∧ y = b) ∨ Neighbours P x y := by
  constructor
  · rintro ⟨rfl | hx, rfl | hy, hlt, hnone⟩
    · exact absurd hlt Std.lt_irrefl
    · left
      refine ⟨rfl, Std.le_antisymm ?_ (hleast y hy)⟩
      exact Std.not_lt.mp (hnone b (.inr hb) hab)
    · have hya := Std.lt_of_lt_of_le hab (hleast x hx)
      exact absurd (Std.lt_trans hlt hya) Std.lt_irrefl
    · exact .inr ⟨hx, hy, hlt, fun c hc ↦ hnone c (.inr hc)⟩
  · rintro (⟨rfl, rfl⟩ | h)
    · refine ⟨.inl rfl, .inr hb, hab, ?_⟩
      rintro c (rfl | hc) hac hcb
      · exact Std.lt_irrefl hac
      · exact Std.not_lt.mpr (hleast c hc) hcb
    · refine ⟨.inr h.left, .inr h.right, h.lt, ?_⟩
      rintro c (rfl | hc) hxc hcy
      · have hax := Std.lt_of_lt_of_le hab (hleast x h.left)
        exact Std.lt_irrefl (Std.lt_trans hax hxc)
      · exact h.none_between c hc hxc hcy

theorem mem_pieces {l : List α} (h : l.Pairwise (· < ·)) (x y : α) :
    (x, y) ∈ pieces l ↔ Neighbours (· ∈ l) x y := by
  induction l with
  | nil => exact iff_of_false List.not_mem_nil fun h ↦ List.not_mem_nil h.left
  | cons a l ih =>
    cases l with
    | nil =>
      refine iff_of_false List.not_mem_nil fun h ↦ ?_
      have hx := List.mem_singleton.mp h.left
      have hy := List.mem_singleton.mp h.right
      exact Std.lt_irrefl (hy ▸ hx ▸ h.lt)
    | cons b l =>
      obtain ⟨hfirst, hrest⟩ := List.pairwise_cons.mp h
      have hleast : ∀ c ∈ b :: l, b ≤ c := by
        intro c hc
        rcases List.mem_cons.mp hc with rfl | hc
        · exact Std.le_refl c
        · exact Std.le_of_lt ((List.pairwise_cons.mp hrest).1 c hc)
      have hmem : (· ∈ a :: b :: l) = fun c ↦ c = a ∨ c ∈ b :: l :=
        funext fun c ↦ propext List.mem_cons
      rw [pieces_cons_cons, List.mem_cons, Prod.mk.injEq, ih hrest, hmem]
      exact (neighbours_cons List.mem_cons_self (hfirst b List.mem_cons_self) hleast x y).symm

/-- The pieces of a list cover what lies between its first element and another one. -/
theorem exists_mem_pieces {a b x : α} {l : List α} (hle : a ≤ x) (hb : b ∈ l) (hlt : x < b) :
    ∃ p ∈ pieces (a :: l), p.1 ≤ x ∧ x < p.2 := by
  induction l generalizing a with
  | nil => cases hb
  | cons c l ih =>
    rw [pieces_cons_cons]
    by_cases hc : x < c
    · exact ⟨(a, c), List.mem_cons_self, hle, hc⟩
    · have hmem : b ∈ l := by
        rcases List.mem_cons.mp hb with rfl | hb
        · exact absurd hlt hc
        · exact hb
      obtain ⟨p, hp, hin⟩ := ih (Std.not_lt.mp hc) hmem
      exact ⟨p, List.mem_cons_of_mem _ hp, hin⟩

end CoverageVP.Lib
