import Mathlib.Order.Lattice

/-!
# Notifications of an event

An event has at most one pending notification. A notification without a delay replaces every other
one, and a timed one is replaced by an earlier one only.
-/

namespace CoverageVP.Lib

/-- The pending notification of an event: none, one in the same instant, or one at a later time. -/
inductive Notification (τ : Type)
  | none
  | delta
  | timed (t : τ)
  deriving DecidableEq, Repr

namespace Notification

variable {τ : Type} [LinearOrder τ]

/-- A notification at a time, or without a delay. -/
def notify : Notification τ → Option τ → Notification τ
  | .delta, _ => .delta
  | _, .none => .delta
  | .none, some t => .timed t
  | .timed pending, some t => if pending ≤ t then .timed pending else .timed t

def notifyAll (pending : Notification τ) (ts : List (Option τ)) : Notification τ :=
  ts.foldl notify pending

theorem notifyAll_delta (ts : List (Option τ)) : notifyAll .delta ts = .delta := by
  induction ts with
  | nil => rfl
  | cons t ts ih =>
    cases t with
    | none => exact ih
    | some t => exact ih

/-- The earliest notification is pending unless one has no delay. -/
theorem notifyAll_timed (t₀ : τ) (ts : List (Option τ)) :
    (Option.none ∈ ts ∧ notifyAll (.timed t₀) ts = .delta) ∨
      (Option.none ∉ ts ∧ ∃ t, (t = t₀ ∨ some t ∈ ts) ∧ notifyAll (.timed t₀) ts = .timed t ∧
        t ≤ t₀ ∧ ∀ t', some t' ∈ ts → t ≤ t') := by
  induction ts generalizing t₀ with
  | nil =>
    refine .inr ⟨List.not_mem_nil, t₀, .inl rfl, rfl, le_refl t₀, fun t' h ↦ ?_⟩
    exact absurd h List.not_mem_nil
  | cons t ts ih =>
    cases t with
    | none => exact .inl ⟨List.mem_cons_self, notifyAll_delta ts⟩
    | some t =>
      have hmin : notify (.timed t₀) (some t) = .timed (min t₀ t) := by
        rw [notify, min_def]
        split <;> rfl
      have hfold : notifyAll (.timed t₀) (some t :: ts) = notifyAll (.timed (min t₀ t)) ts := by
        rw [notifyAll, List.foldl_cons, hmin, notifyAll]
      rw [hfold]
      rcases ih (min t₀ t) with ⟨hmem, hdelta⟩ | ⟨hmem, u, hu, htimed, hle, hall⟩
      · exact .inl ⟨List.mem_cons_of_mem _ hmem, hdelta⟩
      · refine .inr ⟨?_, u, ?_, htimed, hle.trans (min_le_left t₀ t), ?_⟩
        · intro h
          rcases List.mem_cons.mp h with h | h
          · cases h
          · exact hmem h
        · rcases hu with rfl | hu
          · rcases le_total t₀ t with h | h
            · exact .inl (min_eq_left h)
            · rw [min_eq_right h]
              exact .inr List.mem_cons_self
          · exact .inr (List.mem_cons_of_mem _ hu)
        · intro t' ht'
          rcases List.mem_cons.mp ht' with h | h
          · cases h
            exact hle.trans (min_le_right t₀ _)
          · exact hall t' h

/-- What is pending after all notifications of a run. -/
theorem notifyAll_cases (ts : List (Option τ)) :
    (ts = [] ∧ notifyAll .none ts = .none) ∨
      (Option.none ∈ ts ∧ notifyAll .none ts = .delta) ∨
      (Option.none ∉ ts ∧ ∃ t, some t ∈ ts ∧ notifyAll .none ts = .timed t ∧
        ∀ t', some t' ∈ ts → t ≤ t') := by
  cases ts with
  | nil => exact .inl ⟨rfl, rfl⟩
  | cons t ts =>
    cases t with
    | none => exact .inr (.inl ⟨List.mem_cons_self, notifyAll_delta ts⟩)
    | some t =>
      have hfold : notifyAll .none (some t :: ts) = notifyAll (.timed t) ts := rfl
      rw [hfold]
      rcases notifyAll_timed t ts with ⟨hmem, hdelta⟩ | ⟨hmem, u, hu, htimed, hle, hall⟩
      · exact .inr (.inl ⟨List.mem_cons_of_mem _ hmem, hdelta⟩)
      · refine .inr (.inr ⟨?_, u, ?_, htimed, ?_⟩)
        · intro h
          rcases List.mem_cons.mp h with h | h
          · cases h
          · exact hmem h
        · rcases hu with rfl | hu
          · exact List.mem_cons_self
          · exact List.mem_cons_of_mem _ hu
        · intro t' ht'
          rcases List.mem_cons.mp ht' with h | h
          · cases h
            exact hle
          · exact hall t' h

end Notification

end CoverageVP.Lib
