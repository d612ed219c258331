import Mathlib.Logic.Basic

/-!
# Computations that check conditions

A computation fails with a fault or has a result. A condition that is required and does not hold is a
fault.
-/

namespace CoverageVP.Lib

variable {φ α β : Type}

/-- The computation goes on if the condition holds. -/
def require (condition : Prop) [Decidable condition] (fault : φ) : Except φ Unit :=
  if condition then .ok () else .error fault

variable {m : Except φ α} {f : α → Except φ β}

theorem bind_eq_ok {b : β} : (m >>= f) = .ok b ↔ ∃ a, m = .ok a ∧ f a = .ok b := by
  cases m with
  | error e =>
    constructor
    · intro h
      cases h
    · rintro ⟨_, h, -⟩
      cases h
  | ok a =>
    constructor
    · intro h
      exact ⟨a, rfl, h⟩
    · rintro ⟨_, h, hf⟩
      cases h
      exact hf

theorem bind_eq_error {e : φ} :
    (m >>= f) = .error e ↔ m = .error e ∨ ∃ a, m = .ok a ∧ f a = .error e := by
  cases m with
  | error e' =>
    constructor
    · intro h
      cases h
      exact .inl rfl
    · rintro (h | ⟨_, h, _⟩)
      · cases h
        rfl
      · cases h
  | ok a =>
    constructor
    · intro h
      exact .inr ⟨a, rfl, h⟩
    · rintro (h | ⟨_, h, hf⟩)
      · cases h
      · cases h
        exact hf

theorem mapM_eq_ok {g : α → β} {l : List α} (h : ∀ a ∈ l, f a = .ok (g a)) :
    l.mapM f = .ok (l.map g) := by
  induction l with
  | nil => rfl
  | cons a l ih =>
    rw [List.mapM_cons, h a List.mem_cons_self, ih fun x hx ↦ h x (List.mem_cons_of_mem _ hx)]
    rfl

variable {c : Prop} [Decidable c] {fault : φ}

theorem ite_ok_eq_ok {a b : α} :
    (if c then .ok a else .error fault) = (.ok b : Except φ α) ↔ c ∧ a = b := by
  split
  case isTrue h =>
    rw [Except.ok.injEq]
    exact (and_iff_right h).symm
  case isFalse h =>
    refine iff_of_false (fun heq ↦ ?_) fun heq ↦ h heq.1
    cases heq

theorem ite_error_eq_ok {a b : α} :
    (if c then .error fault else .ok a) = (.ok b : Except φ α) ↔ ¬ c ∧ a = b := by
  rw [← ite_not]
  exact ite_ok_eq_ok

theorem require_of (h : c) : require c fault = .ok () := if_pos h

theorem require_bind_of (h : c) : (do require c fault; m) = m := by
  rw [require_of h]
  rfl

theorem require_bind_eq_ok {a : α} : (do require c fault; m) = .ok a ↔ c ∧ m = .ok a := by
  by_cases h : c
  · rw [require_bind_of h]
    exact (and_iff_right h).symm
  · refine iff_of_false (fun heq ↦ ?_) fun heq ↦ h heq.1
    rw [require, if_neg h] at heq
    cases heq

end CoverageVP.Lib
