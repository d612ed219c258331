import Mathlib.Logic.Basic

/-!
# Sequences of events

A system takes events one after another until one of them fails. A condition on every event of a
sequence is compared with another one event by event, in the states that the sequence goes through.
-/

namespace CoverageVP.Lib

variable {σ ε φ : Type} (step : σ → ε → Except φ σ)

/-- `P` holds for every event of a sequence in the state in which it is taken. -/
def Along (P : σ → ε → Prop) : σ → List ε → Prop
  | _, [] => True
  | s, e :: es => P s e ∧ ∀ s', step s e = .ok s' → Along P s' es

variable {step} {P Q : σ → ε → Prop}

/-- Two conditions that agree in the states of an invariant agree along sequences that keep it. -/
theorem along_iff_of_invariant {I : σ → Prop} {es : List ε}
    (hI : ∀ e ∈ es, ∀ s s', I s → Q s e → step s e = .ok s' → I s')
    (h : ∀ e ∈ es, ∀ s, I s → (P s e ↔ Q s e)) {s : σ} (hs : I s) :
    Along step P s es ↔ Along step Q s es := by
  induction es generalizing s with
  | nil => exact Iff.rfl
  | cons e es ih =>
    have hrest : ∀ s', Q s e → step s e = .ok s' → (Along step P s' es ↔ Along step Q s' es) := by
      intro s' hQ hs'
      exact ih (fun e he ↦ hI e (List.mem_cons_of_mem _ he))
        (fun e he ↦ h e (List.mem_cons_of_mem _ he)) (hI e List.mem_cons_self s s' hs hQ hs')
    rw [Along, Along, h e List.mem_cons_self s hs]
    constructor
    · rintro ⟨hQ, hP⟩
      exact ⟨hQ, fun s' hs' ↦ (hrest s' hQ hs').mp (hP s' hs')⟩
    · rintro ⟨hQ, hQ'⟩
      exact ⟨hQ, fun s' hs' ↦ (hrest s' hQ hs').mpr (hQ' s' hs')⟩

/-- Two conditions that agree in every state agree along every sequence. -/
theorem along_congr (h : ∀ s e, P s e ↔ Q s e) (s : σ) (es : List ε) :
    Along step P s es ↔ Along step Q s es :=
  along_iff_of_invariant (I := fun _ ↦ True) (fun _ _ _ _ _ _ _ ↦ trivial) (fun e _ s _ ↦ h s e)
    trivial

theorem foldlM_cons_of_ok {s s' : σ} {e : ε} (h : step s e = .ok s') (es : List ε) :
    (e :: es).foldlM step s = es.foldlM step s' := by
  rw [List.foldlM_cons, h]
  rfl

theorem foldlM_singleton (s : σ) (e : ε) : [e].foldlM step s = step s e := by
  rw [List.foldlM_cons]
  exact bind_pure _

/-- The condition on the last event of a sequence. -/
theorem Along.last {s s' : σ} (es : List ε) {e : ε} (h : Along step P s (es ++ [e]))
    (hrun : es.foldlM step s = .ok s') : P s' e := by
  induction es generalizing s with
  | nil =>
    cases hrun
    exact h.1
  | cons e' es ih =>
    rw [List.foldlM_cons] at hrun
    cases hstep : step s e' with
    | error f =>
      rw [hstep] at hrun
      cases hrun
    | ok s₁ =>
      rw [hstep] at hrun
      exact ih (h.2 s₁ hstep) hrun

/-- A sequence keeps what every event keeps. -/
theorem invariant_of_foldlM {I : σ → Prop} (hstep : ∀ s e s', I s → step s e = .ok s' → I s')
    {s s' : σ} (es : List ε) (hs : I s) (h : es.foldlM step s = .ok s') : I s' := by
  induction es generalizing s with
  | nil =>
    cases h
    exact hs
  | cons e es ih =>
    rw [List.foldlM_cons] at h
    cases he : step s e with
    | error f =>
      rw [he] at h
      cases h
    | ok s₁ =>
      rw [he] at h
      exact ih (hstep s e s₁ hs he) h

/-- What goes on until it is done, and is nearer to it after each of its own events, is done after as
many of them as it was away. -/
theorem progress_of_foldlM {Going Done : σ → Prop} {own : ε → Bool} {distance : σ → Nat}
    (hdone : ∀ s e s', Done s → step s e = .ok s' → Done s')
    (hgoing : ∀ s e s', Going s → step s e = .ok s' →
      Done s' ∨ Going s' ∧ distance s' + (own e).toNat ≤ distance s)
    {s s' : σ} (es : List ε) (hs : Going s) (h : es.foldlM step s = .ok s') :
    Done s' ∨ Going s' ∧ distance s' + es.countP own ≤ distance s := by
  induction es generalizing s with
  | nil =>
    cases h
    exact .inr ⟨hs, Nat.le_refl _⟩
  | cons e es ih =>
    rw [List.foldlM_cons] at h
    cases he : step s e with
    | error f =>
      rw [he] at h
      cases h
    | ok s₁ =>
      rw [he] at h
      obtain hs₁ | ⟨hs₁, hle⟩ := hgoing s e s₁ hs he
      · exact .inl (invariant_of_foldlM hdone es hs₁ h)
      · obtain hs' | ⟨hs', hle'⟩ := ih hs₁ h
        · exact .inl hs'
        · refine .inr ⟨hs', ?_⟩
          have hcount : (e :: es).countP own = es.countP own + (own e).toNat := by
            rw [List.countP_cons]
            cases own e <;> rfl
          omega

/-- The state that a sequence ends in, or a default. -/
def outcome (m : Except φ σ) (default : σ) : σ :=
  match m with
  | .ok s => s
  | .error _ => default

theorem eq_ok_of_isOk {m : Except φ σ} (h : m.isOk = true) (default : σ) :
    m = .ok (outcome m default) := by
  cases m with
  | ok s => rfl
  | error e => cases h

/-- How a sequence fails. -/
def failure (m : Except φ σ) : Option φ :=
  match m with
  | .ok _ => none
  | .error e => some e

theorem eq_error_of_failure {m : Except φ σ} {e : φ} (h : failure m = some e) : m = .error e := by
  cases m with
  | ok s => cases h
  | error e' =>
    cases h
    rfl

end CoverageVP.Lib
