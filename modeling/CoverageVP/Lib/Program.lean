import Mathlib.Logic.Basic

/-!
# Programs that throw

Rules for programs in the monad `EStateM`, which throw exceptions and keep the state at the point
where they throw. `Triple P m Q E` says that `m`, started in a state of `P`, returns into `Q` or
throws into `E`. `Keeps` is the special case of an invariant that every outcome preserves.
-/

namespace CoverageVP.Lib

variable {ε σ α β : Type}

/-- From every state of `P` the program returns into `Q` or throws into `E`. -/
def Triple (P : σ → Prop) (m : EStateM ε σ α) (Q : α → σ → Prop) (E : ε → σ → Prop) : Prop :=
  ∀ s, P s →
    match m s with
    | .ok a s' => Q a s'
    | .error e s' => E e s'

namespace Triple

variable {P P' : σ → Prop} {m : EStateM ε σ α} {Q Q' : α → σ → Prop} {E E' : ε → σ → Prop}

/-! ## Using a triple -/

theorem of_ok (h : Triple P m Q E) {s s' : σ} {a : α} (hs : P s) (hm : m s = .ok a s') :
    Q a s' := by
  have hrun := h s hs
  rwa [hm] at hrun

theorem of_error (h : Triple P m Q E) {s s' : σ} {e : ε} (hs : P s) (hm : m s = .error e s') :
    E e s' := by
  have hrun := h s hs
  rwa [hm] at hrun

/-- A run that is known. -/
theorem of_run_error {s s' : σ} {e : ε} (hm : m s = .error e s') (h : E e s') :
    Triple (· = s) m Q E := by
  rintro _ rfl
  rw [hm]
  exact h

/-- A program that cannot throw returns. -/
theorem exists_ok (h : Triple P m Q fun _ _ ↦ False) {s : σ} (hs : P s) :
    ∃ a s', m s = .ok a s' ∧ Q a s' := by
  have hrun := h s hs
  cases hm : m s with
  | ok a s' =>
    rw [hm] at hrun
    exact ⟨a, s', rfl, hrun⟩
  | error e s' =>
    rw [hm] at hrun
    exact hrun.elim

/-! ## Structural rules -/

theorem conseq (h : Triple P m Q E) (hP : ∀ s, P' s → P s) (hQ : ∀ a s, Q a s → Q' a s)
    (hE : ∀ e s, E e s → E' e s) : Triple P' m Q' E' := by
  intro s hs
  have hrun := h s (hP s hs)
  cases hm : m s with
  | ok a s' =>
    rw [hm] at hrun
    exact hQ a s' hrun
  | error e s' =>
    rw [hm] at hrun
    exact hE e s' hrun

theorem pre (h : Triple P m Q E) (hP : ∀ s, P' s → P s) : Triple P' m Q E :=
  h.conseq hP (fun _ _ h ↦ h) (fun _ _ h ↦ h)

theorem post (h : Triple P m Q E) (hQ : ∀ a s, Q a s → Q' a s) : Triple P m Q' E :=
  h.conseq (fun _ h ↦ h) hQ (fun _ _ h ↦ h)

theorem and (h : Triple P m Q E) (h' : Triple P m Q' E') :
    Triple P m (fun a s ↦ Q a s ∧ Q' a s) (fun e s ↦ E e s ∧ E' e s) := by
  intro s hs
  have hrun := h s hs
  have hrun' := h' s hs
  cases hm : m s with
  | ok a s' =>
    rw [hm] at hrun hrun'
    exact ⟨hrun, hrun'⟩
  | error e s' =>
    rw [hm] at hrun hrun'
    exact ⟨hrun, hrun'⟩

theorem true_true (m : EStateM ε σ α) : Triple P m (fun _ _ ↦ True) fun _ _ ↦ True := by
  intro s _
  cases m s with
  | ok a s' => trivial
  | error e s' => trivial

/-- The starting state can be fixed. -/
theorem of_start (h : ∀ s, P s → Triple (· = s) m Q E) : Triple P m Q E :=
  fun s hs ↦ h s hs s rfl

theorem ret {a : α} (h : ∀ s, P s → Q a s) : Triple P (pure a) Q E :=
  fun s hs ↦ h s hs

theorem raise {e : ε} (h : ∀ s, P s → E e s) : Triple P (throw e : EStateM ε σ α) Q E :=
  fun s hs ↦ h s hs

theorem ite {c : Prop} [Decidable c] {m' : EStateM ε σ α} (hm : c → Triple P m Q E)
    (hm' : ¬ c → Triple P m' Q E) : Triple P (if c then m else m') Q E := by
  split
  · exact hm ‹c›
  · exact hm' ‹¬ c›

theorem bind {f : α → EStateM ε σ β} {R : β → σ → Prop} (hm : Triple P m Q E)
    (hf : ∀ a, Triple (Q a) (f a) R E) : Triple P (m >>= f) R E := by
  intro s hs
  have hrun := hm s hs
  change match EStateM.bind m f s with
    | .ok a s' => R a s'
    | .error e s' => E e s'
  unfold EStateM.bind
  cases hms : m s with
  | ok a s' =>
    rw [hms] at hrun
    exact hf a s' hrun
  | error e s' =>
    rw [hms] at hrun
    exact hrun

/-- After reading the state, the state read is the current one. -/
theorem read_bind {f : σ → EStateM ε σ β} {R : β → σ → Prop}
    (h : ∀ s, P s → Triple (· = s) (f s) R E) : Triple P (get >>= f) R E :=
  fun s hs ↦ h s hs s rfl

theorem update {f : σ → σ} {Q : PUnit → σ → Prop} (h : ∀ s, P s → Q ⟨⟩ (f s)) :
    Triple P (modify f : EStateM ε σ PUnit) Q E :=
  fun s hs ↦ h s hs

theorem handle {recover : ε → EStateM ε σ α} {F : ε → σ → Prop} (hm : Triple P m Q F)
    (hh : ∀ e, Triple (F e) (recover e) Q E) : Triple P (tryCatch m recover) Q E := by
  intro s hs
  have hrun := hm s hs
  change match EStateM.tryCatch m recover s with
    | .ok a s' => Q a s'
    | .error e s' => E e s'
  unfold EStateM.tryCatch
  cases hms : m s with
  | ok a s' =>
    rw [hms] at hrun
    exact hrun
  | error e s' =>
    rw [hms] at hrun
    exact hh e s' hrun

end Triple

/-! ## Runs on given states -/

/-- The runs of the parts of a run that returns. -/
theorem exists_ok_of_bind_eq_ok {m : EStateM ε σ α} {f : α → EStateM ε σ β} {s s' : σ} {b : β}
    (h : (m >>= f) s = .ok b s') : ∃ a s₁, m s = .ok a s₁ ∧ f a s₁ = .ok b s' := by
  change EStateM.bind m f s = .ok b s' at h
  unfold EStateM.bind at h
  cases hm : m s with
  | ok a s₁ =>
    rw [hm] at h
    exact ⟨a, s₁, rfl, h⟩
  | error e s₁ =>
    rw [hm] at h
    cases h

theorem bind_of_ok {m : EStateM ε σ α} {s s' : σ} {a : α} (h : m s = .ok a s')
    (f : α → EStateM ε σ β) : (m >>= f) s = f a s' := by
  change EStateM.bind m f s = _
  rw [EStateM.bind, h]

theorem get_bind (f : σ → EStateM ε σ α) (s : σ) : (do let s ← get; f s) s = f s s := rfl

theorem bind_of_error {m : EStateM ε σ α} {s s' : σ} {e : ε} (h : m s = .error e s')
    (f : α → EStateM ε σ β) : (m >>= f) s = .error e s' := by
  change EStateM.bind m f s = _
  rw [EStateM.bind, h]

def returns (m : EStateM ε σ α) (s : σ) : Bool :=
  match m s with
  | .ok _ _ => true
  | .error _ _ => false

def stateAfter (m : EStateM ε σ α) (s : σ) : σ :=
  match m s with
  | .ok _ s' => s'
  | .error _ s' => s'

theorem eq_ok_of_returns {m : EStateM ε σ Unit} {s : σ} (h : returns m s = true) :
    m s = .ok () (stateAfter m s) := by
  unfold returns at h
  unfold stateAfter
  cases hm : m s with
  | ok a s' => rfl
  | error e s' =>
    rw [hm] at h
    cases h

/-- What a run returns or throws. -/
def answer (m : EStateM ε σ α) (s : σ) : Except ε α :=
  match m s with
  | .ok a _ => .ok a
  | .error e _ => .error e

/-- The value that a run returns. -/
def result (m : EStateM ε σ α) (s : σ) : Option α :=
  match m s with
  | .ok a _ => some a
  | .error _ _ => none

theorem eq_ok_of_result {m : EStateM ε σ α} {s : σ} {a : α} (h : result m s = some a) :
    m s = .ok a (stateAfter m s) := by
  unfold result at h
  unfold stateAfter
  cases hm : m s with
  | ok a' s' =>
    rw [hm] at h
    cases h
    rfl
  | error e s' =>
    rw [hm] at h
    cases h

/-- The exception that a run ends with. -/
def thrown (m : EStateM ε σ α) (s : σ) : Option ε :=
  match m s with
  | .ok _ _ => none
  | .error e _ => some e

theorem eq_error_of_thrown {m : EStateM ε σ α} {s : σ} {e : ε} (h : thrown m s = some e) :
    m s = .error e (stateAfter m s) := by
  unfold thrown at h
  unfold stateAfter
  cases hm : m s with
  | ok a s' =>
    rw [hm] at h
    cases h
  | error e' s' =>
    rw [hm] at h
    cases h
    rfl

/-- Every outcome of the program preserves `I`. -/
def Keeps (I : σ → Prop) (m : EStateM ε σ α) : Prop := Triple I m (fun _ ↦ I) (fun _ ↦ I)

namespace Keeps

variable {I : σ → Prop} {m : EStateM ε σ α}

theorem ret (a : α) : Keeps I (pure a : EStateM ε σ α) := Triple.ret fun _ h ↦ h

theorem raise (e : ε) : Keeps I (throw e : EStateM ε σ α) := Triple.raise fun _ h ↦ h

theorem ite {c : Prop} [Decidable c] {m' : EStateM ε σ α} (hm : Keeps I m) (hm' : Keeps I m') :
    Keeps I (if c then m else m') :=
  Triple.ite (fun _ ↦ hm) fun _ ↦ hm'

theorem bind {f : α → EStateM ε σ β} (hm : Keeps I m) (hf : ∀ a, Keeps I (f a)) :
    Keeps I (m >>= f) :=
  Triple.bind hm hf

theorem read_bind {f : σ → EStateM ε σ β} (hf : ∀ s, I s → Keeps I (f s)) :
    Keeps I (get >>= f) :=
  Triple.read_bind fun s hs ↦ Triple.pre (hf s hs) fun _ h ↦ h ▸ hs

theorem update {f : σ → σ} (h : ∀ s, I s → I (f s)) :
    Keeps I (modify f : EStateM ε σ PUnit) :=
  Triple.update h

theorem handle {recover : ε → EStateM ε σ α} (hm : Keeps I m) (hh : ∀ e, Keeps I (recover e)) :
    Keeps I (tryCatch m recover) :=
  Triple.handle hm hh

/-- A stronger invariant that holds at the start. -/
theorem strengthen {P J : σ → Prop} (h : Keeps J m) (hP : ∀ s, P s → J s) (hJ : ∀ s, J s → I s) :
    Triple P m (fun _ ↦ I) (fun _ ↦ I) :=
  Triple.conseq h hP (fun _ ↦ hJ) (fun _ ↦ hJ)

end Keeps

end CoverageVP.Lib
