import CoverageVP.Lib.Program

/-!
# Two programs side by side

Rules for pairs of programs that throw. `Lockstep stop P m n Q E` says that `m` and `n`, started in
states related by `P`, both return into `Q` or both throw into `E`. The exceptions of `stop` end the
comparison: nothing is said about a pair of runs of which one ends with such an exception. A program
that commutes with an update of the state does the same in a state and in its update.
-/

namespace CoverageVP.Lib

variable {ε σ α β : Type}

/-- Both results are returned and related by `Q`, both are thrown and related by `E`, or one of them
ends the comparison. -/
def Together (stop : ε → Prop) (Q : α → α → σ → σ → Prop) (E : ε → ε → σ → σ → Prop) :
    EStateM.Result ε σ α → EStateM.Result ε σ α → Prop
  | .ok a s, .ok b t => Q a b s t
  | .error e s, .error f t => stop e ∨ stop f ∨ E e f s t
  | .ok _ _, .error f _ => stop f
  | .error e _, .ok _ _ => stop e

def Lockstep (stop : ε → Prop) (P : σ → σ → Prop) (m n : EStateM ε σ α)
    (Q : α → α → σ → σ → Prop) (E : ε → ε → σ → σ → Prop) : Prop :=
  ∀ s t, P s t → Together stop Q E (m s) (n t)

namespace Together

variable {stop : ε → Prop} {Q Q' : α → α → σ → σ → Prop} {E E' : ε → ε → σ → σ → Prop}
  {r r' : EStateM.Result ε σ α}

theorem mono (h : Together stop Q E r r') (hQ : ∀ a b s t, Q a b s t → Q' a b s t)
    (hE : ∀ e f s t, E e f s t → E' e f s t) : Together stop Q' E' r r' := by
  cases r with
  | ok a s =>
    cases r' with
    | ok b t => exact hQ a b s t h
    | error f t => exact h
  | error e s =>
    cases r' with
    | ok b t => exact h
    | error f t =>
      rcases h with he | hf | hef
      · exact .inl he
      · exact .inr (.inl hf)
      · exact .inr (.inr (hE e f s t hef))

/-- A result that ends the comparison. -/
theorem of_stop_left {e : ε} {s : σ} (h : stop e) : Together stop Q E (.error e s) r' := by
  cases r' with
  | ok b t => exact h
  | error f t => exact .inl h

theorem of_stop_right {f : ε} {t : σ} (h : stop f) : Together stop Q E r (.error f t) := by
  cases r with
  | ok a s => exact h
  | error e s => exact .inr (.inl h)

end Together

namespace Lockstep

variable {stop : ε → Prop} {P P' : σ → σ → Prop} {m n : EStateM ε σ α}
  {Q Q' : α → α → σ → σ → Prop} {E E' : ε → ε → σ → σ → Prop}

/-! ## Using a pair of runs -/

theorem of_ok (h : Lockstep stop P m n Q E) {s t s' t' : σ} {a b : α} (hst : P s t)
    (hm : m s = .ok a s') (hn : n t = .ok b t') : Q a b s' t' := by
  have hrun := h s t hst
  rwa [hm, hn] at hrun

/-! ## Structural rules -/

theorem conseq (h : Lockstep stop P m n Q E) (hP : ∀ s t, P' s t → P s t)
    (hQ : ∀ a b s t, Q a b s t → Q' a b s t) (hE : ∀ e f s t, E e f s t → E' e f s t) :
    Lockstep stop P' m n Q' E' :=
  fun s t hst ↦ (h s t (hP s t hst)).mono hQ hE

theorem pre (h : Lockstep stop P m n Q E) (hP : ∀ s t, P' s t → P s t) :
    Lockstep stop P' m n Q E :=
  h.conseq hP (fun _ _ _ _ h ↦ h) fun _ _ _ _ h ↦ h

theorem post (h : Lockstep stop P m n Q E) (hQ : ∀ a b s t, Q a b s t → Q' a b s t) :
    Lockstep stop P m n Q' E :=
  h.conseq (fun _ _ h ↦ h) hQ fun _ _ _ _ h ↦ h

/-- The starting states can be fixed. -/
theorem of_start (h : ∀ s t, P s t → Lockstep stop (fun s' t' ↦ s' = s ∧ t' = t) m n Q E) :
    Lockstep stop P m n Q E :=
  fun s t hst ↦ h s t hst s t ⟨rfl, rfl⟩

/-- A pair of programs from fixed states. -/
theorem at_start {s t : σ} (h : Lockstep stop P m n Q E) (hst : P s t) :
    Lockstep stop (fun s' t' ↦ s' = s ∧ t' = t) m n Q E := by
  refine h.pre ?_
  rintro _ _ ⟨rfl, rfl⟩
  exact hst

/-- From fixed states, the runs that return can be remembered. -/
theorem remember {s t : σ} (h : Lockstep stop (fun s' t' ↦ s' = s ∧ t' = t) m n Q E) :
    Lockstep stop (fun s' t' ↦ s' = s ∧ t' = t) m n
      (fun a b s' t' ↦ Q a b s' t' ∧ m s = .ok a s' ∧ n t = .ok b t') E := by
  rintro _ _ ⟨rfl, rfl⟩
  have hrun := h _ _ ⟨rfl, rfl⟩
  rename_i s t
  cases hm : m s with
  | ok a s' =>
    rw [hm] at hrun
    cases hn : n t with
    | ok b t' =>
      rw [hn] at hrun
      exact ⟨hrun, rfl, rfl⟩
    | error f t' =>
      rw [hn] at hrun
      exact hrun
  | error e s' =>
    rw [hm] at hrun
    cases hn : n t with
    | ok b t' =>
      rw [hn] at hrun
      exact hrun
    | error f t' =>
      rw [hn] at hrun
      exact hrun

/-- Two runs whose outcomes are known one by one. -/
theorem of_triples {s t : σ} {Q₁ Q₂ : α → σ → Prop} {E₁ E₂ : ε → σ → Prop}
    (hm : Triple (· = s) m Q₁ E₁) (hn : Triple (· = t) n Q₂ E₂)
    (hok : ∀ a b s' t', Q₁ a s' → Q₂ b t' → Q a b s' t')
    (herr : ∀ e f s' t', E₁ e s' → E₂ f t' → E e f s' t')
    (hleft : ∀ a f s' t', Q₁ a s' → E₂ f t' → stop f)
    (hright : ∀ e b s' t', E₁ e s' → Q₂ b t' → stop e) :
    Lockstep stop (fun s' t' ↦ s' = s ∧ t' = t) m n Q E := by
  rintro s t ⟨rfl, rfl⟩
  have hms := hm s rfl
  have hnt := hn t rfl
  cases hrun : m s with
  | ok a s' =>
    rw [hrun] at hms
    cases hrun' : n t with
    | ok b t' =>
      rw [hrun'] at hnt
      exact hok a b s' t' hms hnt
    | error f t' =>
      rw [hrun'] at hnt
      exact hleft a f s' t' hms hnt
  | error e s' =>
    rw [hrun] at hms
    cases hrun' : n t with
    | ok b t' =>
      rw [hrun'] at hnt
      exact hright e b s' t' hms hnt
    | error f t' =>
      rw [hrun'] at hnt
      exact .inr (.inr (herr e f s' t' hms hnt))

/-- Two runs that return or end the comparison. -/
theorem of_stopping {s t : σ} {Q₁ Q₂ : α → σ → Prop} (hm : Triple (· = s) m Q₁ fun e _ ↦ stop e)
    (hn : Triple (· = t) n Q₂ fun e _ ↦ stop e)
    (hok : ∀ a b s' t', Q₁ a s' → Q₂ b t' → Q a b s' t') :
    Lockstep stop (fun s' t' ↦ s' = s ∧ t' = t) m n Q E := by
  rintro s t ⟨rfl, rfl⟩
  have hms := hm s rfl
  have hnt := hn t rfl
  cases hrun : m s with
  | ok a s' =>
    rw [hrun] at hms
    cases hrun' : n t with
    | ok b t' =>
      rw [hrun'] at hnt
      exact hok a b s' t' hms hnt
    | error f t' =>
      rw [hrun'] at hnt
      exact Together.of_stop_right hnt
  | error e s' =>
    rw [hrun] at hms
    exact Together.of_stop_left hms

theorem ret {a b : α} (h : ∀ s t, P s t → Q a b s t) : Lockstep stop P (pure a) (pure b) Q E :=
  fun s t hst ↦ h s t hst

theorem raise {e f : ε} (h : ∀ s t, P s t → E e f s t) :
    Lockstep stop P (throw e : EStateM ε σ α) (throw f) Q E :=
  fun s t hst ↦ .inr (.inr (h s t hst))

theorem ret_at {a b : α} {s t : σ} (h : Q a b s t) :
    Lockstep stop (fun s' t' ↦ s' = s ∧ t' = t) (pure a) (pure b) Q E := by
  refine ret ?_
  rintro _ _ ⟨rfl, rfl⟩
  exact h

theorem raise_at {e f : ε} {s t : σ} (h : E e f s t) :
    Lockstep stop (fun s' t' ↦ s' = s ∧ t' = t) (throw e : EStateM ε σ α) (throw f) Q E := by
  refine raise ?_
  rintro _ _ ⟨rfl, rfl⟩
  exact h

/-- A program that ends the comparison. -/
theorem raise_stop {e : ε} (h : stop e) : Lockstep stop P (throw e : EStateM ε σ α) n Q E :=
  fun _ _ _ ↦ Together.of_stop_left h

theorem ite {c d : Prop} [Decidable c] [Decidable d] {m' n' : EStateM ε σ α} (hcd : c ↔ d)
    (hm : c → Lockstep stop P m n Q E) (hm' : ¬ c → Lockstep stop P m' n' Q E) :
    Lockstep stop P (if c then m else m') (if d then n else n') Q E := by
  by_cases hc : c
  · rw [if_pos hc, if_pos (hcd.mp hc)]
    exact hm hc
  · rw [if_neg hc, if_neg (mt hcd.mpr hc)]
    exact hm' hc

theorem bind {f g : α → EStateM ε σ β} {R : β → β → σ → σ → Prop} (hm : Lockstep stop P m n Q E)
    (hf : ∀ a b, Lockstep stop (Q a b) (f a) (g b) R E) :
    Lockstep stop P (m >>= f) (n >>= g) R E := by
  intro s t hst
  have hrun := hm s t hst
  change Together stop R E (EStateM.bind m f s) (EStateM.bind n g t)
  unfold EStateM.bind
  cases hms : m s with
  | ok a s' =>
    rw [hms] at hrun
    cases hnt : n t with
    | ok b t' =>
      rw [hnt] at hrun
      exact hf a b s' t' hrun
    | error e t' =>
      rw [hnt] at hrun
      exact Together.of_stop_right hrun
  | error e s' =>
    rw [hms] at hrun
    cases hnt : n t with
    | ok b t' =>
      rw [hnt] at hrun
      exact Together.of_stop_left hrun
    | error e' t' =>
      rw [hnt] at hrun
      exact hrun

/-- After reading the states, the states read are the current ones. -/
theorem read_bind {f g : σ → EStateM ε σ β} {R : β → β → σ → σ → Prop}
    (h : ∀ s t, P s t → Lockstep stop (fun s' t' ↦ s' = s ∧ t' = t) (f s) (g t) R E) :
    Lockstep stop P (get >>= f) (get >>= g) R E :=
  fun s t hst ↦ h s t hst s t ⟨rfl, rfl⟩

theorem update {f g : σ → σ} {Q : PUnit → PUnit → σ → σ → Prop}
    (h : ∀ s t, P s t → Q ⟨⟩ ⟨⟩ (f s) (g t)) :
    Lockstep stop P (modify f : EStateM ε σ PUnit) (modify g) Q E :=
  fun s t hst ↦ h s t hst

/-- The handlers of an exception that ends the comparison end it, too. -/
theorem handle {recover recover' : ε → EStateM ε σ α} {F : ε → ε → σ → σ → Prop}
    (hm : Lockstep stop P m n Q F)
    (hh : ∀ e f, Lockstep stop (F e f) (recover e) (recover' f) Q E)
    (hstop : ∀ e s, stop e → ∃ e' s', recover e s = .error e' s' ∧ stop e')
    (hstop' : ∀ e s, stop e → ∃ e' s', recover' e s = .error e' s' ∧ stop e') :
    Lockstep stop P (tryCatch m recover) (tryCatch n recover') Q E := by
  intro s t hst
  have hrun := hm s t hst
  change Together stop Q E (EStateM.tryCatch m recover s) (EStateM.tryCatch n recover' t)
  unfold EStateM.tryCatch
  have hleft : ∀ {e : ε} {s' : σ} {r : EStateM.Result ε σ α}, stop e →
      Together stop Q E (recover e s') r := by
    intro e s' r he
    obtain ⟨e', s'', heq, he'⟩ := hstop e s' he
    rw [heq]
    exact Together.of_stop_left he'
  have hright : ∀ {e : ε} {t' : σ} {r : EStateM.Result ε σ α}, stop e →
      Together stop Q E r (recover' e t') := by
    intro e t' r he
    obtain ⟨e', t'', heq, he'⟩ := hstop' e t' he
    rw [heq]
    exact Together.of_stop_right he'
  cases hms : m s with
  | ok a s' =>
    rw [hms] at hrun
    cases hnt : n t with
    | ok b t' =>
      rw [hnt] at hrun
      exact hrun
    | error f t' =>
      rw [hnt] at hrun
      exact hright hrun
  | error e s' =>
    rw [hms] at hrun
    cases hnt : n t with
    | ok b t' =>
      rw [hnt] at hrun
      exact hleft hrun
    | error f t' =>
      rw [hnt] at hrun
      rcases hrun with he | hf | hef
      · exact hleft he
      · exact hright hf
      · exact hh e f s' t' hef

end Lockstep

/-! ## Programs that commute with an update -/

def onState (f : σ → σ) : EStateM.Result ε σ α → EStateM.Result ε σ α
  | .ok a s => .ok a (f s)
  | .error e s => .error e (f s)

/-- Updating the state before the program is the same as updating it afterwards. -/
def Commutes (f : σ → σ) (m : EStateM ε σ α) : Prop := ∀ s, m (f s) = onState f (m s)

namespace Commutes

variable {f : σ → σ} {m : EStateM ε σ α}

theorem ret (a : α) : Commutes f (pure a : EStateM ε σ α) := fun _ ↦ rfl

theorem raise (e : ε) : Commutes f (throw e : EStateM ε σ α) := fun _ ↦ rfl

theorem ite {c : Prop} [Decidable c] {m' : EStateM ε σ α} (hm : Commutes f m)
    (hm' : Commutes f m') : Commutes f (if c then m else m') := by
  split
  · exact hm
  · exact hm'

theorem bind {g : α → EStateM ε σ β} (hm : Commutes f m) (hg : ∀ a, Commutes f (g a)) :
    Commutes f (m >>= g) := by
  intro s
  change EStateM.bind m g (f s) = onState f (EStateM.bind m g s)
  unfold EStateM.bind
  rw [hm s]
  cases m s with
  | ok a s' => exact hg a s'
  | error e s' => rfl

/-- What is read does not depend on the update. -/
theorem read_bind {g : σ → EStateM ε σ β} (hread : ∀ s, g (f s) = g s)
    (hg : ∀ s, Commutes f (g s)) : Commutes f (get >>= g) := by
  intro s
  change g (f s) (f s) = onState f (g s s)
  rw [hread]
  exact hg s s

theorem update {g : σ → σ} (h : ∀ s, g (f s) = f (g s)) :
    Commutes f (modify g : EStateM ε σ PUnit) := by
  intro s
  change EStateM.Result.ok _ (g (f s)) = EStateM.Result.ok _ (f (g s))
  rw [h]

end Commutes

end CoverageVP.Lib
