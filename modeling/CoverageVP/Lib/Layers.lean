import Mathlib.Data.List.Forall2
import CoverageVP.Lib.Program

/-!
# Components on top of components

A component that answers requests keeps an invariant of its own state, whether it answers or fails.
`Yields I E m Q` says that the program `m` does so: what it returns satisfies `Q`, and what it
throws satisfies `E`. A component with a state of its own can be put on top of another one: a
program of the lower component does not touch the upper state, and the invariants are kept side by
side.
-/

namespace CoverageVP.Lib

variable {ε σ τ α β : Type}

/-- The program keeps the invariant and returns into `Q` or throws into `E`. -/
def Yields (I : σ → Prop) (E : ε → Prop) (m : EStateM ε σ α) (Q : α → Prop) : Prop :=
  Triple I m (fun a s ↦ I s ∧ Q a) fun e s ↦ I s ∧ E e

namespace Yields

variable {I : σ → Prop} {E E' : ε → Prop} {m : EStateM ε σ α} {Q R : α → Prop}

theorem conseq (h : Yields I E m Q) (hQ : ∀ a, Q a → R a) (hE : ∀ e, E e → E' e) :
    Yields I E' m R :=
  Triple.conseq h (fun _ h ↦ h) (fun a _ h ↦ ⟨h.1, hQ a h.2⟩) fun e _ h ↦ ⟨h.1, hE e h.2⟩

theorem post (h : Yields I E m Q) (hQ : ∀ a, Q a → R a) : Yields I E m R :=
  h.conseq hQ fun _ h ↦ h

theorem ret {a : α} (h : Q a) : Yields I E (pure a) Q := Triple.ret fun _ hs ↦ ⟨hs, h⟩

theorem raise {e : ε} (h : E e) : Yields I E (throw e : EStateM ε σ α) Q :=
  Triple.raise fun _ hs ↦ ⟨hs, h⟩

theorem ite {c : Prop} [Decidable c] {m' : EStateM ε σ α} (hm : c → Yields I E m Q)
    (hm' : ¬ c → Yields I E m' Q) : Yields I E (if c then m else m') Q :=
  Triple.ite hm hm'

theorem bind {f : α → EStateM ε σ β} {R : β → Prop} (hm : Yields I E m Q)
    (hf : ∀ a, Q a → Yields I E (f a) R) : Yields I E (m >>= f) R :=
  Triple.bind hm fun a ↦ Triple.of_start fun _ hs ↦
    Triple.pre (hf a hs.2) fun _ h ↦ h ▸ hs.1

theorem read_bind {f : σ → EStateM ε σ β} {R : β → Prop}
    (h : ∀ s, I s → Yields I E (f s) R) : Yields I E (get >>= f) R :=
  Triple.read_bind fun s hs ↦ Triple.pre (h s hs) fun _ h ↦ h ▸ hs

theorem update {f : σ → σ} (h : ∀ s, I s → I (f s)) :
    Yields I E (modify f : EStateM ε σ PUnit) fun _ ↦ True :=
  Triple.update fun s hs ↦ ⟨h s hs, trivial⟩

/-- A returning run ends in the invariant with a result of the kind that is promised. -/
theorem of_ok (h : Yields I E m Q) {s s' : σ} {a : α} (hs : I s) (hm : m s = .ok a s') :
    I s' ∧ Q a :=
  Triple.of_ok h hs hm

theorem of_error (h : Yields I E m Q) {s s' : σ} {e : ε} (hs : I s) (hm : m s = .error e s') :
    I s' ∧ E e :=
  Triple.of_error h hs hm

end Yields

/-! ## Results that may be errors -/

/-- The result satisfies `Q`, or the error satisfies `E`. -/
def Delivers (E : ε → Prop) (x : Except ε α) (Q : α → Prop) : Prop :=
  match x with
  | .ok a => Q a
  | .error e => E e

namespace Delivers

variable {E : ε → Prop} {Q : α → Prop}

theorem ret {a : α} (h : Q a) : Delivers E (pure a) Q := h

theorem ite {c : Prop} [Decidable c] {x x' : Except ε α} (hx : c → Delivers E x Q)
    (hx' : ¬ c → Delivers E x' Q) : Delivers E (if c then x else x') Q := by
  split
  · exact hx ‹c›
  · exact hx' ‹¬ c›

theorem bind {x : Except ε α} {f : α → Except ε β} {R : β → Prop} (hx : Delivers E x Q)
    (hf : ∀ a, Q a → Delivers E (f a) R) : Delivers E (x >>= f) R := by
  cases x with
  | ok a => exact hf a hx
  | error e => exact hx

theorem conseq {x : Except ε α} {R : α → Prop} {E' : ε → Prop} (h : Delivers E x Q)
    (hQ : ∀ a, Q a → R a) (hE : ∀ e, E e → E' e) : Delivers E' x R := by
  cases x with
  | ok a => exact hQ a h
  | error e => exact hE e h

theorem post {x : Except ε α} {R : α → Prop} (h : Delivers E x Q) (hQ : ∀ a, Q a → R a) :
    Delivers E x R :=
  h.conseq hQ fun _ h ↦ h

end Delivers

/-! ## Requests one after another -/

/-- The responses to a list of requests. A request that fails leaves the state in which it failed. -/
def session {ρ : Type} (answer : ρ → EStateM ε σ α) : List ρ → σ → List (Except ε α)
  | [], _ => []
  | r :: rs, s =>
    match answer r s with
    | .ok a s' => .ok a :: session answer rs s'
    | .error e s' => .error e :: session answer rs s'

/-- If every request keeps the invariant, all responses are of the kind that is promised for their
request, whatever has been asked before. -/
theorem session_delivers {ρ : Type} {answer : ρ → EStateM ε σ α} {I : σ → Prop}
    {E : ρ → ε → Prop} {Q : ρ → α → Prop} {rs : List ρ}
    (h : ∀ r ∈ rs, Yields I (E r) (answer r) (Q r)) {s : σ} (hs : I s) :
    List.Forall₂ (fun r x ↦ Delivers (E r) x (Q r)) rs (session answer rs s) := by
  induction rs generalizing s with
  | nil => exact .nil
  | cons r rest ih =>
    obtain ⟨hr, hrest⟩ := List.forall_mem_cons.mp h
    cases hrun : answer r s with
    | ok a s' =>
      obtain ⟨hs', ha⟩ := hr.of_ok hs hrun
      rw [session, hrun]
      exact .cons ha (ih hrest hs')
    | error e s' =>
      obtain ⟨hs', he⟩ := hr.of_error hs hrun
      rw [session, hrun]
      exact .cons he (ih hrest hs')

/-! ## A component on top of another one -/

/-- A program of the lower component. -/
def below (m : EStateM ε σ α) : EStateM ε (σ × τ) α := fun s ↦
  match m s.1 with
  | .ok a s' => .ok a (s', s.2)
  | .error e s' => .error e (s', s.2)

/-- The state of the upper component. -/
def getOwn : EStateM ε (σ × τ) τ := fun s ↦ .ok s.2 s

def modifyOwn (f : τ → τ) : EStateM ε (σ × τ) PUnit := modify fun s ↦ (s.1, f s.2)

/-- The invariants of both components. -/
def Both (I : σ → Prop) (J : τ → Prop) (s : σ × τ) : Prop := I s.1 ∧ J s.2

namespace Yields

variable {I : σ → Prop} {J : τ → Prop} {E : ε → Prop}

theorem below {m : EStateM ε σ α} {Q : α → Prop} (h : Yields I E m Q) :
    Yields (Both I J) E (below m) Q := by
  rintro ⟨s, t⟩ ⟨hs, ht⟩
  have hrun := h s hs
  unfold Lib.below
  dsimp only
  cases hm : m s with
  | ok a s' =>
    rw [hm] at hrun
    exact ⟨⟨hrun.1, ht⟩, hrun.2⟩
  | error e s' =>
    rw [hm] at hrun
    exact ⟨⟨hrun.1, ht⟩, hrun.2⟩

theorem getOwn : Yields (Both I J) E getOwn J := fun _ hs ↦ ⟨hs, hs.2⟩

theorem modifyOwn {f : τ → τ} (h : ∀ t, J t → J (f t)) :
    Yields (Both I J) E (modifyOwn f) fun _ ↦ True :=
  update fun s hs ↦ ⟨hs.1, h s.2 hs.2⟩

end Yields

end CoverageVP.Lib
