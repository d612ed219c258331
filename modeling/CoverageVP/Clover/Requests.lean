import CoverageVP.Clover.Context

/-!
# Requests for inputs

What a request for one input and a request for a list of inputs can do to the execution context:
which values are handed out, and what happens to the schedule and to the store.
-/

namespace CoverageVP.Clover

/-! ## One request -/

section FindRemoveOrRandom

variable {T : IntType} {name : String} {s s' : InputState} {value : IntValue}

/-- A scheduled value of another type fails the assertion. -/
def Accepts (schedule : ConcreteStore) (T : IntType) (name : String) : Prop :=
  ∀ value, schedule[name]? = some value → value.type = T

instance (schedule : ConcreteStore) (T : IntType) (name : String) :
    Decidable (Accepts schedule T name) :=
  decidable_of_iff (∀ value ∈ schedule[name]?, value.type = T) Iff.rfl

/-- The request for `name` in state `s` hands out `value` and leads to `s'`. -/
structure Handed (T : IntType) (name : String) (s : InputState) (value : IntValue)
    (s' : InputState) : Prop where
  accepts : Accepts s.ctx.nextRun T name
  type : value.type = T
  lastRun : s'.ctx.lastRun = s.ctx.lastRun.insert name value
  nextRun : s'.ctx.nextRun = s.ctx.nextRun.erase name
  origin : (s.ctx.nextRun[name]? = some value ∧ s'.rand = s.rand) ∨
    (s.ctx.nextRun[name]? = none ∧ value = T.cast (s.rand 0) ∧ s'.rand = s.rand.tail)

/-- What one request can do. -/
theorem findRemoveOrRandom_cases (T : IntType) (name : String) (s : InputState) :
    (∃ value s', findRemoveOrRandom T name s = .ok value s' ∧ Handed T name s value s') ∨
    (findRemoveOrRandom T name s = .error () s ∧ ¬ Accepts s.ctx.nextRun T name) := by
  unfold findRemoveOrRandom
  cases hnext : s.ctx.nextRun[name]? with
  | none =>
    refine .inl ⟨_, _, rfl, ?_, IntValue.type_cast _ _, rfl, ?_, .inr ⟨hnext, rfl, rfl⟩⟩
    · intro value hvalue
      rw [hnext] at hvalue
      cases hvalue
    · apply Std.ExtTreeMap.ext_getElem?
      intro k
      by_cases hk : name = k
      · subst hk
        simp [hnext]
      · simp [Std.ExtTreeMap.getElem?_erase, hk]
  | some concrete =>
    by_cases htype : concrete.type = T
    · refine .inl ⟨concrete, _, if_pos htype, ?_, htype, rfl, rfl, .inl ⟨hnext, rfl⟩⟩
      intro value hvalue
      rw [hnext] at hvalue
      obtain rfl := Option.some.inj hvalue
      exact htype
    · refine .inr ⟨if_neg htype, ?_⟩
      intro haccepts
      exact htype (haccepts concrete hnext)

namespace Handed

theorem getElem?_lastRun (h : Handed T name s value s') (n : String) :
    s'.ctx.lastRun[n]? = if name = n then some value else s.ctx.lastRun[n]? := by
  rw [h.lastRun]
  simp [Std.ExtTreeMap.getElem?_insert]

theorem getElem?_nextRun (h : Handed T name s value s') (n : String) :
    s'.ctx.nextRun[n]? = if name = n then none else s.ctx.nextRun[n]? := by
  rw [h.nextRun]
  simp [Std.ExtTreeMap.getElem?_erase]

theorem eq_of_scheduled (h : Handed T name s value s') {x : IntValue}
    (hx : s.ctx.nextRun[name]? = some x) : value = x := by
  rcases h.origin with ⟨hvalue, -⟩ | ⟨hnone, -⟩
  · rw [hx] at hvalue
    exact (Option.some.inj hvalue).symm
  · rw [hx] at hnone
    cases hnone

theorem findRemoveOrRandom_eq (h : Handed T name s value s') :
    findRemoveOrRandom T name s = .ok value s' := by
  obtain ⟨⟨nextRun, lastRun⟩, rand⟩ := s'
  obtain ⟨haccepts, htype, rfl, rfl, horigin⟩ := h
  rcases findRemoveOrRandom_cases T name s with
    ⟨value', ⟨⟨nextRun', lastRun'⟩, rand'⟩, hok, ⟨-, -, rfl, rfl, horigin'⟩⟩ | ⟨-, hnot⟩
  · obtain ⟨rfl, rfl⟩ : value' = value ∧ rand' = rand := by
      rcases horigin with ⟨hscheduled, hrand⟩ | ⟨hnone, hvalue, hrand⟩
      · rcases horigin' with ⟨hscheduled', hrand'⟩ | ⟨hnone', -⟩
        · rw [hscheduled] at hscheduled'
          exact ⟨(Option.some.inj hscheduled').symm, hrand'.trans hrand.symm⟩
        · rw [hscheduled] at hnone'
          cases hnone'
      · rcases horigin' with ⟨hscheduled', -⟩ | ⟨-, hvalue', hrand'⟩
        · rw [hnone] at hscheduled'
          cases hscheduled'
        · exact ⟨hvalue'.trans hvalue.symm, hrand'.trans hrand.symm⟩
    exact hok
  · exact absurd haccepts hnot

end Handed

end FindRemoveOrRandom

/-! ## Several names -/

/-- The values of several names, in order. -/
def fetch : List (IntType × String) → InputM (List IntValue)
  | [] => pure []
  | (T, name) :: rest => do
    let value ← findRemoveOrRandom T name
    let values ← fetch rest
    return value :: values

/-- All names are handed out. -/
inductive Fetched : List (IntType × String) → InputState → List IntValue → InputState → Prop
  | nil (s : InputState) : Fetched [] s [] s
  | cons {T : IntType} {name : String} {rest : List (IntType × String)} {value : IntValue}
      {values : List IntValue} {s s₁ s₂ : InputState} :
      Handed T name s value s₁ → Fetched rest s₁ values s₂ →
        Fetched ((T, name) :: rest) s (value :: values) s₂

/-- An assertion fails at one of the names. -/
inductive Aborted : List (IntType × String) → InputState → InputState → Prop
  | here {T : IntType} {name : String} {rest : List (IntType × String)} {s : InputState} :
      ¬ Accepts s.ctx.nextRun T name → Aborted ((T, name) :: rest) s s
  | later {T : IntType} {name : String} {rest : List (IntType × String)} {value : IntValue}
      {s s₁ s₂ : InputState} :
      Handed T name s value s₁ → Aborted rest s₁ s₂ → Aborted ((T, name) :: rest) s s₂

theorem fetch_cases (parts : List (IntType × String)) (s : InputState) :
    (∃ values s', fetch parts s = .ok values s' ∧ Fetched parts s values s') ∨
    (∃ s', fetch parts s = .error () s' ∧ Aborted parts s s') := by
  induction parts generalizing s with
  | nil => exact .inl ⟨[], s, rfl, .nil s⟩
  | cons part rest ih =>
    obtain ⟨T, name⟩ := part
    simp only [fetch, bind, EStateM.bind]
    rcases findRemoveOrRandom_cases T name s with ⟨value, s₁, hok, hstep⟩ | ⟨herror, haccepts⟩
    · rcases ih s₁ with ⟨values, s₂, hrest, hfetched⟩ | ⟨s₂, hrest, haborted⟩
      · exact .inl ⟨value :: values, s₂, by simp only [hok, hrest]; rfl, .cons hstep hfetched⟩
      · exact .inr ⟨s₂, by simp only [hok, hrest], .later hstep haborted⟩
    · exact .inr ⟨s, by simp only [herror], .here haccepts⟩

theorem Fetched.fetch_eq {parts : List (IntType × String)} {s s' : InputState}
    {values : List IntValue} (h : Fetched parts s values s') : fetch parts s = .ok values s' := by
  induction h with
  | nil s => rfl
  | cons hstep hrest ih =>
    simp only [fetch, bind, EStateM.bind, hstep.findRemoveOrRandom_eq, ih]
    rfl

section Fetched

variable {parts : List (IntType × String)} {s s' : InputState} {values : List IntValue}

theorem Fetched.length_eq (h : Fetched parts s values s') : values.length = parts.length := by
  induction h with
  | nil s => rfl
  | cons hstep hrest ih => rw [List.length_cons, List.length_cons, ih]

theorem Fetched.map_type (h : Fetched parts s values s') :
    values.map IntValue.type = parts.map Prod.fst := by
  induction h with
  | nil s => rfl
  | cons hstep hrest ih => rw [List.map_cons, List.map_cons, ih, hstep.type]

/-- Only the requested names change in the store and in the schedule. -/
theorem Fetched.frame (h : Fetched parts s values s') {n : String}
    (hn : n ∉ parts.map Prod.snd) :
    s'.ctx.lastRun[n]? = s.ctx.lastRun[n]? ∧ s'.ctx.nextRun[n]? = s.ctx.nextRun[n]? := by
  induction h with
  | nil s => exact ⟨rfl, rfl⟩
  | @cons T name rest value values s s₁ s₂ hstep hrest ih =>
    have hne : name ≠ n := fun h ↦ hn (by simp [h])
    have htail : n ∉ rest.map Prod.snd := fun h ↦ hn (List.mem_cons_of_mem _ h)
    rw [(ih htail).1, (ih htail).2, hstep.getElem?_lastRun, hstep.getElem?_nextRun, if_neg hne,
      if_neg hne]
    exact ⟨rfl, rfl⟩

/-- With distinct names the store ends up with the values handed out, and these are the scheduled
ones. -/
theorem Fetched.getElem? (h : Fetched parts s values s') (hnodup : (parts.map Prod.snd).Nodup)
    {i : Nat} {n : String} {value : IntValue} (hn : (parts.map Prod.snd)[i]? = some n)
    (hvalue : values[i]? = some value) :
    s'.ctx.lastRun[n]? = some value ∧ ∀ x, s.ctx.nextRun[n]? = some x → value = x := by
  induction h generalizing i with
  | nil s => cases hvalue
  | @cons T name rest head values s s₁ s₂ hstep hrest ih =>
    rw [List.map_cons, List.nodup_cons] at hnodup
    cases i with
    | zero =>
      obtain rfl : name = n := by simpa using hn
      obtain rfl : head = value := by simpa using hvalue
      rw [(hrest.frame hnodup.1).1, hstep.getElem?_lastRun, if_pos rfl]
      exact ⟨rfl, fun x hx ↦ hstep.eq_of_scheduled hx⟩
    | succ i =>
      have hmem : n ∈ rest.map Prod.snd := List.mem_of_getElem? (by simpa using hn)
      have hne : name ≠ n := fun h ↦ hnodup.1 (h ▸ hmem)
      obtain ⟨hlast, hscheduled⟩ := ih hnodup.2 (by simpa using hn) (by simpa using hvalue)
      refine ⟨hlast, fun x hx ↦ hscheduled x ?_⟩
      rw [hstep.getElem?_nextRun, if_neg hne, hx]

theorem Fetched.not_scheduled (h : Fetched parts s values s') {n : String}
    (hn : n ∈ parts.map Prod.snd) :
    s'.ctx.nextRun[n]? = none := by
  induction h with
  | nil s => cases hn
  | @cons T name rest value values s s₁ s₂ hstep hrest ih =>
    by_cases hin : n ∈ rest.map Prod.snd
    · exact ih hin
    · rw [(hrest.frame hin).2, hstep.getElem?_nextRun]
      rcases List.mem_cons.mp hn with rfl | hin'
      · exact if_pos rfl
      · exact absurd hin' hin

end Fetched

end CoverageVP.Clover
