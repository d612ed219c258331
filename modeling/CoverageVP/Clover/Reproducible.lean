import CoverageVP.Clover.Requests

/-!
# Reproducing the inputs of a run

A test case is the store of the values last handed out. It reproduces a run when every value the
run was given is the one the store holds. A scheduled value is removed when it is handed out, so a
second request for the same name gets a random value and overwrites the first one in the store.
`reproducible_iff` says that repeated names are the only obstacle.
-/

namespace CoverageVP.Clover

/-! ## The names a request asks for -/

/-- The value of a request from the values of its names. -/
def assemble (names : List String) (values : List IntValue) : Option ConcolicValue :=
  (List.zipWith (fun n v ↦ Solver.BVC (some n) v) names values).foldl Solver.concatByte none

theorem foldlM_addSymbolicByte (name : String) (indices : List Nat)
    (result : Option ConcolicValue) (s : InputState) :
    (indices.foldlM (addSymbolicByte name) result : InputM _) s =
      match fetch (indices.map fun i ↦ (.uint8, byteName name i)) s with
      | .ok values s' =>
        .ok ((List.zipWith (fun n v ↦ Solver.BVC (some n) v) (indices.map (byteName name))
          values).foldl Solver.concatByte result) s'
      | .error e s' => .error e s' := by
  induction indices generalizing result s with
  | nil => rfl
  | cons i indices ih =>
    simp only [List.foldlM_cons, List.map_cons, addSymbolicByte, getSymbolicByte, fetch, bind,
      EStateM.bind, pure, EStateM.pure]
    cases findRemoveOrRandom .uint8 (byteName name i) s with
    | error e s' => rfl
    | ok value s' =>
      simp only [ih]
      cases fetch (indices.map fun i ↦ (.uint8, byteName name i)) s' <;> rfl

/-- A request fetches its names and assembles the values. -/
theorem call_eq_fetch (request : Request) (s : InputState) :
    request.call s =
      match fetch request.parts s with
      | .ok values s' => .ok (assemble (request.parts.map Prod.snd) values) s'
      | .error e s' => .error e s' := by
  cases request with
  | word name =>
    simp only [Request.call, getSymbolicWord, Request.parts, fetch, bind, EStateM.bind, pure,
      EStateM.pure]
    cases findRemoveOrRandom .uint32 name s <;> rfl
  | byte name =>
    simp only [Request.call, getSymbolicByte, Request.parts, fetch, bind, EStateM.bind, pure,
      EStateM.pure]
    cases findRemoveOrRandom .uint8 name s <;> rfl
  | bytes name size =>
    have hnames : ((List.range size).map fun i ↦ (IntType.uint8, byteName name i)).map Prod.snd =
        (List.range size).map (byteName name) := by
      rw [List.map_map]
      rfl
    rw [Request.call, getSymbolicBytes, foldlM_addSymbolicByte, Request.parts, hnames]
    rfl

/-! ## Runs -/

/-- A run of requests: the values returned, and the state it ends in. -/
inductive Ran :
    List Request → InputState → List (Request × Option ConcolicValue) → InputState → Prop
  | nil (s : InputState) : Ran [] s [] s
  | abort {request : Request} {rest : List Request} {s s' : InputState} :
      Aborted request.parts s s' → Ran (request :: rest) s [] s'
  | cons {request : Request} {rest : List Request} {values : List IntValue} {s s₁ s₂ : InputState}
      {returned : List (Request × Option ConcolicValue)} :
      Fetched request.parts s values s₁ → Ran rest s₁ returned s₂ →
        Ran (request :: rest) s
          ((request, assemble (request.parts.map Prod.snd) values) :: returned) s₂

theorem ran_runRequests (requests : List Request) (s : InputState) :
    Ran requests s (runRequests requests s).1 (runRequests requests s).2 := by
  induction requests generalizing s with
  | nil => exact .nil s
  | cons request rest ih =>
    rw [runRequests, call_eq_fetch]
    rcases fetch_cases request.parts s with ⟨values, s', hok, hfetched⟩ | ⟨s', herror, haborted⟩
    · rw [hok]
      exact .cons hfetched (ih s')
    · rw [herror]
      exact .abort haborted

/-- The names that are requested until a failed assertion ends the run. -/
def requestedNames (schedule : ConcreteStore) : List (IntType × String) → List String
  | [] => []
  | (T, name) :: rest =>
    if Accepts schedule T name then name :: requestedNames (schedule.erase name) rest else []

section Names

variable {parts : List (IntType × String)} {s s' : InputState} {values : List IntValue}

theorem Fetched.requestedNames_append (h : Fetched parts s values s')
    (more : List (IntType × String)) :
    requestedNames s.ctx.nextRun (parts ++ more) =
      parts.map Prod.snd ++ requestedNames s'.ctx.nextRun more := by
  induction h with
  | nil s => rfl
  | cons hstep hrest ih =>
    rw [List.cons_append, requestedNames, if_pos hstep.accepts, ← hstep.nextRun, ih]
    rfl

theorem Aborted.requestedNames_append (h : Aborted parts s s') (more : List (IntType × String)) :
    requestedNames s.ctx.nextRun (parts ++ more) = requestedNames s.ctx.nextRun parts := by
  induction h with
  | here haccepts => rw [List.cons_append, requestedNames, requestedNames, if_neg haccepts,
      if_neg haccepts]
  | later hstep hrest ih =>
    rw [List.cons_append, requestedNames, requestedNames, if_pos hstep.accepts,
      if_pos hstep.accepts, ← hstep.nextRun, ih]

theorem requestedNames_sublist (schedule : ConcreteStore) (parts : List (IntType × String)) :
    (requestedNames schedule parts).Sublist (parts.map Prod.snd) := by
  induction parts generalizing schedule with
  | nil => exact .slnil
  | cons part rest ih =>
    obtain ⟨T, name⟩ := part
    rw [requestedNames]
    split
    · exact (ih _).cons_cons name
    · exact List.nil_sublist _

theorem Aborted.frame (h : Aborted parts s s') {n : String}
    (hn : n ∉ requestedNames s.ctx.nextRun parts) :
    s'.ctx.lastRun[n]? = s.ctx.lastRun[n]? := by
  induction h with
  | here haccepts => rfl
  | later hstep hrest ih =>
    rw [requestedNames, if_pos hstep.accepts, ← hstep.nextRun, List.mem_cons, not_or] at hn
    rw [ih hn.2, hstep.getElem?_lastRun, if_neg (Ne.symm hn.1)]

end Names

/-! ## Values of a request -/

section Values

variable {s s' : InputState} {values : List IntValue}

theorem assemble_isSome {names : List String} (hnames : names ≠ [])
    (hlength : values.length = names.length) : (assemble names values).isSome := by
  have hfold : ∀ (bytes : List ConcolicValue) (lower : ConcolicValue),
      (bytes.foldl Solver.concatByte (some lower)).isSome := by
    intro bytes
    induction bytes with
    | nil => exact fun _ ↦ rfl
    | cons b bytes ih => exact fun lower ↦ ih _
  cases names with
  | nil => exact absurd rfl hnames
  | cons n names =>
    cases values with
    | nil => cases hlength
    | cons v values => exact hfold _ _

/-- The named values of a returned value are the values fetched. -/
theorem namedValues_eq {request : Request} (h : Fetched request.parts s values s')
    {value : ConcolicValue}
    (hvalue : assemble (request.parts.map Prod.snd) values = some value) :
    request.namedValues value =
      List.zipWith (fun n v ↦ (n, v.toBV)) (request.parts.map Prod.snd) values := by
  have hlength := h.length_eq
  cases request with
  | word name | byte name =>
    obtain ⟨v, rfl⟩ := List.length_eq_one_iff.mp hlength
    obtain rfl := Option.some.inj hvalue
    rfl
  | bytes name size =>
    have hwidth : ∀ v ∈ values, v.toBV.width = 8 := by
      intro v hv
      have htype : v.type ∈ values.map IntValue.type := List.mem_map_of_mem hv
      rw [h.map_type, Request.parts, List.map_map] at htype
      obtain ⟨i, -, hi⟩ := List.mem_map.mp htype
      rw [IntValue.toBV, IntValue.intByteSize, ← hi]
      rfl
    have hbytes : ∀ b ∈ List.zipWith (fun n v ↦ Solver.BVC (some n) v)
        ((Request.bytes name size).parts.map Prod.snd) values, b.getWidth = 8 := by
      intro b hb
      obtain ⟨i, hi, rfl⟩ := List.mem_iff_getElem.mp hb
      rw [List.getElem_zipWith]
      exact hwidth _ (List.getElem_mem _)
    obtain ⟨-, hextract⟩ := Solver.foldl_concatByte_spec hbytes hvalue
    apply List.ext_getElem
    · simp [Request.namedValues, Request.parts, hlength]
    · intro i hi hi'
      have hsize : i < size := by simpa [Request.namedValues] using hi
      have hi'' : i < values.length := by
        rw [hlength]
        simpa [Request.parts] using hsize
      have hbyte := hextract i (Solver.BVC (some (byteName name i)) values[i])
        (by simp [Request.parts, hsize, hi''])
      simp only [Request.namedValues, Request.parts, List.getElem_map, List.getElem_range,
        List.getElem_zipWith, hbyte]
      rfl

theorem mem_namedValues_iff {request : Request} (h : Fetched request.parts s values s')
    {value : ConcolicValue}
    (hvalue : assemble (request.parts.map Prod.snd) values = some value) {n : String} {b : BV} :
    (n, b) ∈ request.namedValues value ↔
      ∃ (i : Nat) (v : IntValue),
        (request.parts.map Prod.snd)[i]? = some n ∧ values[i]? = some v ∧ v.toBV = b := by
  rw [namedValues_eq h hvalue, List.mem_iff_getElem?]
  constructor
  · rintro ⟨i, hi⟩
    rw [List.getElem?_zipWith] at hi
    split at hi
    · rename_i n' v hn hv
      obtain ⟨rfl, rfl⟩ := Prod.mk.inj (Option.some.inj hi)
      exact ⟨i, v, hn, hv, rfl⟩
    · cases hi
  · rintro ⟨i, v, hn, hv, rfl⟩
    refine ⟨i, ?_⟩
    rw [List.getElem?_zipWith, hn, hv]

end Values

theorem byteName_injective (name : String) : Function.Injective (byteName name) := by
  intro i j h
  have hdigits : Nat.toDigits 10 i = Nat.toDigits 10 j := by
    simpa [byteName] using congrArg String.toList h
  rw [← Nat.ofDigitChars_ten_toDigits (n := i), hdigits, Nat.ofDigitChars_ten_toDigits]

theorem Request.nodup_names (request : Request) : (request.parts.map Prod.snd).Nodup := by
  cases request with
  | word name | byte name => exact List.nodup_singleton name
  | bytes name size =>
    have hnames : (Request.bytes name size).parts.map Prod.snd =
        (List.range size).map (byteName name) := by
      rw [Request.parts, List.map_map]
      rfl
    rw [hnames]
    exact List.nodup_range.map (byteName_injective name)

section Runs

variable {requests : List Request} {s s' : InputState}
  {returned : List (Request × Option ConcolicValue)}

theorem Ran.frame (h : Ran requests s returned s') {n : String}
    (hn : n ∉ requestedNames s.ctx.nextRun (requests.flatMap Request.parts)) :
    s'.ctx.lastRun[n]? = s.ctx.lastRun[n]? := by
  induction h with
  | nil s => rfl
  | abort haborted =>
    rw [List.flatMap_cons, haborted.requestedNames_append] at hn
    exact haborted.frame hn
  | cons hfetched hrest ih =>
    rw [List.flatMap_cons, hfetched.requestedNames_append, List.mem_append, not_or] at hn
    rw [ih hn.2, (hfetched.frame hn.1).1]

/-- With distinct names every named value is in the store at the end, and is the scheduled one. -/
theorem Ran.namedValues (h : Ran requests s returned s')
    (hnodup : (requestedNames s.ctx.nextRun (requests.flatMap Request.parts)).Nodup)
    {request : Request} {value : ConcolicValue} (hmem : (request, some value) ∈ returned)
    {n : String} {b : BV} (hb : (n, b) ∈ request.namedValues value) :
    n ∈ requestedNames s.ctx.nextRun (requests.flatMap Request.parts) ∧
      ∃ v : IntValue, s'.ctx.lastRun[n]? = some v ∧ v.toBV = b ∧
        ∀ x, s.ctx.nextRun[n]? = some x → v = x := by
  induction h with
  | nil s => cases hmem
  | abort haborted => cases hmem
  | @cons request' rest values s s₁ s₂ returned hfetched hrest ih =>
    rw [List.flatMap_cons, hfetched.requestedNames_append] at hnodup ⊢
    obtain ⟨hnames, htail, hdisjoint⟩ := List.nodup_append.mp hnodup
    rcases List.mem_cons.mp hmem with hhead | hmem
    · obtain ⟨rfl, hvalue⟩ := Prod.mk.inj hhead
      obtain ⟨i, v, hn, hv, rfl⟩ := (mem_namedValues_iff hfetched hvalue.symm).mp hb
      obtain ⟨hlast, hscheduled⟩ := hfetched.getElem? hnames hn hv
      have hnot : n ∉ requestedNames s₁.ctx.nextRun (rest.flatMap Request.parts) :=
        fun hin ↦ hdisjoint n (List.mem_of_getElem? hn) n hin rfl
      exact ⟨List.mem_append_left _ (List.mem_of_getElem? hn), v, (hrest.frame hnot).trans hlast,
        rfl, hscheduled⟩
    · obtain ⟨hin, v, hlast, hv, hscheduled⟩ := ih htail hmem
      refine ⟨List.mem_append_right _ hin, v, hlast, hv, fun x hx ↦ hscheduled x ?_⟩
      have hnot : n ∉ request'.parts.map Prod.snd := fun h ↦ hdisjoint n h n hin rfl
      rw [(hfetched.frame hnot).2, hx]

/-- Names that are scheduled with the values of an earlier fetch are handed out with them. -/
theorem Fetched.replay {parts : List (IntType × String)} {values : List IntValue}
    (h : Fetched parts s values s') (hnodup : (parts.map Prod.snd).Nodup) {t : InputState}
    (ht : ∀ (i : Nat) (n : String) (v : IntValue), (parts.map Prod.snd)[i]? = some n →
      values[i]? = some v → t.ctx.nextRun[n]? = some v) :
    ∃ t', fetch parts t = .ok values t' ∧
      ∀ n ∉ parts.map Prod.snd, t'.ctx.nextRun[n]? = t.ctx.nextRun[n]? := by
  induction h generalizing t with
  | nil s => exact ⟨t, rfl, fun _ _ ↦ rfl⟩
  | @cons T name rest value values s s₁ s₂ hstep hrest ih =>
    rw [List.map_cons, List.nodup_cons] at hnodup
    have hname : t.ctx.nextRun[name]? = some value := ht 0 name value rfl rfl
    rcases findRemoveOrRandom_cases T name t with ⟨v, t₁, hok, hhanded⟩ | ⟨-, haccepts⟩
    · obtain rfl : v = value := hhanded.eq_of_scheduled hname
      have ht₁ : ∀ (i : Nat) (n : String) (w : IntValue), (rest.map Prod.snd)[i]? = some n →
          values[i]? = some w → t₁.ctx.nextRun[n]? = some w := by
        intro i n w hn hw
        have hne : name ≠ n := fun h ↦ hnodup.1 (h ▸ List.mem_of_getElem? hn)
        rw [hhanded.getElem?_nextRun, if_neg hne]
        exact ht (i + 1) n w (by simpa using hn) (by simpa using hw)
      obtain ⟨t', hfetch, hframe⟩ := ih hnodup.2 ht₁
      refine ⟨t', ?_, ?_⟩
      · simp only [fetch, bind, EStateM.bind, hok, hfetch]
        rfl
      · intro n hn
        rw [List.map_cons, List.mem_cons, not_or] at hn
        rw [hframe n hn.2, hhanded.getElem?_nextRun, if_neg (Ne.symm hn.1)]
    · refine absurd ?_ haccepts
      intro w hw
      rw [hname] at hw
      obtain rfl := Option.some.inj hw
      exact hstep.type

/-- A run that is scheduled with the store a run left behind returns the same values. -/
theorem Ran.replay (h : Ran requests s returned s')
    (hnodup : (requestedNames s.ctx.nextRun (requests.flatMap Request.parts)).Nodup)
    {t : InputState}
    (ht : ∀ n ∈ requestedNames s.ctx.nextRun (requests.flatMap Request.parts),
      t.ctx.nextRun[n]? = s'.ctx.lastRun[n]?) :
    returned <+: (runRequests requests t).1 := by
  induction h generalizing t with
  | nil s => exact List.nil_prefix
  | abort haborted => exact List.nil_prefix
  | @cons request rest values s s₁ s₂ returned hfetched hrest ih =>
    rw [List.flatMap_cons, hfetched.requestedNames_append] at hnodup ht
    obtain ⟨hnames, htail, hdisjoint⟩ := List.nodup_append.mp hnodup
    have hscheduled : ∀ (i : Nat) (n : String) (v : IntValue),
        (request.parts.map Prod.snd)[i]? = some n → values[i]? = some v →
        t.ctx.nextRun[n]? = some v := by
      intro i n v hn hv
      have hin := List.mem_of_getElem? hn
      have hnot : n ∉ requestedNames s₁.ctx.nextRun (rest.flatMap Request.parts) :=
        fun h ↦ hdisjoint n hin n h rfl
      rw [ht n (List.mem_append_left _ hin), hrest.frame hnot]
      exact (hfetched.getElem? hnames hn hv).1
    obtain ⟨t', hfetch, hframe⟩ := hfetched.replay hnames hscheduled
    have htail' : ∀ n ∈ requestedNames s₁.ctx.nextRun (rest.flatMap Request.parts),
        t'.ctx.nextRun[n]? = s₂.ctx.lastRun[n]? := by
      intro n hn
      rw [hframe n fun h ↦ hdisjoint n h n hn rfl, ht n (List.mem_append_right _ hn)]
    rw [runRequests, call_eq_fetch, hfetch]
    exact List.cons_prefix_cons.mpr ⟨rfl, ih htail htail'⟩

end Runs

/-! ## A repeated name -/

section Drift

variable {n : String} {c : Nat} {s s' : InputState}

/-- Every further outcome is `c`, and `n` is no longer scheduled. -/
def Drifting (n : String) (c : Nat) (s : InputState) : Prop :=
  s.rand = (fun _ ↦ c) ∧ s.ctx.nextRun[n]? = none

/-- The store holds a random value for `n`. -/
def Drifted (n : String) (c : Nat) (s : InputState) : Prop :=
  ∃ T : IntType, s.ctx.lastRun[n]? = some (T.cast c)

theorem Handed.drifting {T : IntType} {name : String} {value : IntValue}
    (h : Handed T name s value s') (hd : Drifting n c s) : Drifting n c s' := by
  obtain ⟨hrand, hnext⟩ := hd
  constructor
  · rcases h.origin with ⟨-, hkeep⟩ | ⟨-, -, htail⟩
    · rw [hkeep, hrand]
    · rw [htail, hrand]
      rfl
  · rw [h.getElem?_nextRun, hnext, ite_self]

theorem Handed.drifted {T : IntType} {name : String} {value : IntValue}
    (h : Handed T name s value s') (hd : Drifting n c s) (hn : n = name ∨ Drifted n c s) :
    Drifted n c s' := by
  by_cases hname : name = n
  · subst hname
    rcases h.origin with ⟨hscheduled, -⟩ | ⟨-, hvalue, -⟩
    · rw [hd.2] at hscheduled
      cases hscheduled
    · refine ⟨T, ?_⟩
      rw [h.getElem?_lastRun, if_pos rfl, hvalue, hd.1]
  · obtain ⟨T', hT'⟩ := hn.resolve_left (Ne.symm hname)
    refine ⟨T', ?_⟩
    rw [h.getElem?_lastRun, if_neg hname, hT']

theorem Fetched.drift {parts : List (IntType × String)} {values : List IntValue}
    (h : Fetched parts s values s') (hd : Drifting n c s) :
    Drifting n c s' ∧ (n ∈ parts.map Prod.snd ∨ Drifted n c s → Drifted n c s') := by
  induction h with
  | nil s => exact ⟨hd, fun hn ↦ hn.resolve_left (List.not_mem_nil)⟩
  | cons hstep hrest ih =>
    obtain ⟨hdrifting, hdrifted⟩ := ih (hstep.drifting hd)
    refine ⟨hdrifting, fun hn ↦ hdrifted ?_⟩
    rcases hn with hn | hn
    · rcases List.mem_cons.mp hn with hname | hrest
      · exact .inr (hstep.drifted hd (.inl hname))
      · exact .inl hrest
    · exact .inr (hstep.drifted hd (.inr hn))

theorem Aborted.drift {parts : List (IntType × String)} (h : Aborted parts s s')
    (hd : Drifting n c s) (hn : n ∈ requestedNames s.ctx.nextRun parts ∨ Drifted n c s) :
    Drifted n c s' := by
  induction h with
  | here haccepts =>
    rw [requestedNames, if_neg haccepts] at hn
    exact hn.resolve_left (List.not_mem_nil)
  | later hstep hrest ih =>
    rw [requestedNames, if_pos hstep.accepts, ← hstep.nextRun] at hn
    apply ih (hstep.drifting hd)
    rcases hn with hn | hn
    · rcases List.mem_cons.mp hn with hname | hrest
      · exact .inr (hstep.drifted hd (.inl hname))
      · exact .inl hrest
    · exact .inr (hstep.drifted hd (.inr hn))

/-- A name that is requested once more ends up with a random value in the store. -/
theorem Ran.drift {requests : List Request} {returned : List (Request × Option ConcolicValue)}
    (h : Ran requests s returned s') (hd : Drifting n c s)
    (hn : n ∈ requestedNames s.ctx.nextRun (requests.flatMap Request.parts) ∨ Drifted n c s) :
    Drifted n c s' := by
  induction h with
  | nil s => exact hn.resolve_left (List.not_mem_nil)
  | abort haborted =>
    rw [List.flatMap_cons, haborted.requestedNames_append] at hn
    exact haborted.drift hd hn
  | cons hfetched hrest ih =>
    rw [List.flatMap_cons, hfetched.requestedNames_append, List.mem_append] at hn
    obtain ⟨hdrifting, hdrifted⟩ := hfetched.drift hd
    apply ih hdrifting
    rcases hn with (hn | hn) | hn
    · exact .inr (hdrifted (.inl hn))
    · exact .inl hn
    · exact .inr (hdrifted (.inr hn))

/-- The outcomes for a list of names can be chosen independently of those that are to follow. -/
theorem exists_fetched (parts : List (IntType × String)) (ctx : ExecutionContext) :
    (∃ values ctx', ∀ tail, ∃ rand, Fetched parts ⟨ctx, rand⟩ values ⟨ctx', tail⟩) ∨
    ∀ more, requestedNames ctx.nextRun (parts ++ more) = requestedNames ctx.nextRun parts := by
  induction parts generalizing ctx with
  | nil => exact .inl ⟨[], ctx, fun tail ↦ ⟨tail, .nil _⟩⟩
  | cons part rest ih =>
    obtain ⟨T, name⟩ := part
    by_cases haccepts : Accepts ctx.nextRun T name
    · obtain ⟨value, hhanded⟩ : ∃ value : IntValue, ∀ tail : RandSource, ∃ rand,
          Handed T name ⟨ctx, rand⟩ value
            ⟨⟨ctx.nextRun.erase name, ctx.lastRun.insert name value⟩, tail⟩ := by
        cases hnext : ctx.nextRun[name]? with
        | some value =>
          exact ⟨value, fun tail ↦ ⟨tail, haccepts, haccepts value hnext, rfl, rfl,
            .inl ⟨hnext, rfl⟩⟩⟩
        | none =>
          exact ⟨T.cast 0, fun tail ↦ ⟨.cons 0 tail, haccepts, IntValue.type_cast _ _, rfl, rfl,
            .inr ⟨hnext, rfl, rfl⟩⟩⟩
      rcases ih ⟨ctx.nextRun.erase name, ctx.lastRun.insert name value⟩ with
        ⟨values, ctx', hfetched⟩ | hrest
      · refine .inl ⟨value :: values, ctx', fun tail ↦ ?_⟩
        obtain ⟨rand₁, hrest⟩ := hfetched tail
        obtain ⟨rand, hhead⟩ := hhanded rand₁
        exact ⟨rand, .cons hhead hrest⟩
      · refine .inr fun more ↦ ?_
        rw [List.cons_append, requestedNames, requestedNames, if_pos haccepts, if_pos haccepts,
          hrest more]
    · refine .inr fun more ↦ ?_
      rw [List.cons_append, requestedNames, requestedNames, if_neg haccepts, if_neg haccepts]

end Drift

/-- An outcome that is different from a given value in both types. -/
theorem exists_cast_ne (value : IntValue) : ∃ c, ∀ T : IntType, T.cast c ≠ value := by
  by_cases hzero : ∃ T : IntType, T.cast 0 = value
  · obtain ⟨T, rfl⟩ := hzero
    exact ⟨1, fun T' ↦ by cases T <;> cases T' <;> decide⟩
  · exact ⟨0, fun T h ↦ hzero ⟨T, h⟩⟩

/-- If a name is requested twice, some outcomes make a returned value differ from the store. -/
theorem exists_drift (requests : List Request) (ctx : ExecutionContext)
    (h : ¬ (requestedNames ctx.nextRun (requests.flatMap Request.parts)).Nodup) :
    ∃ rand, ∃ request value, (request, some value) ∈ (runRequests requests ⟨ctx, rand⟩).1 ∧
      ∃ n b, (n, b) ∈ request.namedValues value ∧
        ((runRequests requests ⟨ctx, rand⟩).2.ctx.lastRun[n]?).map IntValue.toBV ≠ some b := by
  induction requests generalizing ctx with
  | nil => exact absurd List.nodup_nil h
  | cons request rest ih =>
    rw [List.flatMap_cons] at h
    rcases exists_fetched request.parts ctx with ⟨values, ctx', hfetched⟩ | habort
    · have hrun : ∀ tail, ∃ rand, Fetched request.parts ⟨ctx, rand⟩ values ⟨ctx', tail⟩ ∧
          runRequests (request :: rest) ⟨ctx, rand⟩ =
            ((request, assemble (request.parts.map Prod.snd) values) ::
              (runRequests rest ⟨ctx', tail⟩).1, (runRequests rest ⟨ctx', tail⟩).2) := by
        intro tail
        obtain ⟨rand, hrand⟩ := hfetched tail
        refine ⟨rand, hrand, ?_⟩
        rw [runRequests, call_eq_fetch, hrand.fetch_eq]
      obtain ⟨rand₀, hrand₀, -⟩ := hrun fun _ ↦ 0
      rw [hrand₀.requestedNames_append] at h
      by_cases hrest : (requestedNames ctx'.nextRun (rest.flatMap Request.parts)).Nodup
      · obtain ⟨n, hn, hagain⟩ : ∃ n ∈ request.parts.map Prod.snd,
            n ∈ requestedNames ctx'.nextRun (rest.flatMap Request.parts) := by
          by_contra hdisjoint
          refine h (List.nodup_append.mpr ⟨request.nodup_names, hrest, ?_⟩)
          rintro n hn _ hagain rfl
          exact hdisjoint ⟨n, hn, hagain⟩
        obtain ⟨i, hi, rfl⟩ := List.mem_iff_getElem.mp hn
        have hi' : i < values.length := by
          rw [hrand₀.length_eq]
          simpa using hi
        obtain ⟨c, hc⟩ := exists_cast_ne values[i]
        obtain ⟨rand, hrand, hrunRand⟩ := hrun fun _ ↦ c
        have hne : request.parts.map Prod.snd ≠ [] := fun h ↦ by simp [h] at hi
        obtain ⟨value, hvalue⟩ := Option.isSome_iff_exists.mp
          (assemble_isSome hne (by rw [hrand.length_eq, List.length_map]))
        refine ⟨rand, request, value, ?_, (request.parts.map Prod.snd)[i], values[i].toBV, ?_, ?_⟩
        · rw [hrunRand, hvalue]
          exact List.mem_cons_self
        · exact (mem_namedValues_iff hrand hvalue).mpr
            ⟨i, values[i], List.getElem?_eq_getElem hi, List.getElem?_eq_getElem hi', rfl⟩
        · obtain ⟨T, hT⟩ := (ran_runRequests rest ⟨ctx', fun _ ↦ c⟩).drift
            ⟨rfl, hrand.not_scheduled hn⟩ (.inl hagain)
          rw [hrunRand, hT]
          intro heq
          exact hc T (IntValue.toBV_injective (Option.some.inj heq))
      · obtain ⟨tail, request', value, hmem, n, b, hb, hlast⟩ := ih ctx' hrest
        obtain ⟨rand, -, hrunRand⟩ := hrun tail
        refine ⟨rand, request', value, ?_, n, b, hb, ?_⟩
        · rw [hrunRand]
          exact List.mem_cons_of_mem _ hmem
        · rwa [hrunRand]
    · rw [habort] at h
      exact absurd (request.nodup_names.sublist (requestedNames_sublist _ _)) h

/-- The run that schedules `store` and makes `requests` can be reproduced from the store it leaves
behind. -/
structure Reproducible (ctx : ExecutionContext) (store : ConcreteStore) (requests : List Request)
    (rand : RandSource) : Prop where
  /-- A scheduled name gets its scheduled value. -/
  scheduled : ∀ request value,
    (request, some value) ∈ (runRequests requests ⟨ctx.setupNewValues store, rand⟩).1 →
    ∀ n b, (n, b) ∈ request.namedValues value → ∀ x, store[n]? = some x → b = x.toBV
  /-- Every name gets the value the store holds at the end. -/
  dumped : ∀ request value,
    (request, some value) ∈ (runRequests requests ⟨ctx.setupNewValues store, rand⟩).1 →
    ∀ n b, (n, b) ∈ request.namedValues value →
      ((runRequests requests ⟨ctx.setupNewValues store, rand⟩).2.ctx.getPrevStore[n]?).map
        IntValue.toBV = some b
  /-- A new process that schedules that store is given the same values. -/
  replayed : ∀ rand',
    (runRequests requests ⟨ctx.setupNewValues store, rand⟩).1 <+:
      (runRequests requests ⟨ExecutionContext.init.setupNewValues
        (runRequests requests ⟨ctx.setupNewValues store, rand⟩).2.ctx.getPrevStore, rand'⟩).1

theorem getElem?_setupNewValues (ctx : ExecutionContext) (store : ConcreteStore) (n : String) :
    (ctx.setupNewValues store).nextRun[n]? = store[n]?.or ctx.nextRun[n]? :=
  Std.ExtTreeMap.getElem?_union

/-- Whatever `rand()` returns, a run is reproducible exactly if no name is requested twice in it. -/
theorem reproducible_iff (ctx : ExecutionContext) (store : ConcreteStore)
    (requests : List Request) :
    (∀ rand, Reproducible ctx store requests rand) ↔
      (requestedNames (ctx.setupNewValues store).nextRun
        (requests.flatMap Request.parts)).Nodup := by
  constructor
  · intro h
    by_contra hrepeated
    obtain ⟨rand, request, value, hmem, n, b, hb, hlast⟩ := exists_drift requests _ hrepeated
    exact hlast ((h rand).dumped request value hmem n b hb)
  · intro hnodup rand
    have hran := ran_runRequests requests ⟨ctx.setupNewValues store, rand⟩
    constructor
    · intro request value hmem n b hb x hx
      obtain ⟨-, v, -, rfl, hscheduled⟩ := hran.namedValues hnodup hmem hb
      rw [hscheduled x]
      rw [getElem?_setupNewValues, hx]
      rfl
    · intro request value hmem n b hb
      obtain ⟨-, v, hlast, rfl, -⟩ := hran.namedValues hnodup hmem hb
      exact congrArg (Option.map IntValue.toBV) hlast
    · intro rand'
      apply hran.replay hnodup
      intro n _
      rw [getElem?_setupNewValues, ExecutionContext.init, Std.ExtTreeMap.getElem?_empty,
        Option.or_none]
      rfl

/-- Software marks register `x5` twice. The second value is random and overwrites the first one in
the test case. -/
theorem not_reproducible_of_repeated_word :
    ¬ Reproducible .init ((∅ : ConcreteStore).insert "x5" (.uint32 7#32))
      [.word "x5", .word "x5"] (fun _ ↦ 8) := by
  intro h
  have hdumped := h.dumped (.word "x5") ⟨⟨32, 7#32⟩, some (.read ⟨"x5", 4⟩), false⟩
    (by decide) "x5" ⟨32, 7#32⟩ (by decide)
  exact absurd hdumped (by decide)

end CoverageVP.Clover
