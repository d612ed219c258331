import CoverageVP.Iss.Reachable

/-!
# Steps with given loads

A variant of a step in which the value that a load from a symbolic address returns is given from
outside. Everything else is as in a step of the core, and so is a step without a given value. The
invariants of the control state do not depend on what is loaded.
-/

namespace CoverageVP.Iss

open Lib Clover Instr

/-- The value that a load from a symbolic address returns; without one, the memory answers. -/
def Given : Type := Option { value : ConcolicValue // value.getWidth = 32 }

def Given.choose (given : Given) (addr value : ConcolicValue) : ConcolicValue :=
  match given with
  | some v => if addr.symbolic.isSome then v.val else value
  | none => value

theorem Given.getWidth_choose (given : Given) (addr : ConcolicValue) {value : ConcolicValue}
    (h : value.getWidth = 32) : (given.choose addr value).getWidth = 32 := by
  unfold Given.choose
  split
  case h_1 v =>
    split
    · exact v.property
    · exact h
  case h_2 => exact h

def loadGiven (given : Given) (load : ConcolicValue → IssM ConcolicValue) (addr : ConcolicValue) :
    IssM ConcolicValue := do
  let value ← load addr
  return given.choose addr value

/-- The loads with the alignment they require. -/
def loadOf : Opcode → Option (Nat × (ConcolicValue → IssM ConcolicValue))
  | .LB => some (1, loadByte)
  | .LH => some (2, loadHalf)
  | .LW => some (4, loadWord)
  | .LBU => some (1, loadUbyte)
  | .LHU => some (2, loadUhalf)
  | _ => none

def executeGiven (env : Env) (given : Given) : IssM Bool := do
  let s ← get
  match loadOf s.op with
  | some (alignment, load) => execLoad alignment (loadGiven given load)
  | none => execute env

def execStepGiven (env : Env) (given : Given) : IssM Unit := do
  fetch
  decode
  let flags ← classifyOperands
  let init ← executeGiven env given
  cover env ⟨flags.1, flags.2, init⟩

def runStepGiven (env : Env) (given : Given) : IssM Unit := stepWith (execStepGiven env given)

theorem execStepGiven_eq_bind (env : Env) (given : Given) :
    execStepGiven env given = (do fetch; decode) >>= fun _ ↦ (do
      let flags ← classifyOperands
      let init ← executeGiven env given
      cover env ⟨flags.1, flags.2, init⟩) := by
  simp only [execStepGiven, bind_assoc]

/-! ## Steps without a given value -/

theorem loadOf_cases {op : Opcode} {alignment : Nat} {load : ConcolicValue → IssM ConcolicValue}
    (h : loadOf op = some (alignment, load)) :
    (∃ n, 0 < n ∧ load = fun addr ↦ loadSigned addr n) ∨
      ∃ n, 0 < n ∧ n ≤ 4 ∧ load = fun addr ↦ loadUnsigned addr n := by
  unfold loadOf at h
  split at h
  case h_1 | h_2 | h_3 =>
    cases h
    exact .inl ⟨_, by decide, rfl⟩
  case h_4 | h_5 =>
    cases h
    exact .inr ⟨_, by decide, by decide, rfl⟩
  case h_6 => cases h

theorem execute_of_loadOf (env : Env) {s : State} {alignment : Nat}
    {load : ConcolicValue → IssM ConcolicValue} (h : loadOf s.op = some (alignment, load)) :
    execute env s = execLoad alignment load s := by
  rw [execute, Lib.get_bind]
  revert h
  generalize s.op = op
  intro h
  unfold loadOf at h
  split at h
  case h_6 => cases h
  all_goals
    cases h
    rfl

theorem executeGiven_of_loadOf (env : Env) (given : Given) {s : State} {alignment : Nat}
    {load : ConcolicValue → IssM ConcolicValue} (h : loadOf s.op = some (alignment, load)) :
    executeGiven env given s = execLoad alignment (loadGiven given load) s := by
  rw [executeGiven, Lib.get_bind, h]

theorem executeGiven_of_not_load (env : Env) (given : Given) {s : State} (h : loadOf s.op = none) :
    executeGiven env given s = execute env s := by
  rw [executeGiven, Lib.get_bind, h]

theorem loadGiven_none (load : ConcolicValue → IssM ConcolicValue) : loadGiven none load = load := by
  funext addr
  exact bind_pure (load addr)

theorem executeGiven_none (env : Env) : executeGiven env none = execute env := by
  funext s
  cases h : loadOf s.op with
  | none => exact executeGiven_of_not_load env none h
  | some load =>
    obtain ⟨alignment, load⟩ := load
    rw [executeGiven_of_loadOf env none h, loadGiven_none, execute_of_loadOf env h]

/-- Without a given value, a step is a step of the core. -/
theorem runStepGiven_none (env : Env) : runStepGiven env none = runStep env := by
  change stepWith (execStepGiven env none) = stepWith (execStep env)
  unfold execStepGiven execStep
  rw [executeGiven_none]

/-! ## Invariants -/

section Invariants

variable {A : Nat → Prop} {K : CsrTable → Nat → Prop} {al : BitVec 32}

theorem keeps_loadGiven {I : State → Prop} (hI : KeptByMarks I) {op : Opcode} {alignment : Nat}
    {load : ConcolicValue → IssM ConcolicValue} (h : loadOf op = some (alignment, load))
    (given : Given) (addr : ConcolicValue) : Keeps I (loadGiven given load addr) := by
  refine Keeps.bind ?_ fun _ ↦ Keeps.ret _
  rcases loadOf_cases h with ⟨n, -, rfl⟩ | ⟨n, -, -, rfl⟩
  · exact keeps_loadSigned hI addr n
  · exact keeps_loadUnsigned hI addr n

/-- A word that is not a load is executed as by the core. -/
theorem execStepGiven_of_not_load (env : Env) (given : Given) {s : State}
    (h : ∀ word, s.fetchedWord = some word → loadOf (decodeWord word).1 = none) :
    execStepGiven env given s = execStep env s := by
  have hdecoded := triple_fetch_decode s s rfl
  rw [execStepGiven_eq_bind, execStep_eq_bind]
  change EStateM.bind _ _ s = EStateM.bind _ _ s
  unfold EStateM.bind
  cases hfront : (do fetch; decode : IssM Unit) s with
  | error e s' => rfl
  | ok _ s' =>
    rw [hfront] at hdecoded
    obtain ⟨word, hdecoded⟩ := hdecoded
    have hkeep := (keeps_classifyOperands (I := (· = s'))) s' rfl
    change EStateM.bind _ _ s' = EStateM.bind _ _ s'
    unfold EStateM.bind
    cases hclassify : classifyOperands s' with
    | error e s'' => rfl
    | ok flags s'' =>
      rw [hclassify] at hkeep
      obtain rfl := hkeep
      have hexec := executeGiven_of_not_load env given
        (hdecoded.op ▸ h word hdecoded.fetchedWord : loadOf s''.op = none)
      change EStateM.bind _ _ s'' = EStateM.bind _ _ s''
      unfold EStateM.bind
      rw [hexec]

theorem RunClosed.execStepGiven (hK : RunClosed (fun _ ↦ True) K al) (env : Env) (given : Given)
    {s : State} (hs : Control K al s) :
    Triple (· = s) (execStepGiven env given) (fun _ ↦ Control K al) fun _ ↦ Steady K al := by
  by_cases hload : ∃ word load, s.fetchedWord = some word ∧ loadOf (decodeWord word).1 = some load
  · obtain ⟨word, ⟨alignment, load⟩, hword, hload⟩ := hload
    refine control_decoded hK.aligned hs (fun _ _ h ↦ h) fun word' hword' ↦ ?_
    obtain rfl : word = word' := Option.some.inj (hword.symm.trans hword')
    refine Triple.pre (P := Ready K al word) ?_ fun _ h ↦ h.1
    refine Triple.bind (ready_classifyOperands word) fun _ ↦ Triple.bind (Q := fun _ ↦ Control K al)
      (Triple.of_start fun s' hs' ↦ ?_) fun _ ↦ Controls.of_keeps (control_cover env _)
    have hop : loadOf s'.op = some (alignment, load) := hs'.op ▸ hload
    have hcontrol : Control K al s' := by
      refine ⟨hs'.toSteady, hs'.pc ?_⟩
      intro hundef
      rw [hundef] at hop
      cases hop
    rintro _ rfl
    rw [executeGiven_of_loadOf env given hop]
    exact Controls.of_keeps (control_execLoad alignment fun addr ↦
      keeps_loadGiven control_ignoresMemory.keptByMarks hop given addr) _ hcontrol
  · have hnot : ∀ word, s.fetchedWord = some word → loadOf (decodeWord word).1 = none := by
      intro word hword
      by_contra hne
      obtain ⟨load, hsome⟩ := Option.ne_none_iff_exists'.mp hne
      exact hload ⟨word, load, hword, hsome⟩
    rintro _ rfl
    rw [execStepGiven_of_not_load env given hnot]
    exact hK.execStep env hs (fun _ _ _ ↦ trivial) _ rfl

theorem RunClosed.runStepGiven (hK : RunClosed (fun _ ↦ True) K al) (env : Env) (given : Given) :
    Triple (StepInvariant K al) (runStepGiven env given) (fun _ ↦ StepInvariant K al)
      (fun _ _ ↦ True) :=
  Triple.of_start fun _ hs ↦ hK.stepWith hs (hK.execStepGiven env given hs.started)

end Invariants

end CoverageVP.Iss
