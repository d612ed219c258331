import CoverageVP.Gdb.DebugMemory

/-!
# Continuing and stepping

A request of the debugger has a list of actions, each for some of the harts. The server takes them one
after another: it starts the harts of an action, waits until one of them stops, and stops the others. Each
hart has a thread that runs it, which ends when the hart terminates. A request is answered by one packet,
unless the server fails or waits for a hart that does not run.
-/

namespace CoverageVP.Gdb

open Lib

/-- How the server fails: by an assertion, by an exception that nobody handles, or because it waits for
an event that nobody notifies. -/
inductive VContFault
  | assertion
  | invalidArgument (what : String)
  | stuck
  deriving DecidableEq, Repr

/-! ## Requests -/

structure ThreadId where
  pid : Int
  tid : Int
  deriving DecidableEq, Repr

def threadUnset : Int := -2

def threadAny : Int := 0

def threadAll : Int := -1

/-- The digits of a signal. -/
structure Signal where
  digits : List Char
  nonempty : digits ≠ []
  hex : ∀ c ∈ digits, c ∈ hexDigits ++ ['A', 'B', 'C', 'D', 'E', 'F']
  deriving DecidableEq, Repr

inductive Verb
  | c | s | t
  | C (signal : Signal)
  | S (signal : Signal)
  deriving DecidableEq, Repr

def Verb.text : Verb → List Char
  | .c => ['c']
  | .s => ['s']
  | .t => ['t']
  | .C signal => 'C' :: signal.digits
  | .S signal => 'S' :: signal.digits

/-- The signal of an action has two digits. -/
def Verb.TwoDigits : Verb → Prop
  | .C signal | .S signal => signal.digits.length = 2
  | _ => True

/-- An action of a request as the grammar has it. -/
structure Action where
  verb : Verb
  thread : Option ThreadId
  deriving DecidableEq, Repr

structure VContRequest where
  actions : List Action
  nonempty : actions ≠ []
  deriving DecidableEq, Repr

/-- An action as the parser returns it. -/
structure VCont where
  action : Char
  sig : Int
  thread : ThreadId
  deriving DecidableEq, Repr

/-- An action without a thread is for all of them. -/
def Action.threadId (a : Action) : ThreadId := a.thread.getD ⟨threadUnset, threadAll⟩

/-- A signal has two digits. -/
def gdbfVcontAction (a : Action) : Except VContFault VCont := do
  let actstr := a.verb.text
  let sig ←
    if actstr.length = 1 then .ok (-1)
    else if actstr.length = 3 then .ok (strtol actstr.tail)
    else .error .assertion
  return ⟨actstr.headD ' ', sig, a.threadId⟩

def gdbfVcont (actions : List Action) : Except VContFault (List VCont) := actions.mapM gdbfVcontAction

inductive Status
  | runnable | hitBreakpoint | terminated
  deriving DecidableEq, Repr

/-- The thread of a hart waits for its run event, or it has ended. -/
inductive Runner
  | waiting | ended
  deriving DecidableEq, Repr

structure Hart where
  status : Status
  runner : Runner
  deriving DecidableEq, Repr

namespace Hart

/-- The hart can be started. -/
def ready : Hart := ⟨.runnable, .waiting⟩

def exited : Hart := ⟨.terminated, .ended⟩

/-- The hart has terminated while it was being stopped, and got back the status that it had before. -/
def lost : Hart := ⟨.runnable, .ended⟩

/-- The harts between two actions. -/
def Quiet (h : Hart) : Prop := h = ready ∨ h = exited ∨ h = lost

end Hart

/-- How the server finds a hart that was started: it has stopped, or it is still running, and then
terminates or not while it is being stopped. -/
inductive Found
  | hitBreakpoint | terminated
  | running (exits : Bool)
  deriving DecidableEq, Repr

def Found.hart : Found → Hart
  | .hitBreakpoint => ⟨.hitBreakpoint, .waiting⟩
  | .terminated => .exited
  | .running exits => ⟨.runnable, if exits then .ended else .waiting⟩

/-- The hart after the action. -/
def Found.settled : Found → Hart
  | .hitBreakpoint => .ready
  | .terminated => .exited
  | .running exits => if exits then .lost else .ready

/-- The hart that stops first is not found running. -/
def Found.stopped : Found → Found
  | .running _ => .hitBreakpoint
  | found => found

/-- What the harts do during an action: which one stops first, and how they are found then. -/
structure Behaviour where
  first : Nat
  found : Nat → Found

/-- One of the harts that were started stops first. -/
def Behaviour.firstOf (b : Behaviour) (started : List Nat) : Nat :=
  if b.first ∈ started then b.first else started.headD 0

def Behaviour.foundOf (b : Behaviour) (started : List Nat) (h : Nat) : Found :=
  if h = b.firstOf started then (b.found h).stopped else b.found h

def started (harts : Nat → Hart) (run : List Nat) : List Nat :=
  run.filter fun h ↦ (harts h).runner = .waiting

/-- Of several harts the first that stops wakes the server. The server stops those that are still
runnable, and waits for their stop events. Whether they are run or stepped, they are found like this. -/
def runThreads (harts : Nat → Hart) (run : List Nat) (b : Behaviour) :
    Except VContFault (Nat → Hart) :=
  if run = [] then .ok harts
  -- the wait for the first stop event
  else if started harts run = [] then .error .stuck
  -- the wait for the stop event of a hart that is runnable
  else if ∃ h ∈ run, harts h = .lost then .error .stuck
  else .ok fun h ↦ if h ∈ started harts run then (b.foundOf (started harts run) h).hart else harts h

/-- The positions of the harts of a number. None are returned for a number that is out of range. -/
def threadsOf (count : Nat) (id : Int) : Option (List Nat) :=
  let id := if id = threadAny then 1 else id
  if id = threadAll then some (List.range count)
  else if id < 1 then none
  else if (id - 1).toNat < count then some [(id - 1).toNat] else none

/-- The harts of the server, with the numbers that they give themselves. -/
structure GdbServer where
  count : Nat
  pos : 0 < count
  hartId : Nat → Nat
  hartId_lt : ∀ h, hartId h < 2 ^ 31 - 1
  harts : Nat → Hart
  quiet : ∀ h, (harts h).Quiet

namespace GdbServer

variable (s : GdbServer)

def getThreads (id : Int) : Option (List Nat) := threadsOf s.count id

/-- The number of a thread, as a signed word. -/
def threadOf (h : Nat) : Int := (BitVec.ofNat 32 (s.hartId h + 1)).toInt

/-- The reason and the thread of a stop, if there was one, and the harts. -/
structure Stops where
  harts : Nat → Hart
  stop : Option (String × Int)

/-- A hart that has hit a breakpoint is runnable again. -/
def report (stops : Stops) (h : Nat) : Stops :=
  match (stops.harts h).status with
  | .hitBreakpoint =>
    { harts := fun g ↦ if g = h then { stops.harts h with status := .runnable } else stops.harts g
      stop := some ("05", s.threadOf h) }
  | .terminated => { stops with stop := some ("03", s.threadOf h) }
  | .runnable => stops

/-- The rest of the actions, after some of them, of which those with a thread have matched it. -/
def vContLoop (o : Nat → Behaviour) (stops : Stops) (matched : List Nat) :
    List VCont → Except VContFault (String × (Nat → Hart))
  | [] =>
    match stops.stop with
    | none => .error .assertion
    | some (reason, thread) => do
      require (1 ≤ thread) .assertion
      return ("T" ++ reason ++ "thread:" ++ toString thread ++ ";", stops.harts)
  | v :: vs => do
    require (v.action = 's' ∨ v.action = 'c') (.invalidArgument "Unimplemented vCont action")
    match s.getThreads v.thread.tid with
    | none => return ("E01", stops.harts)
    | some threads => do
      let run := threads.filter (· ∉ matched)
      let harts ← runThreads stops.harts run (o 0)
      let stops := run.foldl s.report { stops with harts := harts }
      require (0 < v.thread.tid → threads.length = 1) .assertion
      vContLoop (fun i ↦ o (i + 1)) stops (if 0 < v.thread.tid then matched ++ threads else matched) vs

/-- The answer to a request and the harts after it, for what the harts do during its actions. -/
def vCont (o : Nat → Behaviour) (request : VContRequest) :
    Except VContFault (String × (Nat → Hart)) := do
  let vconts ← gdbfVcont request.actions
  s.vContLoop o ⟨s.harts, none⟩ [] vconts

/-- The actions that a server says it supports. -/
def vContSupported : String := "vCont;c;C"

/-- A request is answered, whatever the harts do. -/
def Answers (request : VContRequest) : Prop :=
  ∀ o, ∃ answer, s.vCont o request = .ok answer

/-- Harts can be run after others have been run: one of them can be started and was not run before, none
has got lost, and none was run before together with another one that could be started, since it may have
got lost then. -/
def Runs (ran : List (List Nat)) (run : List Nat) : Prop :=
  run = [] ∨
    (∃ h ∈ run, s.harts h = .ready ∧ ∀ r ∈ ran, h ∉ r) ∧
      ∀ h ∈ run, s.harts h ≠ .lost ∧
        (s.harts h = .ready → ∀ r ∈ ran, h ∈ r → ∀ g ∈ r, s.harts g = .ready → g = h)

/-- The actions up to the first one whose thread is out of range are to continue or to step, and the
harts of those before it can be run. -/
def Allowed (matched : List Nat) (ran : List (List Nat)) : List Action → Prop
  | [] => True
  | a :: actions =>
    (a.verb = .s ∨ a.verb = .c) ∧
      match s.getThreads a.threadId.tid with
      | none => True
      | some threads =>
        s.Runs ran (threads.filter (· ∉ matched)) ∧
          Allowed (if 0 < a.threadId.tid then matched ++ threads else matched)
            (threads.filter (· ∉ matched) :: ran) actions

variable {s}

theorem getThreads_ne_nil {id : Int} {threads : List Nat} (h : s.getThreads id = some threads) :
    threads ≠ [] := by
  simp only [getThreads, threadsOf] at h
  generalize (if id = threadAny then 1 else id) = i at h
  split at h
  case isTrue =>
    cases h
    exact fun hnil ↦ s.pos.ne' (List.range_eq_nil.mp hnil)
  case isFalse =>
    split at h
    case isTrue => cases h
    case isFalse =>
      split at h <;> cases h
      exact List.cons_ne_nil _ _

/-- A number of one thread is not that of all of them. -/
theorem length_getThreads {id : Int} {threads : List Nat} (h : s.getThreads id = some threads)
    (hpos : 0 < id) : threads.length = 1 := by
  have hany : id ≠ threadAny := hpos.ne'
  have hall : id ≠ threadAll := by
    rintro rfl
    exact absurd hpos (by decide)
  simp only [getThreads, threadsOf, if_neg hany, if_neg hall] at h
  split at h
  case isTrue => cases h
  case isFalse =>
    split at h <;> cases h
    rfl

theorem one_le_threadOf (h : Nat) : 1 ≤ s.threadOf h := by
  have hlt := s.hartId_lt h
  rw [threadOf, BitVec.toInt_eq_toNat_of_lt] <;>
    rw [BitVec.toNat_ofNat, Nat.mod_eq_of_lt (by omega)] <;>
    omega

/-! ## One action -/

/-- The harts after an action. -/
def settle (harts : Nat → Hart) (run : List Nat) (b : Behaviour) (h : Nat) : Hart :=
  if h ∈ started harts run then (b.foundOf (started harts run) h).settled else harts h

/-- The status of a hart after the server has reported it. -/
def reported (h : Hart) : Hart :=
  if h.status = .hitBreakpoint then { h with status := .runnable } else h

theorem reported_reported (h : Hart) : reported (reported h) = reported h := by
  unfold reported
  split
  case isTrue => rfl
  case isFalse => rfl

theorem reported_of_quiet {h : Hart} (hquiet : h.Quiet) : reported h = h := by
  obtain rfl | rfl | rfl := hquiet <;> rfl

theorem report_harts (stops : Stops) (g h : Nat) :
    (s.report stops g).harts h = if h = g then reported (stops.harts h) else stops.harts h := by
  by_cases hg : h = g
  · subst hg
    rw [if_pos rfl, report, reported]
    cases hstatus : (stops.harts h).status with
    | hitBreakpoint =>
      simp only [if_true]
    | terminated | runnable => rfl
  · rw [if_neg hg, report]
    cases (stops.harts g).status with
    | hitBreakpoint => exact if_neg hg
    | terminated | runnable => rfl

theorem foldl_report_harts (run : List Nat) (stops : Stops) (h : Nat) :
    (run.foldl s.report stops).harts h =
      if h ∈ run then reported (stops.harts h) else stops.harts h := by
  induction run generalizing stops with
  | nil => rfl
  | cons g run ih =>
    rw [List.foldl_cons, ih, report_harts]
    by_cases hg : h = g
    · subst hg
      rw [if_pos rfl, reported_reported, ite_self, if_pos List.mem_cons_self]
    · rw [if_neg hg]
      exact if_congr (List.mem_cons.trans (or_iff_right hg)).symm rfl rfl

variable (s) in
/-- There was a stop, of one of the harts. -/
def Stopped (stop : Option (String × Int)) : Prop := ∃ reason h, stop = some (reason, s.threadOf h)

/-- A hart that is not runnable has stopped. -/
theorem foldl_report_stop (run : List Nat) (stops : Stops)
    (h : s.Stopped stops.stop ∨ ∃ h ∈ run, (stops.harts h).status ≠ .runnable) :
    s.Stopped (run.foldl s.report stops).stop := by
  induction run generalizing stops with
  | nil => exact h.resolve_right (by simp)
  | cons g run ih =>
    rw [List.foldl_cons]
    apply ih
    cases hstatus : (stops.harts g).status with
    | hitBreakpoint =>
      rw [report, hstatus]
      exact .inl ⟨_, _, rfl⟩
    | terminated =>
      rw [report, hstatus]
      exact .inl ⟨_, _, rfl⟩
    | runnable =>
      rw [report, hstatus]
      refine h.imp_right ?_
      rintro ⟨h, hh, hne⟩
      obtain rfl | hh := List.mem_cons.mp hh
      · exact absurd hstatus hne
      · exact ⟨h, hh, hne⟩

/-- The server does not get stuck when it runs some harts. -/
def Startable (harts : Nat → Hart) (run : List Nat) : Prop :=
  run = [] ∨ started harts run ≠ [] ∧ ∀ h ∈ run, harts h ≠ .lost

/-- The harts as the server finds them. -/
def foundHarts (harts : Nat → Hart) (run : List Nat) (b : Behaviour) (h : Nat) : Hart :=
  if h ∈ started harts run then (b.foundOf (started harts run) h).hart else harts h

theorem runThreads_eq_ok {harts harts' : Nat → Hart} {run : List Nat} {b : Behaviour} :
    runThreads harts run b = .ok harts' ↔
      Startable harts run ∧ foundHarts harts run b = harts' := by
  unfold runThreads Startable
  by_cases hnil : run = []
  · subst hnil
    rw [if_pos rfl]
    have hfound : foundHarts harts [] b = harts := rfl
    rw [hfound]
    exact ⟨fun h ↦ ⟨.inl rfl, Except.ok.inj h⟩, fun h ↦ congrArg _ h.2⟩
  · rw [if_neg hnil]
    by_cases hstarted : started harts run = []
    · rw [if_pos hstarted]
      refine iff_of_false (fun h ↦ ?_) fun h ↦ ?_
      · cases h
      · exact (h.1.resolve_left hnil).1 hstarted
    · rw [if_neg hstarted]
      by_cases hlost : ∃ h ∈ run, harts h = .lost
      · rw [if_pos hlost]
        obtain ⟨h, hrun, heq⟩ := hlost
        refine iff_of_false (fun h ↦ ?_) fun hand ↦ ?_
        · cases h
        · exact (hand.1.resolve_left hnil).2 h hrun heq
      · rw [if_neg hlost]
        have hfine : ∀ h ∈ run, harts h ≠ .lost := fun h hh heq ↦ hlost ⟨h, hh, heq⟩
        exact ⟨fun h ↦ ⟨.inr ⟨hstarted, hfine⟩, Except.ok.inj h⟩, fun h ↦ congrArg _ h.2⟩

variable (s) in
/-- The stops after an action. -/
def after (stops : Stops) (run : List Nat) (b : Behaviour) : Stops :=
  run.foldl s.report { stops with harts := foundHarts stops.harts run b }

theorem vContLoop_cons_eq_ok {o : Nat → Behaviour} {stops : Stops} {matched : List Nat} {v : VCont}
    {vs : List VCont} {answer : String × (Nat → Hart)} :
    s.vContLoop o stops matched (v :: vs) = .ok answer ↔
      (v.action = 's' ∨ v.action = 'c') ∧
        (s.getThreads v.thread.tid = none ∧ ("E01", stops.harts) = answer ∨
          ∃ threads, s.getThreads v.thread.tid = some threads ∧
            Startable stops.harts (threads.filter (· ∉ matched)) ∧
            s.vContLoop (fun i ↦ o (i + 1)) (s.after stops (threads.filter (· ∉ matched)) (o 0))
              (if 0 < v.thread.tid then matched ++ threads else matched) vs = .ok answer) := by
  rw [vContLoop, require_bind_eq_ok]
  apply and_congr_right
  intro _
  cases hthreads : s.getThreads v.thread.tid with
  | none =>
    dsimp only
    constructor
    · intro h
      exact .inl ⟨rfl, Except.ok.inj h⟩
    · rintro (⟨-, rfl⟩ | ⟨_, h, -⟩)
      · rfl
      · cases h
  | some threads =>
    dsimp only
    rw [bind_eq_ok]
    constructor
    · rintro ⟨harts, hrun, h⟩
      obtain ⟨hstartable, rfl⟩ := runThreads_eq_ok.mp hrun
      exact .inr ⟨threads, rfl, hstartable, (require_bind_eq_ok.mp h).2⟩
    · rintro (⟨h, -⟩ | ⟨_, h, hstartable, hloop⟩)
      · cases h
      · cases h
        refine ⟨_, runThreads_eq_ok.mpr ⟨hstartable, rfl⟩, ?_⟩
        exact require_bind_eq_ok.mpr ⟨length_getThreads hthreads, hloop⟩

theorem after_harts (stops : Stops) (hquiet : ∀ h, (stops.harts h).Quiet) (run : List Nat)
    (b : Behaviour) : (s.after stops run b).harts = settle stops.harts run b := by
  funext h
  rw [after, foldl_report_harts, settle]
  dsimp only [foundHarts]
  by_cases hstarted : h ∈ started stops.harts run
  · rw [if_pos hstarted, if_pos hstarted, if_pos (List.mem_of_mem_filter hstarted)]
    cases b.foundOf (started stops.harts run) h with
    | hitBreakpoint | terminated => rfl
    | running exits => cases exits <;> rfl
  · rw [if_neg hstarted, if_neg hstarted, reported_of_quiet (hquiet h), ite_self]

theorem firstOf_mem (b : Behaviour) {started : List Nat} (h : started ≠ []) :
    b.firstOf started ∈ started := by
  unfold Behaviour.firstOf
  split
  case isTrue hmem => exact hmem
  case isFalse =>
    cases started with
    | nil => exact absurd rfl h
    | cons g gs => exact List.mem_cons_self

/-- The first hart that stops is reported. -/
theorem after_stop {stops : Stops} {run : List Nat} (b : Behaviour)
    (h : s.Stopped stops.stop ∨ started stops.harts run ≠ []) :
    s.Stopped (s.after stops run b).stop := by
  refine foldl_report_stop _ _ (h.imp_right fun hne ↦ ?_)
  have hmem := firstOf_mem b hne
  refine ⟨b.firstOf (started stops.harts run), List.mem_of_mem_filter hmem, ?_⟩
  dsimp only [foundHarts]
  rw [if_pos hmem, Behaviour.foundOf, if_pos rfl]
  cases b.found (b.firstOf (started stops.harts run)) with
  | hitBreakpoint | terminated | running exits => exact Status.noConfusion

/-! ## Harts after several actions -/

theorem mem_started {harts : Nat → Hart} {run : List Nat} {h : Nat} :
    h ∈ started harts run ↔ h ∈ run ∧ (harts h).runner = .waiting := by
  rw [started, List.mem_filter, decide_eq_true_iff]

theorem settled_quiet (found : Found) : found.settled.Quiet := by
  cases found with
  | hitBreakpoint => exact .inl rfl
  | terminated => exact .inr (.inl rfl)
  | running exits => cases exits with
    | false => exact .inl rfl
    | true => exact .inr (.inr rfl)

theorem settle_quiet {harts : Nat → Hart} (hquiet : ∀ h, (harts h).Quiet) (run : List Nat)
    (b : Behaviour) (h : Nat) : (settle harts run b h).Quiet := by
  unfold settle
  split
  case isTrue => exact settled_quiet _
  case isFalse => exact hquiet h

/-- The harts are quiet after a request, too. -/
theorem vContLoop_quiet {o : Nat → Behaviour} {stops : Stops} {matched : List Nat} {vs : List VCont}
    {answer : String × (Nat → Hart)} (hquiet : ∀ h, (stops.harts h).Quiet)
    (h : s.vContLoop o stops matched vs = .ok answer) (g : Nat) : (answer.2 g).Quiet := by
  induction vs generalizing o stops matched with
  | nil =>
    rw [vContLoop] at h
    cases hstop : stops.stop with
    | none =>
      rw [hstop] at h
      cases h
    | some stop =>
      rw [hstop] at h
      have hanswer := (require_bind_eq_ok.mp h).2
      cases hanswer
      exact hquiet g
  | cons v vs ih =>
    obtain ⟨-, ⟨-, rfl⟩ | ⟨threads, -, -, hrest⟩⟩ := vContLoop_cons_eq_ok.mp h
    · exact hquiet g
    · refine ih (fun h ↦ ?_) hrest
      rw [after_harts stops hquiet]
      exact settle_quiet hquiet _ _ h

/-- What is known of the harts after others have been run: one that was not run is as before, only one
that could be started before can be started now, and one gets lost only if it is run together with another
one. -/
structure After (harts₀ harts : Nat → Hart) (ran : List (List Nat)) : Prop where
  quiet : ∀ h, (harts h).Quiet
  fresh : ∀ h, (∀ r ∈ ran, h ∉ r) → harts h = harts₀ h
  ready : ∀ h, (harts h).runner = .waiting → harts₀ h = .ready
  lost : ∀ h, harts h = .lost → harts₀ h = .lost ∨
    harts₀ h = .ready ∧ ∃ r ∈ ran, h ∈ r ∧ ∃ g ∈ r, harts₀ g = .ready ∧ g ≠ h

theorem ready_of_waiting {h : Hart} (hquiet : h.Quiet) (hwaiting : h.runner = .waiting) :
    h = .ready := by
  obtain rfl | rfl | rfl := hquiet
  · rfl
  · cases hwaiting
  · cases hwaiting

/-- Only a hart that is not the first one that stops gets lost. -/
theorem After.settle {harts₀ harts : Nat → Hart} {ran : List (List Nat)} (h : After harts₀ harts ran)
    (run : List Nat) (b : Behaviour) : After harts₀ (settle harts run b) (run :: ran) where
  quiet := settle_quiet h.quiet run b
  fresh := by
    intro g hg
    have hrun : g ∉ started harts run := by
      intro hmem
      exact hg run List.mem_cons_self (mem_started.mp hmem).1
    rw [GdbServer.settle, if_neg hrun]
    exact h.fresh g fun r hr ↦ hg r (List.mem_cons_of_mem _ hr)
  ready := by
    intro g hwaiting
    by_cases hmem : g ∈ started harts run
    · exact h.ready g (mem_started.mp hmem).2
    · rw [GdbServer.settle, if_neg hmem] at hwaiting
      exact h.ready g hwaiting
  lost := by
    intro g hlost
    by_cases hmem : g ∈ started harts run
    · rw [GdbServer.settle, if_pos hmem] at hlost
      obtain ⟨hrun, hwaiting⟩ := mem_started.mp hmem
      have hfirst := firstOf_mem b (List.ne_nil_of_mem hmem)
      refine .inr ⟨h.ready g hwaiting, run, List.mem_cons_self, hrun,
        b.firstOf (started harts run), (mem_started.mp hfirst).1, h.ready _ (mem_started.mp hfirst).2, ?_⟩
      intro heq
      rw [Behaviour.foundOf, if_pos heq.symm] at hlost
      cases hfound : b.found g with
      | hitBreakpoint | terminated | running exits =>
        rw [hfound] at hlost
        cases hlost
    · rw [GdbServer.settle, if_neg hmem] at hlost
      refine (h.lost g hlost).imp_right ?_
      rintro ⟨hready, r, hr, hg⟩
      exact ⟨hready, r, List.mem_cons_of_mem _ hr, hg⟩

theorem After.startable {harts : Nat → Hart} {ran : List (List Nat)} (h : After s.harts harts ran)
    {run : List Nat} (hruns : s.Runs ran run) : Startable harts run := by
  refine hruns.imp_right ?_
  rintro ⟨⟨g, hg, hready, hfresh⟩, hrun⟩
  constructor
  · have hwaiting : (harts g).runner = .waiting := by
      rw [h.fresh g hfresh, hready]
      rfl
    exact List.ne_nil_of_mem (mem_started.mpr ⟨hg, hwaiting⟩)
  · intro g hg hlost
    obtain hlost | ⟨hready, r, hr, hgr, k, hk, hkready, hne⟩ := h.lost g hlost
    · exact (hrun g hg).1 hlost
    · exact hne ((hrun g hg).2 hready r hr hgr k hk hkready)

/-- What the server reads of an action. -/
structure Parsed (a : Action) (v : VCont) : Prop where
  thread : v.thread = a.threadId
  action : v.action = 's' ∨ v.action = 'c' ↔ a.verb = .s ∨ a.verb = .c

theorem gdbfVcontAction_eq_ok {a : Action} {v : VCont} (h : gdbfVcontAction a = .ok v) :
    a.verb.TwoDigits ∧ Parsed a v := by
  obtain ⟨verb, thread⟩ := a
  cases verb with
  | c | s | t =>
    cases h
    exact ⟨trivial, rfl, by simp [Verb.text]⟩
  | C signal | S signal =>
    have hpos := List.length_pos_of_ne_nil signal.nonempty
    unfold gdbfVcontAction at h
    dsimp only [Verb.text, List.length_cons] at h
    rw [if_neg (by omega)] at h
    split at h
    case isTrue htwo =>
      cases h
      exact ⟨Nat.succ_injective htwo, rfl, by simp⟩
    case isFalse => cases h

theorem gdbfVcontAction_of_twoDigits {a : Action} (h : a.verb.TwoDigits) :
    ∃ v, gdbfVcontAction a = .ok v := by
  obtain ⟨verb, thread⟩ := a
  cases verb with
  | c | s | t => exact ⟨_, rfl⟩
  | C signal | S signal =>
    have htwo : signal.digits.length = 2 := h
    unfold gdbfVcontAction
    dsimp only [Verb.text, List.length_cons]
    rw [if_neg (by omega), if_pos (by omega)]
    exact ⟨_, rfl⟩

theorem gdbfVcont_eq_ok {actions : List Action} {vs : List VCont} (h : gdbfVcont actions = .ok vs) :
    (∀ a ∈ actions, a.verb.TwoDigits) ∧ List.Forall₂ Parsed actions vs := by
  induction actions generalizing vs with
  | nil =>
    cases h
    exact ⟨by simp, .nil⟩
  | cons a actions ih =>
    rw [gdbfVcont, List.mapM_cons] at h
    obtain ⟨v, hv, h⟩ := bind_eq_ok.mp h
    obtain ⟨vs', hvs, h⟩ := bind_eq_ok.mp h
    cases h
    obtain ⟨hdigits, hparsed⟩ := gdbfVcontAction_eq_ok hv
    obtain ⟨hrest, hforall⟩ := ih hvs
    exact ⟨List.forall_mem_cons.mpr ⟨hdigits, hrest⟩, .cons hparsed hforall⟩

theorem gdbfVcont_of_twoDigits {actions : List Action} (h : ∀ a ∈ actions, a.verb.TwoDigits) :
    ∃ vs, gdbfVcont actions = .ok vs := by
  induction actions with
  | nil => exact ⟨[], rfl⟩
  | cons a actions ih =>
    obtain ⟨ha, hrest⟩ := List.forall_mem_cons.mp h
    obtain ⟨v, hv⟩ := gdbfVcontAction_of_twoDigits ha
    obtain ⟨vs, hvs⟩ := ih hrest
    refine ⟨v :: vs, ?_⟩
    rw [gdbfVcont, List.mapM_cons]
    exact bind_eq_ok.mpr ⟨v, hv, bind_eq_ok.mpr ⟨vs, hvs, rfl⟩⟩

theorem vContLoop_of_allowed {actions : List Action} {vs : List VCont}
    (hparsed : List.Forall₂ Parsed actions vs) {o : Nat → Behaviour} {stops : Stops}
    {matched : List Nat} {ran : List (List Nat)} (hafter : After s.harts stops.harts ran)
    (hstop : s.Stopped stops.stop ∨ matched = [] ∧ actions ≠ [])
    (hallowed : s.Allowed matched ran actions) :
    ∃ answer, s.vContLoop o stops matched vs = .ok answer := by
  induction hparsed generalizing o stops matched ran with
  | nil =>
    obtain ⟨reason, h, heq⟩ := hstop.resolve_right fun hand ↦ hand.2 rfl
    rw [vContLoop, heq]
    exact ⟨_, require_bind_of (one_le_threadOf h)⟩
  | @cons a v actions vs ha _ ih =>
    obtain ⟨hverb, hrest⟩ := hallowed
    have haction := ha.action.mpr hverb
    cases hthreads : s.getThreads a.threadId.tid with
    | none =>
      refine ⟨_, vContLoop_cons_eq_ok.mpr ⟨haction, .inl ⟨?_, rfl⟩⟩⟩
      rw [ha.thread, hthreads]
    | some threads =>
      rw [hthreads] at hrest
      obtain ⟨hruns, hrest⟩ := hrest
      have hstartable := hafter.startable hruns
      have hstop' : s.Stopped (s.after stops (threads.filter (· ∉ matched)) (o 0)).stop := by
        apply after_stop
        refine hstop.imp_right ?_
        rintro ⟨rfl, -⟩
        refine (hstartable.resolve_left ?_).1
        simpa using getThreads_ne_nil hthreads
      have hafter' : After s.harts (s.after stops (threads.filter (· ∉ matched)) (o 0)).harts
          (threads.filter (· ∉ matched) :: ran) := by
        rw [after_harts stops hafter.quiet]
        exact hafter.settle _ _
      obtain ⟨answer, hanswer⟩ := ih (o := fun i ↦ o (i + 1)) hafter' (.inl hstop') hrest
      refine ⟨answer, vContLoop_cons_eq_ok.mpr ⟨haction, .inr ⟨threads, ?_, hstartable, ?_⟩⟩⟩
      · rw [ha.thread, hthreads]
      · rw [ha.thread]
        exact hanswer

/-! ## Answered requests are allowed -/

/-- Every hart that was run has terminated. -/
def ended (harts₀ : Nat → Hart) (ran : List (List Nat)) (h : Nat) : Hart :=
  if harts₀ h = .ready ∧ ∃ r ∈ ran, h ∈ r then .exited else harts₀ h

/-- One hart has got lost. -/
def lose (harts₀ : Nat → Hart) (g h : Nat) : Hart := if h = g then .lost else harts₀ h

/-- What the harts can be after others have been run: they have all hit breakpoints, they have all
terminated, or one has got lost while another one has hit a breakpoint. -/
inductive Possible (harts₀ : Nat → Hart) (ran : List (List Nat)) : (Nat → Hart) → Prop
  | same : Possible harts₀ ran harts₀
  | ended : Possible harts₀ ran (ended harts₀ ran)
  | lose {g k : Nat} {r : List Nat} (hr : r ∈ ran) (hg : g ∈ r) (hk : k ∈ r) (hne : k ≠ g)
      (hready : harts₀ g = .ready) (hready' : harts₀ k = .ready) :
      Possible harts₀ ran (lose harts₀ g)

theorem Possible.quiet {harts₀ harts : Nat → Hart} {ran : List (List Nat)}
    (h : Possible harts₀ ran harts) (hquiet : ∀ h, (harts₀ h).Quiet) (g : Nat) : (harts g).Quiet := by
  cases h with
  | same => exact hquiet g
  | ended =>
    unfold GdbServer.ended
    split
    case isTrue => exact .inr (.inl rfl)
    case isFalse => exact hquiet g
  | lose =>
    unfold GdbServer.lose
    split
    case isTrue => exact .inr (.inr rfl)
    case isFalse => exact hquiet g

/-- Whether it is first or not, a hart may hit a breakpoint. -/
theorem settle_hitBreakpoint {harts : Nat → Hart} (hquiet : ∀ h, (harts h).Quiet) (run : List Nat) :
    settle harts run ⟨0, fun _ ↦ .hitBreakpoint⟩ = harts := by
  funext h
  unfold settle
  split
  case isTrue hmem =>
    rw [ready_of_waiting (hquiet h) (mem_started.mp hmem).2, Behaviour.foundOf]
    split <;> rfl
  case isFalse => rfl

theorem settle_terminated {harts₀ : Nat → Hart} (hquiet : ∀ h, (harts₀ h).Quiet)
    (ran : List (List Nat)) (run : List Nat) :
    settle (ended harts₀ ran) run ⟨0, fun _ ↦ .terminated⟩ = ended harts₀ (run :: ran) := by
  funext h
  have hfound : (Behaviour.foundOf ⟨0, fun _ ↦ .terminated⟩ (started (ended harts₀ ran) run) h).settled =
      .exited := by
    rw [Behaviour.foundOf]
    split <;> rfl
  rw [settle, hfound]
  simp only [mem_started, ended, List.mem_cons, exists_eq_or_imp]
  by_cases hran : harts₀ h = .ready ∧ ∃ r ∈ ran, h ∈ r
  · have hnot : ¬ Hart.exited.runner = .waiting := Runner.noConfusion
    rw [if_pos hran, if_neg fun hand ↦ hnot hand.2, if_pos ⟨hran.1, .inr hran.2⟩]
  · rw [if_neg hran]
    refine if_congr ?_ rfl rfl
    constructor
    · rintro ⟨hrun, hwaiting⟩
      exact ⟨ready_of_waiting (hquiet h) hwaiting, .inl hrun⟩
    · rintro ⟨hready, hrun | hran'⟩
      · exact ⟨hrun, congrArg Hart.runner hready⟩
      · exact absurd ⟨hready, hran'⟩ hran

theorem settle_lost {harts₀ : Nat → Hart} (hquiet : ∀ h, (harts₀ h).Quiet) {run : List Nat} {g k : Nat}
    (hg : g ∈ run) (hk : k ∈ run) (hne : k ≠ g) (hready : harts₀ g = .ready)
    (hready' : harts₀ k = .ready) :
    settle harts₀ run ⟨k, fun h ↦ if h = g then .running true else .hitBreakpoint⟩ = lose harts₀ g := by
  have hkstarted : k ∈ started harts₀ run := mem_started.mpr ⟨hk, congrArg Hart.runner hready'⟩
  have hgstarted : g ∈ started harts₀ run := mem_started.mpr ⟨hg, congrArg Hart.runner hready⟩
  funext h
  unfold settle Behaviour.foundOf Behaviour.firstOf lose
  dsimp only
  rw [if_pos hkstarted]
  by_cases hhg : h = g
  · subst hhg
    rw [if_pos hgstarted, if_neg hne.symm, if_pos rfl, if_pos rfl]
    rfl
  · rw [if_neg hhg, if_neg hhg]
    split
    case isTrue hmem =>
      rw [ready_of_waiting (hquiet h) (mem_started.mp hmem).2]
      split <;> rfl
    case isFalse => rfl

/-- What the harts can be after one more action, they are after one of those that they can be before. -/
theorem Possible.cons {harts₀ harts : Nat → Hart} (hquiet : ∀ h, (harts₀ h).Quiet)
    {ran : List (List Nat)} {run : List Nat} (h : Possible harts₀ (run :: ran) harts) :
    ∃ before b, Possible harts₀ ran before ∧ settle before run b = harts := by
  cases h with
  | same => exact ⟨harts₀, _, .same, settle_hitBreakpoint hquiet run⟩
  | ended => exact ⟨_, _, .ended, settle_terminated hquiet ran run⟩
  | @lose g k r hr hg hk hne hready hready' =>
    obtain rfl | hr := List.mem_cons.mp hr
    · exact ⟨harts₀, _, .same, settle_lost hquiet hg hk hne hready hready'⟩
    · have hlose := Possible.lose hr hg hk hne hready hready'
      exact ⟨_, _, hlose, settle_hitBreakpoint (hlose.quiet hquiet) run⟩

/-- Harts can be run if the server does not get stuck whatever the harts are. -/
theorem runs_of_startable {ran : List (List Nat)} {run : List Nat}
    (h : ∀ harts, Possible s.harts ran harts → Startable harts run) : s.Runs ran run := by
  by_cases hnil : run = []
  · exact .inl hnil
  · right
    have hfine : ∀ harts, Possible s.harts ran harts →
        started harts run ≠ [] ∧ ∀ h ∈ run, harts h ≠ .lost :=
      fun harts hharts ↦ (h harts hharts).resolve_left hnil
    constructor
    · obtain ⟨g, hg⟩ := List.exists_mem_of_ne_nil _ (hfine _ .ended).1
      obtain ⟨hrun, hwaiting⟩ := mem_started.mp hg
      unfold ended at hwaiting
      split at hwaiting
      case isTrue => cases hwaiting
      case isFalse hran =>
        have hready := ready_of_waiting (s.quiet g) hwaiting
        exact ⟨g, hrun, hready, fun r hr hgr ↦ hran ⟨hready, r, hr, hgr⟩⟩
    · intro g hg
      refine ⟨(hfine _ .same).2 g hg, fun hready r hr hgr k hk hready' ↦ ?_⟩
      by_contra hne
      exact (hfine _ (.lose hr hgr hk hne hready hready')).2 g hg (if_pos rfl)

theorem allowed_of_vContLoop {actions : List Action} {vs : List VCont}
    (hparsed : List.Forall₂ Parsed actions vs) {matched : List Nat} {ran : List (List Nat)}
    (h : ∀ harts, Possible s.harts ran harts →
      ∃ stop, ∀ o, ∃ answer, s.vContLoop o ⟨harts, stop⟩ matched vs = .ok answer) :
    s.Allowed matched ran actions := by
  induction hparsed generalizing matched ran with
  | nil => trivial
  | @cons a v actions vs ha _ ih =>
    obtain ⟨stop, hanswers⟩ := h _ .same
    obtain ⟨answer, hanswer⟩ := hanswers fun _ ↦ ⟨0, fun _ ↦ .hitBreakpoint⟩
    refine ⟨ha.action.mp (vContLoop_cons_eq_ok.mp hanswer).1, ?_⟩
    cases hthreads : s.getThreads a.threadId.tid with
    | none => trivial
    | some threads =>
      have hstep : ∀ harts, Possible s.harts ran harts →
          Startable harts (threads.filter (· ∉ matched)) ∧ ∃ stop, ∀ b o, ∃ answer,
            s.vContLoop o (s.after ⟨harts, stop⟩ (threads.filter (· ∉ matched)) b)
              (if 0 < a.threadId.tid then matched ++ threads else matched) vs = .ok answer := by
        intro harts hharts
        obtain ⟨stop, hanswers⟩ := h harts hharts
        have hrest : ∀ o : Nat → Behaviour, ∃ answer, Startable harts (threads.filter (· ∉ matched)) ∧
            s.vContLoop (fun i ↦ o (i + 1)) (s.after ⟨harts, stop⟩ (threads.filter (· ∉ matched)) (o 0))
              (if 0 < a.threadId.tid then matched ++ threads else matched) vs = .ok answer := by
          intro o
          obtain ⟨answer, hanswer⟩ := hanswers o
          obtain ⟨-, ⟨hnone, -⟩ | ⟨_, hsome, hrest⟩⟩ := vContLoop_cons_eq_ok.mp hanswer
          · rw [ha.thread, hthreads] at hnone
            cases hnone
          · rw [ha.thread, hthreads] at hsome
            cases hsome
            rw [ha.thread] at hrest
            exact ⟨answer, hrest⟩
        obtain ⟨-, hstartable, -⟩ := hrest fun _ ↦ ⟨0, fun _ ↦ .hitBreakpoint⟩
        refine ⟨hstartable, stop, fun b o ↦ ?_⟩
        obtain ⟨answer, -, hanswer⟩ := hrest fun i ↦ if i = 0 then b else o (i - 1)
        exact ⟨answer, hanswer⟩
      refine ⟨runs_of_startable fun harts hharts ↦ (hstep harts hharts).1, ih fun harts hharts ↦ ?_⟩
      obtain ⟨before, b, hbefore, rfl⟩ := hharts.cons s.quiet
      obtain ⟨-, stop, hrest⟩ := hstep before hbefore
      refine ⟨(s.after ⟨before, stop⟩ (threads.filter (· ∉ matched)) b).stop, fun o ↦ ?_⟩
      rw [← after_harts (s := s) ⟨before, stop⟩ (hbefore.quiet s.quiet)]
      exact hrest b o

theorem Possible.eq_of_nil {harts₀ harts : Nat → Hart} (h : Possible harts₀ [] harts) :
    harts = harts₀ := by
  cases h with
  | same => rfl
  | ended =>
    funext g
    refine if_neg ?_
    rintro ⟨-, r, hr, -⟩
    exact absurd hr List.not_mem_nil
  | lose hr => exact absurd hr List.not_mem_nil

/-- A request is answered whatever the harts do exactly if its signals have two digits and its actions are
allowed. -/
theorem answers_iff (s : GdbServer) (request : VContRequest) :
    s.Answers request ↔
      (∀ a ∈ request.actions, a.verb.TwoDigits) ∧ s.Allowed [] [] request.actions := by
  constructor
  · intro hanswers
    obtain ⟨_, hanswer⟩ := hanswers fun _ ↦ ⟨0, fun _ ↦ .hitBreakpoint⟩
    obtain ⟨vs, hvs, -⟩ := bind_eq_ok.mp hanswer
    obtain ⟨hdigits, hparsed⟩ := gdbfVcont_eq_ok hvs
    refine ⟨hdigits, allowed_of_vContLoop hparsed fun harts hharts ↦ ⟨none, fun o ↦ ?_⟩⟩
    obtain ⟨answer, hanswer⟩ := hanswers o
    obtain ⟨_, hvs', hloop⟩ := bind_eq_ok.mp hanswer
    cases hvs.symm.trans hvs'
    rw [hharts.eq_of_nil]
    exact ⟨answer, hloop⟩
  · rintro ⟨hdigits, hallowed⟩ o
    obtain ⟨vs, hvs⟩ := gdbfVcont_of_twoDigits hdigits
    have hafter : After s.harts s.harts [] :=
      { quiet := s.quiet
        fresh := fun _ _ ↦ rfl
        ready := fun h hwaiting ↦ ready_of_waiting (s.quiet h) hwaiting
        lost := fun _ hlost ↦ .inl hlost }
    have hloop : ∃ answer, s.vContLoop o ⟨s.harts, none⟩ [] vs = .ok answer :=
      vContLoop_of_allowed (gdbfVcont_eq_ok hvs).2 hafter (.inr ⟨rfl, request.nonempty⟩) hallowed
    obtain ⟨answer, hanswer⟩ := hloop
    exact ⟨answer, bind_eq_ok.mpr ⟨vs, hvs, hanswer⟩⟩

theorem ready_quiet (_ : Nat) : Hart.ready.Quiet := .inl rfl

theorem zero_lt_threads (_ : Nat) : 0 < 2 ^ 31 - 1 := by decide

/-- A server with one hart that can be started. -/
def oneHart : GdbServer := ⟨1, Nat.one_pos, fun _ ↦ 0, zero_lt_threads, fun _ ↦ .ready, ready_quiet⟩

theorem five_nonempty : ['0', '5'] ≠ [] := List.cons_ne_nil _ _

theorem five_hex : ∀ c ∈ ['0', '5'], c ∈ hexDigits ++ ['A', 'B', 'C', 'D', 'E', 'F'] :=
  List.all_iff_forall_prop.mp rfl

/-- `vCont;C05` -/
def continueWithSignal : VContRequest :=
  ⟨[⟨.C ⟨['0', '5'], five_nonempty, five_hex⟩, none⟩], List.cons_ne_nil _ _⟩

/-- The server does not answer the action that it says it supports. -/
theorem not_answers : 'C' ∈ vContSupported.toList ∧ ¬ oneHart.Answers continueWithSignal := by
  refine ⟨by decide, fun h ↦ ?_⟩
  obtain ⟨answer, hanswer⟩ := h fun _ ↦ ⟨0, fun _ ↦ .hitBreakpoint⟩
  have hfault : oneHart.vCont (fun _ ↦ ⟨0, fun _ ↦ .hitBreakpoint⟩) continueWithSignal =
      .error (.invalidArgument "Unimplemented vCont action") := rfl
  rw [hfault] at hanswer
  cases hanswer

end GdbServer

end CoverageVP.Gdb
