import CoverageVP.Clover.Concolic

/-!
# The execution context

The context hands out the symbolic inputs of a run. A name that is scheduled for the run gets its
scheduled value and is removed from the schedule; any other name gets a random value. What was
handed out last under each name is remembered for the test case that reproduces the run.

The outcomes of `rand()` are a parameter: a source is the sequence of the outcomes still to come. A
failing assertion ends a run where it stands, so the computations here are those of `EStateM`, which
keeps the state at the point of failure.
-/

namespace CoverageVP.Clover

/-- The outcomes of `rand()` from now on. -/
abbrev RandSource := Nat → Nat

def RandSource.tail (rand : RandSource) : RandSource := fun i ↦ rand (i + 1)

def RandSource.cons (outcome : Nat) (rand : RandSource) : RandSource
  | 0 => outcome
  | i + 1 => rand i

abbrev ConcreteStore := Std.ExtTreeMap String IntValue compare

structure ExecutionContext where
  /-- The values scheduled for the run. -/
  nextRun : ConcreteStore
  /-- The values handed out in the run. -/
  lastRun : ConcreteStore

namespace ExecutionContext

/-- The context of a new process. -/
def init : ExecutionContext := ⟨∅, ∅⟩

def getPrevStore (ctx : ExecutionContext) : ConcreteStore := ctx.lastRun

/-- Schedules the values of a store. Values scheduled before and not used stay. -/
def setupNewValues (ctx : ExecutionContext) (store : ConcreteStore) : ExecutionContext where
  nextRun := ctx.nextRun ∪ store
  lastRun := ∅

end ExecutionContext

structure InputState where
  ctx : ExecutionContext
  rand : RandSource

/-- Requests for inputs. The only error is the failed assertion on the type of a scheduled
value. -/
abbrev InputM := EStateM Unit InputState

def findRemoveOrRandom (T : IntType) (name : String) : InputM IntValue := fun s ↦
  match s.ctx.nextRun[name]? with
  | some concrete =>
    if concrete.type = T then
      .ok concrete
        { s with ctx := ⟨s.ctx.nextRun.erase name, s.ctx.lastRun.insert name concrete⟩ }
    else .error () s
  | none =>
    .ok (T.cast (s.rand 0))
      { ctx := ⟨s.ctx.nextRun, s.ctx.lastRun.insert name (T.cast (s.rand 0))⟩
        rand := s.rand.tail }

def getSymbolicWord (name : String) : InputM ConcolicValue := do
  let concrete ← findRemoveOrRandom .uint32 name
  return Solver.BVC (some name) concrete

def getSymbolicByte (name : String) : InputM ConcolicValue := do
  let concrete ← findRemoveOrRandom .uint8 name
  return Solver.BVC (some name) concrete

def byteName (name : String) (i : Nat) : String := name ++ ":byte" ++ toString i

/-- One turn of the loop of `getSymbolicBytes`. -/
def addSymbolicByte (name : String) (result : Option ConcolicValue) (i : Nat) :
    InputM (Option ConcolicValue) := do
  let symbyte ← getSymbolicByte (byteName name i)
  return Solver.concatByte result symbyte

def getSymbolicBytes (name : String) (size : Nat) : InputM (Option ConcolicValue) :=
  (List.range size).foldlM (addSymbolicByte name) none

/-! ## Runs as sequences of requests -/

inductive Request
  | word (name : String)
  | byte (name : String)
  | bytes (name : String) (size : Nat)
  deriving DecidableEq, Repr

namespace Request

def call : Request → InputM (Option ConcolicValue)
  | word name => do return some (← getSymbolicWord name)
  | byte name => do return some (← getSymbolicByte name)
  | bytes name size => getSymbolicBytes name size

/-- The typed names a request asks for, in order. -/
def parts : Request → List (IntType × String)
  | word name => [(.uint32, name)]
  | byte name => [(.uint8, name)]
  | bytes name size => (List.range size).map fun i ↦ (.uint8, byteName name i)

/-- The concrete part that a returned value has for each name of the request. -/
def namedValues (value : ConcolicValue) : Request → List (String × BV)
  | word name => [(name, value.concrete)]
  | byte name => [(name, value.concrete)]
  | bytes name size =>
    (List.range size).map fun i ↦ (byteName name i, value.concrete.extract (i * 8) 8)

end Request

/-- The requests of a run with the values they returned, up to a failed assertion, and the state
the run ends in. -/
def runRequests : List Request → InputState → List (Request × Option ConcolicValue) × InputState
  | [], s => ([], s)
  | request :: requests, s =>
    match request.call s with
    | .error _ s' => ([], s')
    | .ok value s' =>
      let (returned, final) := runRequests requests s'
      ((request, value) :: returned, final)

end CoverageVP.Clover
