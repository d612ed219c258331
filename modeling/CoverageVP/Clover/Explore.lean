import CoverageVP.Clover.Requests
import CoverageVP.Clover.Trace
import CoverageVP.Lib.DecisionTree

/-!
# Exploring a program

A program is a finite decision tree over its symbolic inputs. A run requests the inputs from the
execution context, follows the tree and reports each condition to the tracer. `explorePaths` repeats
runs until the tracer finds no new path.
-/

namespace CoverageVP.Clover

open Lib

/-! ## Programs and their runs -/

/-- A deterministic program: the inputs it requests at its start, and the tree of the conditions on
these inputs that it branches on. -/
structure Program where
  inputs : List (IntType × String)
  tree : DecisionTree Expr
  nodup : (inputs.map Prod.snd).Nodup
  width : ∀ c ∈ tree.conds, c.getWidth = 1
  reads : ∀ c ∈ tree.conds, ∀ array ∈ c.findSymbolicObjects,
    ∃ input ∈ inputs, array = ⟨input.2, input.1.byteSize⟩

/-- The assignment of the arrays named by the inputs; other arrays are zero. -/
def inputAssignment (inputs : List (IntType × String)) (values : List IntValue) : Assignment :=
  fun array ↦
    match (inputs.zip values).find? fun entry ↦ entry.1.2 = array.name with
    | some entry => BitVec.ofNat _ entry.2.intToUint
    | none => 0#_

/-- Which conditions hold under an assignment. -/
def decides (σ : Assignment) (c : Expr) : Bool := decide (c.Holds σ)

/-- The conditions met on the way through a tree are reported to the tracer in order. -/
def report (klee : Klee) (σ : Assignment) : DecisionTree Expr → Trace → Trace
  | .leaf, trace => trace
  | .node c t f, trace =>
    if decides σ c then report klee σ t (trace.add klee true c)
    else report klee σ f (trace.add klee false c)

structure ExploreState where
  ctx : ExecutionContext
  trace : Trace
  rand : RandSource

def ExploreState.init (rand : RandSource) : ExploreState := ⟨.init, .init, rand⟩

/-- One run of the program from a reset tracer, with the path it follows; `none` if an assertion
fails. -/
def runProgram (klee : Klee) (program : Program) (st : ExploreState) :
    Option (List Bool × ExploreState) :=
  match fetch program.inputs ⟨st.ctx, st.rand⟩ with
  | .error _ _ => none
  | .ok values inputState =>
    let σ := inputAssignment program.inputs values
    some (program.tree.follow (decides σ),
      ⟨inputState.ctx, report klee σ program.tree st.trace.reset, inputState.rand⟩)

/-- Schedules a model for a new path; `some (false, _)` if all paths are explored. -/
def setupNewValues (klee : Klee) (st : ExploreState) : Option (Bool × ExploreState) :=
  match st.trace.findNewPath klee st.rand with
  | none => none
  | some (none, trace, rand) => some (false, ⟨st.ctx, trace, rand⟩)
  | some (some assign, trace, rand) =>
    match Trace.getStore assign with
    | none => none
    | some store => some (true, ⟨st.ctx.setupNewValues store, trace, rand⟩)

/-- The paths of the runs of the exploration loop, in order. There is no result if the loop is not
left within `fuel` runs, or if an assertion fails. -/
def explorePaths (klee : Klee) (program : Program) : Nat → ExploreState → Option (List (List Bool))
  | 0, _ => none
  | fuel + 1, st => do
    let (path, st) ← runProgram klee program st
    let (again, st) ← setupNewValues klee st
    if again then
      let executed ← explorePaths klee program fuel st
      return path :: executed
    else return [path]

/-! ## The effect of a run on the execution tree -/

namespace Branch

/-- The side of a branch. -/
def child (d : Bool) : Branch → Branch
  | .null => .null
  | .node _ _ t f => if d then t else f

/-- What a run with assignment `σ` through a tree makes of the branch it starts at. -/
def insert (σ : Assignment) : DecisionTree Expr → Branch → Branch
  | .leaf, b => b
  | .node c t f, b =>
    if decides σ c then modifyAt (insert σ t) [true] (addHere true c b)
    else modifyAt (insert σ f) [false] (addHere false c b)

theorem modifyAt_append (g : Branch → Branch) (p q : List Bool) (b : Branch) :
    modifyAt g (p ++ q) b = modifyAt (modifyAt g q) p b := by
  induction p generalizing b with
  | nil => rfl
  | cons d p ih =>
    cases b with
    | null => rfl
    | node bv n t f => cases d <;> simp only [List.cons_append, modifyAt, ih]

theorem modifyAt_modifyAt (g h : Branch → Branch) (p : List Bool) (b : Branch) :
    modifyAt g p (modifyAt h p b) = modifyAt (g ∘ h) p b := by
  induction p generalizing b with
  | nil => rfl
  | cons d p ih =>
    cases b with
    | null => rfl
    | node bv n t f => cases d <;> simp only [modifyAt, ih]

end Branch

theorem pathCondsRoot_report (klee : Klee) (σ : Assignment) (tree : DecisionTree Expr)
    (trace : Trace) :
    (report klee σ tree trace).pathCondsRoot =
      trace.pathCondsRoot.modifyAt (Branch.insert σ tree) trace.pathCondsCurrent := by
  induction tree generalizing trace with
  | leaf =>
    have hid : ∀ (p : List Bool) (b : Branch), b.modifyAt (Branch.insert σ .leaf) p = b := by
      intro p
      induction p with
      | nil => exact fun b ↦ rfl
      | cons d p ih =>
        intro b
        cases b with
        | null => rfl
        | node bv n t f => cases d <;> simp only [Branch.modifyAt, ih]
    rw [hid]
    rfl
  | node c t f iht ihf =>
    have hinsert : Branch.insert σ (.node c t f) =
        if decides σ c then Branch.modifyAt (Branch.insert σ t) [true] ∘ Branch.addHere true c
        else Branch.modifyAt (Branch.insert σ f) [false] ∘ Branch.addHere false c := by
      funext b
      rw [Branch.insert]
      split <;> rfl
    rw [report, hinsert]
    split
    · rw [iht, Trace.add, Branch.modifyAt_append, Branch.modifyAt_modifyAt]
    · rw [ihf, Trace.add, Branch.modifyAt_append, Branch.modifyAt_modifyAt]

end CoverageVP.Clover
