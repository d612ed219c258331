import CoverageVP.Clover.Context

/-!
# The execution tree

The tracer keeps a binary tree of the branch conditions that were met in the runs so far. To find a
new path, a node is picked of which one side has not been taken, the conditions on the way to it
are asserted, its own condition is negated, and the solver is asked for a model. A node is picked at
most once.

The constraint manager and the solver of KLEE are a parameter, `Klee`. `Klee.Lawful` states what is
assumed of them: simplification preserves meaning and reads no new arrays, and `getInitialValues`
returns a model exactly when there is one.
-/

namespace CoverageVP.Clover

/-! ## KLEE -/

/-- The bytes of an array, least significant byte first. -/
def bytesOf {n : Nat} (value : BitVec (8 * n)) : List (BitVec 8) :=
  (List.range n).map fun i ↦ value.extractLsb' (8 * i) 8

structure Klee where
  simplifyExpr : List Expr → Expr → Expr
  addConstraint : List Expr → Expr → List Expr
  createIsZero : Expr → Expr
  getInitialValues : List Expr → Expr → List SymArray → Option (List (List (BitVec 8)))

/-- All constraints of a set hold. -/
def AllHold (σ : Assignment) (constraints : List Expr) : Prop := ∀ c ∈ constraints, c.Holds σ

structure Klee.Lawful (klee : Klee) : Prop where
  simplifyExpr_eval : ∀ cs e σ, AllHold σ cs → (klee.simplifyExpr cs e).eval σ = e.eval σ
  simplifyExpr_reads : ∀ cs e, (klee.simplifyExpr cs e).findSymbolicObjects ⊆
    e.findSymbolicObjects ++ cs.flatMap Expr.findSymbolicObjects
  /-- Nothing is assumed of the addition of a constraint that contradicts the others. -/
  addConstraint_holds : ∀ cs e, (∃ σ, AllHold σ cs ∧ e.Holds σ) →
    ∀ σ, AllHold σ (klee.addConstraint cs e) ↔ AllHold σ cs ∧ e.Holds σ
  addConstraint_reads : ∀ cs e, (klee.addConstraint cs e).flatMap Expr.findSymbolicObjects ⊆
    e.findSymbolicObjects ++ cs.flatMap Expr.findSymbolicObjects
  createIsZero_eval : ∀ e σ, (klee.createIsZero e).eval σ = .ofBool ((e.eval σ).toNat == 0)
  createIsZero_reads : ∀ e, (klee.createIsZero e).findSymbolicObjects ⊆ e.findSymbolicObjects
  /-- Without a result, the expression is valid under the constraints. -/
  getInitialValues_none : ∀ cs e objects, klee.getInitialValues cs e objects = none →
    ∀ σ, AllHold σ cs → e.Holds σ
  /-- A result is a model of the constraints and of the negated expression. -/
  getInitialValues_some : ∀ cs e objects values,
    klee.getInitialValues cs e objects = some values →
    ∃ σ, AllHold σ cs ∧ ¬ e.Holds σ ∧ values = objects.map fun array ↦ bytesOf (σ array)

structure Query where
  constraints : List Expr
  expr : Expr

def Query.negateExpr (klee : Klee) (query : Query) : Query :=
  { query with expr := klee.createIsZero query.expr }

/-- The arrays of a query with the bytes assigned to them. -/
abbrev Bindings := List (SymArray × List (BitVec 8))

/-- KLEE decides validity, so the query is negated to find a model of it. An expression that is the
constant `true` has no counterexample and is not passed on. -/
def Solver.getAssignment (klee : Klee) (query : Query) : Option Bindings :=
  let nq := query.negateExpr klee
  let objects := nq.expr.findSymbolicObjects ++ nq.constraints.flatMap Expr.findSymbolicObjects
  if nq.expr = .constant (.ofBool true) then none
  else (klee.getInitialValues nq.constraints nq.expr objects).map fun values ↦ objects.zip values

/-! ## Branches -/

/-- A node of the execution tree, or the null pointer. A node without a condition is a
placeholder. -/
inductive Branch
  | null
  | node (bv : Option Expr) (wasNegated : Bool) (trueBranch falseBranch : Branch)
  deriving DecidableEq, Repr

/-- Conditions on the way from the root to a node with the sides taken. -/
abbrev Path := List (Expr × Bool)

namespace Branch

def placeholder : Branch := .node none false .null .null

def isNull : Branch → Bool
  | .null => true
  | .node .. => false

/-- A path to a node of which one side was not attempted yet; the node is marked. -/
def getRandomPath : Branch → RandSource → Option Path × Branch × RandSource
  | .null, rand => (none, .null, rand)
  | .node none n t f, rand => (none, .node none n t f, rand)
  | .node (some bv) n t f, rand =>
    if !n && (t.isNull || f.isNull) then
      (some [(bv, !t.isNull)], .node (some bv) true t f, rand)
    else if rand 0 % 2 = 0 then
      match t.getRandomPath rand.tail with
      | (some path, t', rand') => (some ((bv, true) :: path), .node (some bv) n t' f, rand')
      | (none, t', rand') =>
        match f.getRandomPath rand' with
        | (some path, f', rand'') => (some ((bv, false) :: path), .node (some bv) n t' f', rand'')
        | (none, f', rand'') => (none, .node (some bv) n t' f', rand'')
    else
      match f.getRandomPath rand.tail with
      | (some path, f', rand') => (some ((bv, false) :: path), .node (some bv) n t f', rand')
      | (none, f', rand') =>
        match t.getRandomPath rand' with
        | (some path, t', rand'') => (some ((bv, true) :: path), .node (some bv) n t' f', rand'')
        | (none, t', rand'') => (none, .node (some bv) n t' f', rand'')

/-- Applies `g` to the branch that is reached from `b` by the given sides. -/
def modifyAt (g : Branch → Branch) : List Bool → Branch → Branch
  | [], b => g b
  | _ :: _, .null => .null
  | true :: sides, .node bv n t f => .node bv n (modifyAt g sides t) f
  | false :: sides, .node bv n t f => .node bv n t (modifyAt g sides f)

/-- The effect of `Trace::add` on the current branch: a placeholder receives the condition, and the
side that is taken exists afterwards. -/
def addHere (condition : Bool) (bv : Expr) : Branch → Branch
  | .null => .null
  | .node bv' n t f =>
    if condition then
      .node (some (bv'.getD bv)) n (if t.isNull then placeholder else t) f
    else
      .node (some (bv'.getD bv)) n t (if f.isNull then placeholder else f)

/-- The number of nodes that can still be picked. -/
def openNodes : Branch → Nat
  | .null => 0
  | .node none _ _ _ => 0
  | .node (some _) n t f => (if n then 0 else 1) + t.openNodes + f.openNodes

/-- A node is picked and marked, independently of the order of the search. -/
inductive Picked : Branch → Path → Branch → Prop
  | here {bv : Expr} {t f : Branch} : t = .null ∨ f = .null →
      Picked (.node (some bv) false t f) [(bv, !t.isNull)] (.node (some bv) true t f)
  | left {bv : Expr} {n : Bool} {t t' f : Branch} {path : Path} : Picked t path t' →
      Picked (.node (some bv) n t f) ((bv, true) :: path) (.node (some bv) n t' f)
  | right {bv : Expr} {n : Bool} {t f f' : Branch} {path : Path} : Picked f path f' →
      Picked (.node (some bv) n t f) ((bv, false) :: path) (.node (some bv) n t f')

/-- No node is left to pick. -/
def Exhausted : Branch → Prop
  | .null => True
  | .node none _ _ _ => True
  | .node (some _) n t f =>
    (n = true ∨ (t ≠ .null ∧ f ≠ .null)) ∧ t.Exhausted ∧ f.Exhausted

theorem isNull_iff {b : Branch} : b.isNull = true ↔ b = .null := by
  cases b <;> simp [isNull]

theorem getRandomPath_cases (b : Branch) (rand : RandSource) :
    (∃ path b' rand', b.getRandomPath rand = (some path, b', rand') ∧ Picked b path b') ∨
    (∃ rand', b.getRandomPath rand = (none, b, rand') ∧ b.Exhausted) := by
  induction b generalizing rand with
  | null => exact .inr ⟨rand, rfl, trivial⟩
  | node bv n t f iht ihf =>
    cases bv with
    | none => exact .inr ⟨rand, rfl, trivial⟩
    | some bv =>
      rw [getRandomPath]
      split_ifs with hopen heven
      · obtain ⟨hn, hnull⟩ : n = false ∧ (t = .null ∨ f = .null) := by
          simpa [isNull_iff] using hopen
        subst hn
        exact .inl ⟨_, _, _, rfl, .here hnull⟩
      all_goals
        have hmarked : n = true ∨ (t ≠ .null ∧ f ≠ .null) := by
          cases n with
          | true => exact .inl rfl
          | false => exact .inr (by simpa [isNull_iff] using hopen)
      · rcases iht rand.tail with ⟨path, t', rand', ht, hpicked⟩ | ⟨rand', ht, htex⟩
        · rw [ht]
          exact .inl ⟨_, _, _, rfl, .left hpicked⟩
        · rw [ht]
          rcases ihf rand' with ⟨path, f', rand'', hf, hpicked⟩ | ⟨rand'', hf, hfex⟩
          · simp only [hf]
            exact .inl ⟨_, _, _, rfl, .right hpicked⟩
          · simp only [hf]
            exact .inr ⟨_, rfl, hmarked, htex, hfex⟩
      · rcases ihf rand.tail with ⟨path, f', rand', hf, hpicked⟩ | ⟨rand', hf, hfex⟩
        · rw [hf]
          exact .inl ⟨_, _, _, rfl, .right hpicked⟩
        · rw [hf]
          rcases iht rand' with ⟨path, t', rand'', ht, hpicked⟩ | ⟨rand'', ht, htex⟩
          · simp only [ht]
            exact .inl ⟨_, _, _, rfl, .left hpicked⟩
          · simp only [ht]
            exact .inr ⟨_, rfl, hmarked, htex, hfex⟩

theorem Picked.openNodes_lt {b b' : Branch} {path : Path} (h : Picked b path b') :
    b'.openNodes < b.openNodes := by
  induction h with
  | here hnull => simp [openNodes]
  | left hpicked ih =>
    simp only [openNodes]
    omega
  | right hpicked ih =>
    simp only [openNodes]
    omega

theorem Picked.ne_nil {b b' : Branch} {path : Path} (h : Picked b path b') : path ≠ [] := by
  cases h <;> exact List.cons_ne_nil _ _

theorem openNodes_lt_of_getRandomPath {b b' : Branch} {path : Path} {rand rand' : RandSource}
    (h : b.getRandomPath rand = (some path, b', rand')) : b'.openNodes < b.openNodes := by
  rcases getRandomPath_cases b rand with ⟨path', b'', rand'', hsome, hpicked⟩ | ⟨rand'', hnone, -⟩
  · rw [hsome] at h
    obtain ⟨-, h⟩ := Prod.mk.inj h
    obtain ⟨rfl, -⟩ := Prod.mk.inj h
    exact hpicked.openNodes_lt
  · rw [hnone] at h
    cases (Prod.mk.inj h).1

end Branch

/-! ## The tracer -/

structure Trace where
  cs : List Expr
  pathCondsRoot : Branch
  /-- The sides from the root to the current branch; the root itself after a reset. -/
  pathCondsCurrent : List Bool

namespace Trace

def init : Trace := ⟨[], .placeholder, []⟩

def reset (trace : Trace) : Trace := { trace with cs := [], pathCondsCurrent := [] }

def branchCondition (bv : Expr) (condition : Bool) : Expr :=
  if condition then bv.eqTrue else bv.eqFalse

def add (klee : Klee) (trace : Trace) (condition : Bool) (bv : Expr) : Trace where
  cs := klee.addConstraint trace.cs (branchCondition bv condition)
  pathCondsRoot :=
    trace.pathCondsRoot.modifyAt (Branch.addHere condition bv) trace.pathCondsCurrent
  pathCondsCurrent := trace.pathCondsCurrent ++ [condition]

def getQuery (klee : Klee) (trace : Trace) (bv : Expr) : Query :=
  ⟨trace.cs, klee.simplifyExpr trace.cs bv⟩

/-- The query for the unexplored side of the last node of a path. There is none for the empty path,
for which the source throws. -/
def newQuery (klee : Klee) (cs : List Expr) : Path → Option Query
  | [] => none
  | [(bv, cond)] =>
    some (Query.negateExpr klee ⟨cs, klee.simplifyExpr cs (branchCondition bv cond)⟩)
  | (bv, cond) :: rest => newQuery klee (klee.addConstraint cs (branchCondition bv cond)) rest

/-- Picks nodes until one has a satisfiable unexplored side; `some (none, _, _)` if there is none
left. -/
def findNewPath (klee : Klee) (trace : Trace) (rand : RandSource) :
    Option (Option Bindings × Trace × RandSource) :=
  match _h : trace.pathCondsRoot.getRandomPath rand with
  | (none, root, rand') => some (none, { trace with pathCondsRoot := root }, rand')
  | (some path, root, rand') =>
    match newQuery klee [] path with
    | none => none
    | some query =>
      match Solver.getAssignment klee query with
      | some assign => some (some assign, { trace with pathCondsRoot := root }, rand')
      | none => findNewPath klee { trace with pathCondsRoot := root } rand'
  termination_by trace.pathCondsRoot.openNodes
  decreasing_by exact Branch.openNodes_lt_of_getRandomPath _h

/-- The store of an assignment; `none` if an array has a size that is not that of an integer. -/
def getStore (assign : Bindings) : Option ConcreteStore :=
  assign.foldlM
    (fun store binding ↦ do
      let value ← IntValue.intFromVector binding.2
      return store.insert binding.1.name value)
    ∅

end Trace

end CoverageVP.Clover
