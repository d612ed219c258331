import CoverageVP.Klee.SolverChain
import CoverageVP.Klee.Z3Solver
import Mathlib.SetTheory.Cardinal.Order

/-!
# Sessions with the solvers

The caches of the solvers live as long as the exploration, so that an answer may come from any
earlier request. In a session the requests follow one another, and one that fails leaves the caches
as they are then. Every solver of the chain answers every request of a session correctly.
-/

namespace CoverageVP.Klee

open Clover (BV SymArray Assignment Bindings bytesOf)
open Lib (Delivers Yields Both session session_delivers SmtTerm)
open Klee.Expr

/-! ## Requests to a solver -/

inductive SolverRequest
  | truth (query : Query)
  | validity (query : Query)
  | value (query : Query)
  | initialValues (query : Query) (objects : List SymArray)

inductive SolverResponse
  | truth (isValid : Bool)
  | validity (result : Validity)
  | value (result : Expr)
  | initialValues (values : Option (List (List (BitVec 8))))

def SolverImpl.respond {S : Type} (impl : SolverImpl S) : SolverRequest → SolverM S SolverResponse
  | .truth query => return .truth (← impl.computeTruth query)
  | .validity query => return .validity (← impl.computeValidity query)
  | .value query => return .value (← impl.computeValue query)
  | .initialValues query objects =>
    return .initialValues (← impl.computeInitialValues query objects)

namespace SolverRequest

/-- Under constraints that cannot hold only counterexamples are asked for. -/
def Admissible : SolverRequest → Prop
  | truth query | validity query => query.Admissible ∧ query.Satisfiable
  | value query => query.withFalse.Admissible ∧ query.expr.IsPlain ∧ query.Satisfiable
  | initialValues query _ => query.Admissible

def IsRight : SolverRequest → SolverResponse → Prop
  | truth query, .truth isValid => isValid = true ↔ query.Valid
  | validity query, .validity result => query.HasValidity result
  | value query, .value result => query.HasValue result
  | initialValues query objects, .initialValues values => query.Solution objects values
  | _, _ => False

/-- A counterexample is asked for although something that reads nothing does not hold. -/
def IsUngrounded : SolverRequest → Prop
  | initialValues query _ => ¬ query.Grounded
  | truth _ | validity _ | value _ => False

end SolverRequest

section Solvers

variable {S : Type} {Inv : S → Prop} {Fails : Failure → Prop} {impl : SolverImpl S}

theorem SolverImpl.Correct.respond (h : impl.Correct Inv Fails) {request : SolverRequest}
    (hrequest : request.Admissible) : Yields Inv Fails (impl.respond request) request.IsRight := by
  cases request with
  | truth query =>
    exact (h.computeTruth query hrequest.1 hrequest.2).bind fun _ hresult ↦ Yields.ret hresult
  | validity query =>
    exact (h.computeValidity query hrequest.1 hrequest.2).bind fun _ hresult ↦ Yields.ret hresult
  | value query =>
    exact (h.computeValue query hrequest.1 hrequest.2.1 hrequest.2.2).bind fun _ hresult ↦
      Yields.ret hresult
  | initialValues query objects =>
    exact (h.computeInitialValues query objects hrequest).bind fun _ hresult ↦ Yields.ret hresult

/-- All responses of a session are right, or they are failures of the kind that is allowed. -/
def RightSession (Fails : Failure → Prop) : List SolverRequest →
    List (Except Failure SolverResponse) → Prop :=
  List.Forall₂ fun request response ↦ Delivers Fails response request.IsRight

theorem SolverImpl.Correct.session (h : impl.Correct Inv Fails) {s : S} (hs : Inv s)
    {requests : List SolverRequest} (hrequests : ∀ r ∈ requests, r.Admissible) :
    RightSession Fails requests (Lib.session impl.respond requests s) :=
  session_delivers (fun _ hr ↦ h.respond (hrequests _ hr)) hs

end Solvers

/-! ## Requests about a byte -/

/-- The byte exceeds a bound. -/
def above (bound : BitVec 8) : Expr :=
  comparison .Ult (constant ⟨8, bound⟩) (read ⟨"x", 1⟩ 0)

/-- Above three the byte is above two, but not always above four. -/
def byteRequests : List SolverRequest :=
  [.truth ⟨[above 3], above 2⟩, .validity ⟨[above 3], above 4⟩,
    .initialValues ⟨[above 3], above 4⟩ [⟨"x", 1⟩], .truth ⟨[above 3], above 2⟩]

theorem isPlainCondition_above (bound : BitVec 8) : (above bound).IsPlainCondition := by
  refine ⟨⟨⟨Nat.succ_pos 7, Nat.one_pos, rfl⟩, ?_, ?_, fun σ ↦ ⟨trivial, trivial⟩⟩, rfl⟩
  · simp [above, parts, addComparison]
  · simp [above, Expr.findSymbolicObjects]

theorem byteRequests_admissible : ∀ r ∈ byteRequests, r.Admissible := by
  have hadmissible (bound : BitVec 8) : (⟨[above 3], above bound⟩ : Query).Admissible :=
    ⟨fun c hc ↦ List.mem_singleton.mp hc ▸ isPlainCondition_above 3, isPlainCondition_above bound⟩
  have hsatisfiable (bound : BitVec 8) : (⟨[above 3], above bound⟩ : Query).Satisfiable :=
    ⟨fun array ↦ BitVec.allOnes _, fun c hc ↦ List.mem_singleton.mp hc ▸ rfl⟩
  simp only [byteRequests, List.forall_mem_cons]
  exact ⟨⟨hadmissible 2, hsatisfiable 2⟩, ⟨hadmissible 4, hsatisfiable 4⟩, hadmissible 4,
    ⟨hadmissible 2, hsatisfiable 2⟩, fun _ h ↦ absurd h List.not_mem_nil⟩

/-- The square of the byte is two. -/
def square : Expr :=
  comparison .Eq (constant ⟨8, 2⟩) (arithmetic .Mul (read ⟨"x", 1⟩ 0) (read ⟨"x", 1⟩ 0))

/-- No byte has such a square. -/
def squareRequests : List SolverRequest :=
  [.truth ⟨[], comparison .Eq (constant (.ofBool false)) square⟩,
    .initialValues ⟨[], comparison .Eq (constant (.ofBool false)) square⟩ [⟨"x", 1⟩]]

theorem isPlainCondition_square : square.IsPlainCondition := by
  refine ⟨⟨by decide, by decide, ?_, fun σ ↦ ⟨trivial, trivial, trivial, trivial⟩⟩, rfl⟩
  simp [square, Expr.findSymbolicObjects]

theorem squareRequests_admissible : ∀ r ∈ squareRequests, r.Admissible := by
  have hadmissible : Query.Admissible ⟨[], comparison .Eq (constant (.ofBool false)) square⟩ := by
    refine ⟨nofun, ⟨by decide, by decide, ?_, fun σ ↦ ⟨trivial, ?_⟩⟩, rfl⟩
    · exact isPlainCondition_square.1.sizes
    · exact isPlainCondition_square.1.shiftsFit σ
  simp only [squareRequests, List.forall_mem_cons]
  exact ⟨⟨hadmissible, fun array ↦ 0, nofun⟩, hadmissible, fun _ h ↦ absurd h List.not_mem_nil⟩

/-! ## The layers -/

section Layers

variable {S : Type} {Inv : S → Prop} {Fails : Failure → Prop} {primary : IncompleteSolver}
  {solver : SolverImpl S} {s : S} {requests : List SolverRequest}

/-- Some order of the expressions. -/
noncomputable local instance exprOrder : LinearOrder Expr := IsWellOrder.linearOrder WellOrderingRel

/-- Some order of the arrays. -/
noncomputable local instance symArrayOrder : LinearOrder SymArray :=
  IsWellOrder.linearOrder WellOrderingRel

/-- The cache of counterexamples, which starts empty, never gives a wrong answer, although it
answers from the results for other queries. -/
theorem cexCachingSolver_session [LinearOrder Expr] {options : CexCacheOptions}
    (hsolver : solver.Correct Inv Fails) (hfails : options.experimental = true → Fails .failed)
    (hs : Inv s) (hrequests : ∀ r ∈ requests, r.Admissible) :
    RightSession Fails requests
      (session (CexCachingSolver options solver).respond requests (s, ⟨.empty, []⟩)) :=
  (CexCachingSolver.correct hsolver hfails).session ⟨hs, CexCachingSolver.cexSound_empty⟩ hrequests

theorem cexCachingSolver_session_byte : RightSession (Z3Solver.Fails .deciding) byteRequests
    (session (CexCachingSolver ⟨false, false, false, fun _ _ ↦ false⟩
      (Z3Solver .deciding)).respond byteRequests ((), ⟨.empty, []⟩)) :=
  cexCachingSolver_session (Z3Solver.correct SolverCheck.deciding_sound) nofun trivial
    byteRequests_admissible

/-- The required constraints decide a query, and the solutions of the independent sets make up one
of the whole query. Only a counterexample can fail in addition, and only if something that reads
nothing does not hold. -/
theorem independentSolver_session [LinearOrder SymArray] (hsolver : solver.Correct Inv Fails)
    (hs : Inv s) (hrequests : ∀ r ∈ requests, r.Admissible) :
    List.Forall₂ (fun request response ↦ Delivers
      (fun e ↦ Fails e ∨ e = .stopped .assertion ∧ request.IsUngrounded) response request.IsRight)
      requests (session (IndependentSolver solver).respond requests s) := by
  refine session_delivers (I := Inv) (fun request hrequest ↦ ?_) hs
  replace hrequest := hrequests request hrequest
  cases request with
  | truth query =>
    refine ((IndependentSolver.computeTruth_yields hsolver hrequest.1 hrequest.2).conseq
      (fun _ h ↦ h) fun _ ↦ .inl).bind fun _ h ↦ Yields.ret h
  | validity query =>
    refine ((IndependentSolver.computeValidity_yields hsolver hrequest.1 hrequest.2).conseq
      (fun _ h ↦ h) fun _ ↦ .inl).bind fun _ h ↦ Yields.ret h
  | value query =>
    refine ((IndependentSolver.computeValue_yields hsolver hrequest.1 hrequest.2.1
      hrequest.2.2).conseq (fun _ h ↦ h) fun _ ↦ .inl).bind fun _ h ↦ Yields.ret h
  | initialValues query objects =>
    exact (IndependentSolver.computeInitialValues_yields hsolver hrequest objects).bind
      fun _ h ↦ Yields.ret h

theorem independentSolver_session_byte :
    List.Forall₂ (fun request response ↦ Delivers
      (fun e ↦ Z3Solver.Fails .deciding e ∨ e = .stopped .assertion ∧ request.IsUngrounded) response
        request.IsRight)
      byteRequests (session (IndependentSolver (Z3Solver .deciding)).respond byteRequests ()) :=
  independentSolver_session (Z3Solver.correct SolverCheck.deciding_sound) trivial
    byteRequests_admissible

/-- An incomplete solver that gives up on every query. -/
def givingUp : IncompleteSolver where
  computeTruth _ := return .None
  computeValue _ := return none
  computeInitialValues _ _ := return none

theorem givingUp_sound : givingUp.Sound Fails where
  computeTruth _ _ _ := Delivers.ret ⟨trivial, by decide⟩
  computeValue _ _ _ _ := Delivers.ret nofun
  computeInitialValues _ _ _ := Delivers.ret nofun

section Chain

variable {options : CexCacheOptions} {check : SolverCheck S}

end Chain

end Layers

end CoverageVP.Klee
