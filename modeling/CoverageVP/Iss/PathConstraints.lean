import CoverageVP.Iss.PathCoupling
import CoverageVP.Iss.Reachable

/-!
# Path constraints determine the path

Two runs of one program from inputs that satisfy the same recorded branch conditions. What is
recorded stays recorded, so the inputs satisfy the condition of every branch when it is executed,
and the runs stay coupled.
-/

namespace CoverageVP.Iss

open Lib Clover Instr

/-! ## Recorded conditions -/

section Records

variable {c : Bool × Expr} {s : State}

/-- The condition has been recorded. -/
def Recorded (c : Bool × Expr) (s : State) : Prop := c ∈ s.tracer

theorem Recorded.of_data (s s' : State) (hdata : s'.data = s.data) (h : Recorded c s) :
    Recorded c s' := by
  have htracer : s'.tracer = s.tracer := congrArg (·.log.tracer) hdata
  rw [Recorded, htracer]
  exact h

theorem recorded_of_blind {α : Type} {m : IssM α} (hm : Blind m) : Keeps (Recorded c) m :=
  hm.keeps Recorded.of_data

theorem recorded_ignoresMemory : IgnoresMemory (Recorded c) := ⟨fun _ _ h ↦ h, fun _ _ h ↦ h⟩

theorem recorded_writeReg (index : BitVec 5) (value : ConcolicValue) :
    Keeps (Recorded c) (modify (·.writeReg index value) : IssM Unit) :=
  Keeps.update fun _ h ↦ h

theorem recorded_keptByCalls (env : Env) : KeptByCalls env (Recorded c) where
  sys := fun _ _ h ↦ h
  hostCalls := fun _ _ h ↦ h
  shallExit := fun _ _ h ↦ h
  result := fun _ _ h ↦ h
  register := fun _ ↦ recorded_writeReg _ _
  memory := fun _ _ ↦ keeps_symbolicStoreData recorded_ignoresMemory _ _ _

theorem recorded_fetch : Keeps (Recorded c) fetch := by
  refine Keeps.read_bind fun s _ ↦ Keeps.bind keeps_ensure fun _ ↦ Keeps.bind
    (Keeps.handle (keeps_loadInstr recorded_ignoresMemory.keptByMarks _) fun e ↦ ?_) fun _ ↦
    Keeps.update fun _ h ↦ h
  cases e with
  | trap reason mtval => exact Keeps.bind (Keeps.update fun _ h ↦ h) fun _ ↦ Keeps.raise _
  | host error => exact Keeps.raise _

theorem recorded_execBranch (res : ConcolicValue) : Keeps (Recorded c) (execBranch res) := by
  refine Keeps.read_bind fun s _ ↦ Keeps.bind (Keeps.ite (recorded_of_blind (blind_jump _))
    (Keeps.ret _)) fun _ ↦ ?_
  unfold trackAndTraceBranch
  split
  · exact Keeps.update fun s h ↦ List.mem_append_left _ h
  · exact Keeps.ret _

theorem recorded_execLoad (alignment : Nat) {load : ConcolicValue → IssM ConcolicValue}
    (hload : ∀ addr, Keeps (Recorded c) (load addr)) :
    Keeps (Recorded c) (execLoad alignment load) := by
  refine Keeps.read_bind fun s _ ↦ Keeps.bind (keeps_raiseTrapIf _ _) fun _ ↦
    Keeps.bind (hload _) fun _ ↦ Keeps.bind (recorded_writeReg _ _) fun _ ↦ ?_
  exact Keeps.ite (Keeps.bind (Keeps.update fun _ h ↦ h) fun _ ↦ Keeps.ret _) (Keeps.ret _)

theorem recorded_executeOther (env : Env) (op : Opcode) :
    Keeps (Recorded c) (executeOther env op) := by
  have hmarks : KeptByMarks (Recorded c) := recorded_ignoresMemory.keptByMarks
  have hblind : ∀ {m : IssM Unit}, Blind m → Keeps (Recorded c) (do m; return false) :=
    fun hm ↦ Keeps.bind (recorded_of_blind hm) fun _ ↦ Keeps.ret _
  have hjump : ∀ target, Keeps (Recorded c) (jumpAndLink target) := fun target ↦
    Keeps.read_bind fun _ _ ↦ Keeps.bind (recorded_of_blind (blind_jump target)) fun _ ↦
      recorded_writeReg _ _
  unfold executeOther
  split
  case h_1 => exact keeps_raiseIllegalInstruction
  case h_2 | h_3 => exact Keeps.read_bind fun _ _ ↦ Keeps.bind (hjump _) fun _ ↦ Keeps.ret _
  case h_4 | h_5 | h_6 =>
    refine Keeps.bind (Keeps.read_bind fun _ _ ↦ ?_) fun _ ↦ Keeps.ret _
    exact Keeps.bind (keeps_raiseTrapIf _ _) fun _ ↦
      keeps_symbolicStoreData recorded_ignoresMemory _ _ _
  case h_7 | h_8 | h_9 => exact recorded_execLoad _ fun _ ↦ keeps_loadSigned hmarks _ _
  case h_10 | h_11 => exact recorded_execLoad _ fun _ ↦ keeps_loadUnsigned hmarks _ _
  case h_12 | h_13 => exact Keeps.ret _
  case h_14 => exact Keeps.bind (recorded_keptByCalls env).execEcall fun _ ↦ Keeps.ret _
  case h_15 => exact hblind blind_execEbreak
  case h_16 | h_17 | h_18 | h_19 | h_20 | h_21 =>
    refine Keeps.bind (keeps_execCsr (fun addr ↦ recorded_of_blind (blind_getCsrValue env addr))
      (fun addr value ↦ recorded_of_blind (blind_setCsrValue addr value)) ?_ _) fun _ ↦ Keeps.ret _
    exact fun _ _ _ h ↦ h
  case h_22 => exact hblind blind_execWfi
  case h_23 => exact hblind (blind_returnFromTrapHandler _)
  case h_24 => exact Keeps.raise _

theorem recorded_execute (env : Env) : Keeps (Recorded c) (execute env) := by
  refine Keeps.read_bind fun s _ ↦ ?_
  split
  · exact Keeps.bind (recorded_writeReg _ _) fun _ ↦ Keeps.ret _
  split
  · exact Keeps.bind (recorded_execBranch _) fun _ ↦ Keeps.ret _
  · exact recorded_executeOther env _

theorem recorded_cover (env : Env) (flags : OperandFlags) :
    Keeps (Recorded c) (cover env flags) :=
  keeps_cover (fun _ _ h ↦ h) env flags

/-- What is recorded stays recorded. -/
theorem recorded_runStep (env : Env) : Keeps (Recorded c) (runStep env) := by
  refine Keeps.read_bind fun s _ ↦ Keeps.bind keeps_ensure fun _ ↦ Keeps.ite
    (Keeps.update fun _ h ↦ h) (Keeps.bind (Keeps.update fun _ h ↦ h) fun _ ↦ Keeps.bind
      (Keeps.handle ?_ fun e ↦ recorded_of_blind (blind_takeTrap e)) fun _ ↦
      Keeps.update fun _ h ↦ h)
  refine Keeps.bind ?_ fun _ ↦ recorded_of_blind blind_takePendingInterrupt
  exact Keeps.bind recorded_fetch fun _ ↦ Keeps.bind (recorded_of_blind blind_decode) fun _ ↦
    Keeps.bind keeps_classifyOperands fun _ ↦ Keeps.bind (recorded_execute env) fun _ ↦
      recorded_cover env _

theorem recorded_runSteps (env : Env) (n : Nat) : Keeps (Recorded c) (runSteps env n) := by
  induction n with
  | zero => exact Keeps.ret _
  | succ n ih => exact Keeps.bind (recorded_runStep env) fun _ ↦ ih

/-- A branch on a condition with a symbolic part records it. -/
theorem triple_execBranch_records {res : ConcolicValue} {e : Expr} (hres : res.symbolic = some e)
    (hC : s.csrs.hasCExtension = true) (heven : s.lastPc &&& 1#32 = 0#32) :
    Triple (· = s) (execBranch res) (fun _ ↦ Recorded (evalCondition res, e)) fun _ _ ↦ False := by
  refine Triple.read_bind fun s' h ↦ ?_
  rw [h]
  have htarget : (s.lastPc + s.instr.bImm) &&& 1#32 = 0#32 := even_add heven (even_bImm _)
  refine Triple.bind (Q := fun _ _ ↦ True) (Triple.ite (fun _ ↦ ?_) fun _ ↦
    Triple.ret fun _ _ ↦ trivial) fun _ ↦ ?_
  · refine Triple.bind (Q := fun _ s' ↦ s' = { s with pc := s.lastPc + s.instr.bImm })
      (Triple.update fun s' h ↦ by rw [h]) fun _ ↦ Triple.read_bind fun s' h ↦ ?_
    rw [h]
    refine Triple.bind (Q := fun _ _ ↦ True) (triple_ensure (fun _ _ _ ↦ trivial)
      fun _ _ hodd ↦ hodd htarget) fun _ ↦ triple_raiseTrapIf (fun _ _ _ ↦ trivial) ?_
    rintro _ - ⟨-, hno⟩
    exact absurd (hC.symm.trans hno) (by decide)
  · unfold trackAndTraceBranch
    rw [hres]
    exact Triple.update fun _ _ ↦ List.mem_append_right _ (List.mem_singleton_self _)

theorem branchResult_eq_some {res : ConcolicValue} (h : s.branchResult s.op = some res) :
    s.registerResult s.op = none ∧ getType s.op = .B := by
  unfold State.branchResult at h
  split at h
  case h_7 => cases h
  all_goals
    rename_i hop
    rw [hop]
    exact ⟨rfl, rfl⟩

theorem triple_execute_records {res : ConcolicValue} {e : Expr} (env : Env)
    (hbranch : s.branchResult s.op = some res) (hres : res.symbolic = some e)
    (hC : s.csrs.hasCExtension = true) (heven : s.lastPc &&& 1#32 = 0#32) :
    Triple (· = s) (execute env) (fun _ ↦ Recorded (evalCondition res, e)) fun _ _ ↦ False := by
  refine Triple.read_bind fun s' h ↦ ?_
  rw [h, (branchResult_eq_some hbranch).1]
  dsimp only
  rw [hbranch]
  exact Triple.bind (triple_execBranch_records hres hC heven) fun _ ↦ Triple.ret fun _ h ↦ h

/-- The condition of the branch that a step executes is recorded. -/
theorem triple_runStep_records (env : Env) (hinv : StepInvariant MachineInvariant 1#32 s)
    (hzero : getValue (s.regs RegFile.zero) = 0#32)
    (hrun : ¬ (s.debugMode = true ∧ s.breakpoints s.pc = true)) {d : State}
    (hd : s.frontEnd = some d) (hc : d.recordedCondition = some c) :
    Triple (· = s) (runStep env) (fun _ ↦ Recorded c) fun _ ↦ Recorded c := by
  obtain ⟨res, hbranch, hmap⟩ := Option.bind_eq_some_iff.mp hc
  obtain ⟨e, hres, rfl⟩ := Option.map_eq_some_iff.mp hmap
  obtain ⟨word, hdecoded⟩ := State.decoded_of_frontEnd hd
  have hC : d.csrs.hasCExtension = true := by
    rw [hdecoded.csrs]
    exact hinv.csrs.compressed
  have heven : d.lastPc &&& 1#32 = 0#32 := by
    rw [hdecoded.lastPc]
    exact hinv.pc
  have hfront : Triple (· = s.started) (do fetch; decode : IssM Unit) (fun _ s' ↦ s' = d)
      fun _ _ ↦ False := by
    rintro _ rfl
    unfold State.frontEnd at hd
    cases hrun : (do fetch; decode : IssM Unit) s.started with
    | ok _ d' =>
      rw [hrun] at hd
      exact Option.some.inj hd
    | error _ _ =>
      rw [hrun] at hd
      cases hd
  have hclassify : Triple (· = d) classifyOperands (fun _ s' ↦ s' = d) fun _ _ ↦ False := by
    refine Triple.read_bind fun s' h ↦ ?_
    rw [h, (branchResult_eq_some hbranch).2]
    split
    · exact Triple.ret fun _ h ↦ h
    · exact Triple.ite nofun fun _ ↦ Triple.ret fun _ h ↦ h
  have hexec : Triple (· = s.started) (execStep env) (fun _ ↦ Recorded (evalCondition res, e))
      fun _ ↦ Recorded (evalCondition res, e) := by
    rw [execStep_eq_bind]
    refine Triple.bind (hfront.conseq (fun _ h ↦ h) (fun _ _ h ↦ h) fun _ _ h ↦ h.elim) fun _ ↦ ?_
    refine Triple.bind (hclassify.conseq (fun _ h ↦ h) (fun _ _ h ↦ h) fun _ _ h ↦ h.elim)
      fun _ ↦ ?_
    exact Triple.bind ((triple_execute_records env hbranch hres hC heven).conseq (fun _ h ↦ h)
      (fun _ _ h ↦ h) fun _ _ h ↦ h.elim) fun _ ↦ recorded_cover env _
  refine Triple.read_bind fun s' h ↦ ?_
  rw [h]
  refine Triple.bind (Q := fun _ s' ↦ s' = s) (triple_ensure (fun _ h _ ↦ h)
    fun _ _ hne ↦ absurd hzero hne) fun _ ↦ Triple.ite (fun hbreak ↦ absurd hbreak hrun) fun _ ↦ ?_
  refine Triple.bind (Q := fun _ s' ↦ s' = s.started) (Triple.update fun s' h ↦ by rw [h])
    fun _ ↦ Triple.bind (Q := fun _ ↦ Recorded (evalCondition res, e)) (Triple.handle
      (Triple.bind hexec fun _ ↦ recorded_of_blind blind_takePendingInterrupt)
      fun e ↦ recorded_of_blind (blind_takeTrap e)) fun _ ↦ Triple.update fun _ h ↦ h

end Records

/-! ## Runs -/

section Runs

variable {σ₁ σ₂ : Assignment} {env : Env} {s t : State}

theorem State.Initial.coupled (h : s.Initial) (σ₁ σ₂ : Assignment) :
    (pathCoupling σ₁ σ₂).Coupled s s := by
  have h₁ := h.consistent σ₁
  have h₂ := h.consistent σ₂
  exact ⟨s.data, rfl, fun i ↦ ⟨rfl, rfl, rfl, fun _ ↦ rfl, h₁.regs i, h₂.regs i⟩,
    fun a ↦ ⟨rfl, rfl, rfl, fun _ ↦ rfl, h₁.mem.byteAt a, h₂.mem.byteAt a⟩, rfl⟩

theorem same_execStep (h : (pathCoupling σ₁ σ₂).Coupled s t)
    (hC : s.csrs.hasCExtension = true)
    (hclean : ∀ v ∈ s.concretised ++ s.walked, v.symbolic = none)
    (hsat : ∀ d c, s.frontEnd = some d → d.recordedCondition = some c →
      (Trace.branchCondition c.2 c.1).Holds σ₂) (stop : Thrown → Prop) :
    Lockstep stop (fun s' t' ↦ s' = s.started ∧ t' = t.started) (execStep (env.withInputs σ₁))
      (execStep (env.withInputs σ₂)) (pathCoupling σ₁ σ₂).Same (pathCoupling σ₁ σ₂).Same := by
  have hstarted : (pathCoupling σ₁ σ₂).Coupled s.started t.started := by
    obtain ⟨d, rfl, hd⟩ := h
    exact ⟨d, rfl, hd⟩
  have hconcretised : ∀ v ∈ s.concretised, v.symbolic = none :=
    fun v hv ↦ hclean v (List.mem_append_left _ hv)
  have hwalked : ∀ v ∈ s.walked, v.symbolic = none :=
    fun v hv ↦ hclean v (List.mem_append_right _ hv)
  have hfetch : (pathCoupling σ₁ σ₂).CleanWalks s.started t.started (s.pc.setWidth 64) .FETCH :=
    ⟨fun a ha ↦ hwalked _ (List.mem_append_left _ (List.mem_map_of_mem ha)), fun _ _ ↦ trivial⟩
  rw [execStep_eq_bind, execStep_eq_bind]
  refine Lockstep.bind (Lockstep.remember (Coupling.coupled_fetch_decode stop hstarted hC hfetch
    fun word word' hword hword' ↦ ?_)) fun _ _ ↦ Lockstep.of_start fun d d' hrun ↦ ?_
  · rw [fetchedWord_eq hstarted hfetch (fun v hv ↦ hconcretised v (List.mem_append_left _ hv))
      hword hword']
    exact ⟨rfl, rfl⟩
  obtain ⟨⟨-, hd⟩, hs, -⟩ := hrun
  have hfront : s.frontEnd = some d := by rw [State.frontEnd, hs]
  have hoperands : d.OperandsConcrete := by
    constructor
    · intro v hv
      refine hconcretised v (List.mem_append_right _ ?_)
      rw [hfront]
      exact hv
    · intro addr haddr a ha
      refine hwalked _ (List.mem_append_right _ ?_)
      rw [hfront, Option.elim_some, haddr]
      exact List.mem_map_of_mem ha
  refine Lockstep.bind (same_classifyOperands stop hd) fun flags flags' ↦
    Lockstep.of_start fun d₁ d₂ hflags ↦ ?_
  obtain ⟨rfl, rfl, rfl⟩ := hflags
  refine Lockstep.bind (same_execute stop hd env hoperands fun c hc ↦ hsat d₁ c hfront hc)
    fun init init' ↦ Lockstep.of_start fun s₁ t₁ hst ↦ ?_
  obtain ⟨rfl, hst⟩ := hst
  exact (same_cover stop env _).at_start hst

/-- Steps that make nothing symbolic concrete lead to coupled states, if the inputs of the second
run satisfy what the first one records. -/
theorem same_runStep (h : (pathCoupling σ₁ σ₂).Coupled s t)
    (hinv : StepInvariant MachineInvariant 1#32 s) (hzero : s.regs RegFile.zero = constant 0#32)
    (hclean : ∀ v ∈ s.concretised ++ s.walked, v.symbolic = none)
    (hsat : ∀ c ∈ (stateAfter (runStep (env.withInputs σ₁)) s).tracer,
      (Trace.branchCondition c.2 c.1).Holds σ₂) :
    Lockstep (fun _ ↦ False) (fun s' t' ↦ s' = s ∧ t' = t) (runStep (env.withInputs σ₁))
      (runStep (env.withInputs σ₂)) (pathCoupling σ₁ σ₂).Same (pathCoupling σ₁ σ₂).Same := by
  have hvalue : getValue (s.regs RegFile.zero) = 0#32 := by
    rw [hzero]
    rfl
  have hright : getValue (t.regs RegFile.zero) = getValue (s.regs RegFile.zero) :=
    (h.regs RegFile.zero).getValue_eq (by rw [hzero]; rfl)
  refine (Coupling.coupled_stepWith h hright (fun _ _ hfalse ↦ hfalse.elim) (fun _ _ h ↦ h)
    (fun _ _ h ↦ h.finishStep) fun hrun ↦ ?_).post fun _ _ _ _ h ↦ ⟨rfl, h⟩
  refine Lockstep.bind (same_execStep h hinv.csrs.compressed hclean (fun d c hd hc ↦ hsat c ?_) _)
    fun _ _ ↦ ?_
  · have hrecords := triple_runStep_records (env.withInputs σ₁) hinv hvalue hrun hd hc s rfl
    unfold stateAfter
    cases hstep : runStep (env.withInputs σ₁) s with
    | ok _ s' =>
      rw [hstep] at hrecords
      exact hrecords
    | error _ s' =>
      rw [hstep] at hrecords
      exact hrecords
  · exact (blind_takePendingInterrupt.coupled _ _).conseq (fun _ _ h ↦ h.2)
      (fun _ _ _ _ h ↦ h.2) fun _ _ _ _ h ↦ h

/-- The addresses that the first steps of a run start at. -/
def pcsOf (env : Env) : Nat → State → List (BitVec 32)
  | 0, _ => []
  | n + 1, s => s.pc :: match runStep env s with
    | .ok _ s' => pcsOf env n s'
    | .error _ _ => []

/-- The conditions that a run has recorded after a number of steps, or when it ends earlier. -/
def constraintsOf (env : Env) (n : Nat) (s : State) : List (Bool × Expr) :=
  (stateAfter (runSteps env n) s).tracer

theorem constraintsOf_succ (env : Env) (n : Nat) (s : State) :
    constraintsOf env (n + 1) s = match runStep env s with
      | .ok _ s' => constraintsOf env n s'
      | .error _ s' => s'.tracer := by
  have hbind : runSteps env (n + 1) s = EStateM.bind (runStep env) (fun _ ↦ runSteps env n) s := rfl
  unfold constraintsOf stateAfter
  rw [hbind, EStateM.bind]
  cases runStep env s with
  | ok _ s' => rfl
  | error _ s' => rfl

theorem constraintsOf_step_subset (env : Env) (n : Nat) (s : State) :
    (stateAfter (runStep env) s).tracer ⊆ constraintsOf env (n + 1) s := by
  intro c hc
  rw [constraintsOf_succ]
  unfold stateAfter at hc
  cases hstep : runStep env s with
  | error _ s' =>
    rw [hstep] at hc
    exact hc
  | ok _ s' =>
    rw [hstep] at hc
    have hkept := recorded_runSteps env n s' hc
    dsimp only
    unfold constraintsOf stateAfter
    cases hrun : runSteps env n s' with
    | ok _ s'' =>
      rw [hrun] at hkept
      exact hkept
    | error _ s'' =>
      rw [hrun] at hkept
      exact hkept

theorem runSteps_succ_of_ok {n : Nat} {s' : State} (h : runStep env s = .ok () s') :
    runSteps env (n + 1) s = runSteps env n s' := by
  change EStateM.bind (runStep env) (fun _ ↦ runSteps env n) s = _
  rw [EStateM.bind, h]

/-- Coupled states take the same path. -/
theorem path_eq_of_coupled (h : (pathCoupling σ₁ σ₂).Coupled s t)
    (hinv : StepInvariant MachineInvariant 1#32 s) (hzero : s.regs RegFile.zero = constant 0#32)
    (n : Nat)
    (hclean : ∀ k < n, ∀ s', runSteps (env.withInputs σ₁) k s = .ok () s' →
      ∀ v ∈ s'.concretised ++ s'.walked, v.symbolic = none)
    (hsat : ∀ c ∈ constraintsOf (env.withInputs σ₁) n s,
      (Trace.branchCondition c.2 c.1).Holds σ₂) :
    pcsOf (env.withInputs σ₂) n t = pcsOf (env.withInputs σ₁) n s ∧
      constraintsOf (env.withInputs σ₂) n t = constraintsOf (env.withInputs σ₁) n s := by
  induction n generalizing s t with
  | zero => exact ⟨rfl, tracer_eq h⟩
  | succ n ih =>
    have hstep := same_runStep h hinv hzero (hclean 0 (Nat.succ_pos n) s rfl)
      (fun c hc ↦ hsat c (constraintsOf_step_subset _ n s hc)) s t ⟨rfl, rfl⟩
    rw [constraintsOf_succ, constraintsOf_succ, pcsOf, pcsOf, h.same State.pc fun _ _ ↦ rfl]
    rw [constraintsOf_succ] at hsat
    cases hs : runStep (env.withInputs σ₁) s with
    | ok _ s' =>
      rw [hs] at hstep hsat
      cases ht : runStep (env.withInputs σ₂) t with
      | error _ t' =>
        rw [ht] at hstep
        exact hstep.elim
      | ok _ t' =>
        rw [ht] at hstep
        have hclosed : RunClosed (fun _ ↦ True) MachineInvariant 1#32 := MachineInvariant.runClosed
        obtain ⟨hpcs, hconds⟩ := ih hstep.2
          ((hclosed.runStep _).of_ok ⟨hinv, fun _ _ _ ↦ trivial⟩ hs)
          ((zero_runStep _).of_ok hzero hs)
          (fun k hk s'' hrun ↦ hclean (k + 1) (Nat.succ_lt_succ hk) s''
            ((runSteps_succ_of_ok hs).trans hrun)) hsat
        exact ⟨congrArg _ hpcs, hconds⟩
    | error e s' =>
      rw [hs] at hstep
      cases ht : runStep (env.withInputs σ₂) t with
      | ok _ t' =>
        rw [ht] at hstep
        exact hstep.elim
      | error e' t' =>
        rw [ht] at hstep
        obtain hfalse | hfalse | ⟨-, hst⟩ := hstep
        · exact hfalse.elim
        · exact hfalse.elim
        · exact ⟨rfl, tracer_eq hst⟩

/-- Take a run in which nothing that is fetched, used as an address, as the base of a jump, as the
source of a CSR instruction or as an operand of a system call, and nothing that a page walk reads,
has a symbolic part. From inputs that satisfy the recorded conditions, the program executes the same
addresses and records the same conditions. -/
theorem path_eq_of_constraints {env : Env} {σ₁ σ₂ : Assignment} {s : State} (h : s.Initial) (n : Nat)
    (hclean : ∀ k < n, ∀ s', runSteps (env.withInputs σ₁) k s = .ok () s' →
      ∀ v ∈ s'.concretised ++ s'.walked, v.symbolic = none)
    (hsat : ∀ c ∈ constraintsOf (env.withInputs σ₁) n s,
      (Trace.branchCondition c.2 c.1).Holds σ₂) :
    pcsOf (env.withInputs σ₂) n s = pcsOf (env.withInputs σ₁) n s ∧
      constraintsOf (env.withInputs σ₂) n s = constraintsOf (env.withInputs σ₁) n s :=
  path_eq_of_coupled (h.coupled σ₁ σ₂) h.stepInvariant h.zero n hclean hsat

end Runs

/-- The inputs that give every array the same value. -/
def inputsOf (value : Nat) : Assignment := fun _ ↦ BitVec.ofNat _ value

/-- `li a7, 95; li a0, 5; ecall; li x6, 10; bltu x5, x6, 8`: a branch on a symbolic register. -/
def branchOnSymbolic : State :=
  bootSystem (assemble [0x05f00893#32, 0x00500513#32, 0x00000073#32, 0x00a00313#32, 0x0062e463#32])

/-- What holds of the states after the first steps holds of the states that the run visits. -/
theorem forall_visited {env : Env} {s : State} {n : Nat} {P : State → Prop}
    (h : ∀ k < n, P (stateAfter (runSteps env k) s)) :
    ∀ k < n, ∀ s', runSteps env k s = .ok () s' → P s' := by
  intro k hk s' hrun
  have hP := h k hk
  rw [stateAfter, hrun] at hP
  exact hP

theorem path_eq_of_constraints_branch :
    constraintsOf (bootEnv.withInputs (inputsOf 0)) 5 branchOnSymbolic ≠ [] ∧
    pcsOf (bootEnv.withInputs (inputsOf 3)) 5 branchOnSymbolic =
      pcsOf (bootEnv.withInputs (inputsOf 0)) 5 branchOnSymbolic ∧
    constraintsOf (bootEnv.withInputs (inputsOf 3)) 5 branchOnSymbolic =
      constraintsOf (bootEnv.withInputs (inputsOf 0)) 5 branchOnSymbolic :=
  ⟨by decide +kernel, path_eq_of_constraints (bootSystem_initial _) 5
    (forall_visited (by decide +kernel)) (by decide +kernel)⟩

/-- `li a7, 96; lui a0, 1; li a1, 1; ecall` make the first byte of a page table symbolic, and
`lui x29, 0x80000; addi x29, x29, 1; csrw satp, x29; lui x29, 0x21; addi x29, x29, -2048;
csrw mstatus, x29; lw x7, 0(x0)` use it. -/
def symbolicEntry : State :=
  { bootSystem (assemble [0x06000893#32, 0x00001537#32, 0x00100593#32, 0x00000073#32,
      0x80000eb7#32, 0x001e8e93#32, 0x180e9073#32, 0x00021eb7#32, 0x800e8e93#32, 0x300e9073#32,
      0x00002383#32]) with
    memSize := 8192
    mmu := some (Mmu.flush ⟨false, fun _ _ _ ↦ ⟨0#64, 0#64⟩⟩) }

theorem symbolicEntry_initial : symbolicEntry.Initial :=
  { bootSystem_initial _ with
    mmu := by
      intro mmu h
      obtain rfl := Option.some.inj h
      rfl }

/-- A page walk that reads a symbolic byte goes where the recorded conditions do not say. -/
theorem path_ne_of_symbolic_entry :
    ∃ (s : State) (σ₁ σ₂ : Assignment) (n : Nat), s.Initial ∧
      (∀ k < n, ∀ s', runSteps (bootEnv.withInputs σ₁) k s = .ok () s' →
        ∀ v ∈ s'.concretised, v.symbolic = none) ∧
      (∀ c ∈ constraintsOf (bootEnv.withInputs σ₁) n s,
        (Trace.branchCondition c.2 c.1).Holds σ₂) ∧
      pcsOf (bootEnv.withInputs σ₂) n s ≠ pcsOf (bootEnv.withInputs σ₁) n s :=
  ⟨symbolicEntry, inputsOf 0xcf, inputsOf 0, 12, symbolicEntry_initial,
    forall_visited (by decide +kernel), by decide +kernel, by decide +kernel⟩

end CoverageVP.Iss
