import CoverageVP.Clover.Search
import CoverageVP.Iss.Consistency
import CoverageVP.Iss.CoupledSteps

/-!
# Instructions on the same expressions

Two runs of one program from different inputs. As long as no value with a symbolic part is made
concrete, the symbolic parts of the two runs are the same expressions, and what has no symbolic part
is the same value. An instruction then does the same in both runs, apart from a branch, whose
outcome has to satisfy the condition that the first run records.
-/

namespace CoverageVP.Iss

open Lib Clover Instr

/-! ## Values with the same symbolic part -/

/-- The values have the same symbolic part, which evaluates to their concrete parts under the inputs
of their runs; without a symbolic part they are the same. -/
structure SameExpr (σ₁ σ₂ : Assignment) (a b : ConcolicValue) : Prop where
  width : a.getWidth = b.getWidth
  symbolic : b.symbolic = a.symbolic
  tainted : b.tainted = a.tainted
  concrete : a.symbolic = none → a.concrete = b.concrete
  left : a.Consistent σ₁
  right : b.Consistent σ₂

namespace SameExpr

variable {σ₁ σ₂ : Assignment} {a b a' b' : ConcolicValue}

theorem symbolicOrConcrete (h : SameExpr σ₁ σ₂ a b) :
    b.symbolicOrConcrete = a.symbolicOrConcrete := by
  rw [ConcolicValue.symbolicOrConcrete, ConcolicValue.symbolicOrConcrete, h.symbolic]
  cases hsym : a.symbolic with
  | none => rw [h.concrete hsym]
  | some e => rfl

theorem binaryOperator (op : BinOp) (h : SameExpr σ₁ σ₂ a b) (h' : SameExpr σ₁ σ₂ a' b') :
    SameExpr σ₁ σ₂ (a.binaryOperator op a') (b.binaryOperator op b') where
  width := BinOp.width_eval_congr op h.width h'.width
  symbolic := by
    simp only [ConcolicValue.binaryOperator]
    rw [h.symbolic, h'.symbolic, h.symbolicOrConcrete, h'.symbolicOrConcrete]
  tainted := by
    simp only [ConcolicValue.binaryOperator]
    rw [h.tainted, h'.tainted]
  concrete := by
    intro hnone
    simp only [ConcolicValue.binaryOperator] at hnone ⊢
    split at hnone
    · cases hnone
    case isFalse hnot =>
      rw [Bool.or_eq_true, not_or] at hnot
      rw [h.concrete (Option.not_isSome_iff_eq_none.mp hnot.1),
        h'.concrete (Option.not_isSome_iff_eq_none.mp hnot.2)]
  left := h.left.binaryOperator op h'.left
  right := h.right.binaryOperator op h'.right

theorem unaryOperator {f : BV → BV} {g : Expr → Expr} {width : Nat}
    (hf : ∀ bv, (f bv).width = width) (hfg : ∀ σ e, (g e).eval σ = f (e.eval σ))
    (h : SameExpr σ₁ σ₂ a b) : SameExpr σ₁ σ₂ (a.unaryOperator f g) (b.unaryOperator f g) where
  width := (hf _).trans (hf _).symm
  symbolic := by
    simp only [ConcolicValue.unaryOperator]
    rw [h.symbolic]
  tainted := h.tainted
  concrete := by
    intro hnone
    exact congrArg f (h.concrete (Option.map_eq_none_iff.mp hnone))
  left := h.left.unaryOperator (hfg σ₁)
  right := h.right.unaryOperator (hfg σ₂)

end SameExpr

/-- The logs of the runs are the same. -/
def pathCoupling (σ₁ σ₂ : Assignment) : Coupling where
  value := SameExpr σ₁ σ₂
  clean₁ := fun a ↦ a.symbolic = none
  clean₂ := fun _ ↦ True
  log := fun l l' ↦ l' = l
  width := fun h ↦ h.width
  concrete := fun h hnone _ ↦ h.concrete hnone
  constant := fun _ ↦ ⟨rfl, rfl, rfl, fun _ ↦ rfl,
    ConcolicValue.consistent_of_symbolic_eq_none rfl,
    ConcolicValue.consistent_of_symbolic_eq_none rfl⟩
  binaryOperator := fun op _ _ _ _ h h' ↦ h.binaryOperator op h'
  extract := fun offset width h ↦
    h.unaryOperator (f := (·.extract offset width)) (fun _ ↦ rfl) fun _ _ ↦ rfl
  sext := fun width h ↦ h.unaryOperator (f := (·.sext width)) (fun _ ↦ rfl) fun _ _ ↦ rfl
  zext := fun width h ↦ h.unaryOperator (f := (·.zext width)) (fun _ ↦ rfl) fun _ _ ↦ rfl

/-- The same environment with other inputs. -/
def Env.withInputs (env : Env) (σ : Assignment) : Env := { env with inputs := σ }

theorem sameExpr_getSymbolicByte (env : Env) (σ₁ σ₂ : Assignment) (name : String) :
    SameExpr σ₁ σ₂ ((env.withInputs σ₁).getSymbolicByte name)
      ((env.withInputs σ₂).getSymbolicByte name) :=
  ⟨rfl, rfl, rfl, nofun, consistent_getSymbolicByte (env.withInputs σ₁) name,
    consistent_getSymbolicByte (env.withInputs σ₂) name⟩

theorem sameExpr_getSymbolicWord (env : Env) (σ₁ σ₂ : Assignment) (name : String) :
    SameExpr σ₁ σ₂ ((env.withInputs σ₁).getSymbolicWord name)
      ((env.withInputs σ₂).getSymbolicWord name) :=
  ⟨rfl, rfl, rfl, nofun, consistent_getSymbolicWord (env.withInputs σ₁) name,
    consistent_getSymbolicWord (env.withInputs σ₂) name⟩

theorem sameExpr_getSymbolicBytes (env : Env) (σ₁ σ₂ : Assignment) (name : String) (size : Nat) :
    Option.Rel (SameExpr σ₁ σ₂) ((env.withInputs σ₁).getSymbolicBytes name size)
      ((env.withInputs σ₂).getSymbolicBytes name size) := by
  have hfold : ∀ (offs : List Nat) (r r' : Option ConcolicValue),
      Option.Rel (SameExpr σ₁ σ₂) r r' → Option.Rel (SameExpr σ₁ σ₂)
        (offs.foldl (fun r i ↦ Solver.concatByte r
          ((env.withInputs σ₁).getSymbolicByte (byteName name i))) r)
        (offs.foldl (fun r i ↦ Solver.concatByte r
          ((env.withInputs σ₂).getSymbolicByte (byteName name i))) r') := by
    intro offs
    induction offs with
    | nil => exact fun _ _ hr ↦ hr
    | cons i offs ih =>
      exact fun r r' hr ↦ ih _ _
        ((pathCoupling σ₁ σ₂).value_concatByte hr (sameExpr_getSymbolicByte env σ₁ σ₂ _))
  exact hfold _ none none .none

namespace SameExpr

variable {σ₁ σ₂ : Assignment} {a b : ConcolicValue}

theorem getValue_eq (h : SameExpr σ₁ σ₂ a b) (hnone : a.symbolic = none) :
    getValue b = getValue a := by
  rw [getValue, getValue, h.concrete hnone]

/-- A condition has the same outcome in both runs, if the second inputs satisfy what the first run
records. -/
theorem evalCondition_eq (h : SameExpr σ₁ σ₂ a b) (hwidth : a.getWidth = 1)
    (hsat : ∀ e, a.symbolic = some e → (Trace.branchCondition e (evalCondition a)).Holds σ₂) :
    evalCondition b = evalCondition a := by
  cases hsym : a.symbolic with
  | none => rw [evalCondition, evalCondition, h.concrete hsym]
  | some e =>
    have heval : e.eval σ₂ = b.concrete := h.right e (h.symbolic.trans hsym)
    have he : e.getWidth = 1 := by
      rw [← Expr.width_eval σ₂ e, heval]
      exact h.width.symm.trans hwidth
    rw [← (holds_branchCondition he _ σ₂).mp (hsat e hsym), evalCondition, ← heval]
    rfl

end SameExpr

/-! ## What a step makes concrete -/

/-- The bytes that are fetched for an instruction. -/
def State.fetchedBytes (s : State) : List ConcolicValue :=
  match v2p (s.pc.setWidth 64) .FETCH s with
  | .ok paddr s' => (List.range 4).map fun i ↦
      s'.mem.byteAt (paddr.setWidth 32 + BitVec.ofNat 32 i)
  | .error _ _ => []

/-- The registers that are read for a system call. The first one decides whether the call is
intercepted. -/
def State.callOperands (s : State) : List ConcolicValue :=
  if s.sys.isNone then []
  else if getValue (s.regs RegFile.a7) = 0#32 then [s.regs RegFile.a7]
  else [s.regs RegFile.a7, s.regs s.syscallRegisterIndex, s.regs RegFile.a3, s.regs RegFile.a2,
    s.regs RegFile.a1, s.regs RegFile.a0]

/-- The values of which a decoded instruction uses the concrete part only: an address, the base of
a jump, the source of a CSR instruction, or the operands of a system call. -/
def State.concreteOperands (s : State) : List ConcolicValue :=
  match s.op with
  | .LB | .LH | .LW | .LBU | .LHU => [(s.regs s.rs1).add s.iImm]
  | .SB | .SH | .SW => [(s.regs s.rs1).add s.sImm]
  | .JALR | .CSRRW | .CSRRS | .CSRRC => [s.regs s.rs1]
  | .ECALL => s.callOperands
  | _ => []

/-- The address of the data that an instruction accesses. One of the system calls stores, too. -/
def State.accessAddress (s : State) : Option (BitVec 32) :=
  match s.op with
  | .ECALL =>
    if s.sys.isSome ∧ getValue (s.regs RegFile.a7) ≠ 0#32 ∧
        (getValue (s.regs s.syscallRegisterIndex)).toNat = SYS_sym_mem then
      some (getValue (s.regs RegFile.a0))
    else none
  | _ => s.dataAddress

/-- The values that a step makes concrete: fetched bytes and operands. -/
def State.concretised (s : State) : List ConcolicValue :=
  s.started.fetchedBytes ++ s.frontEnd.elim [] State.concreteOperands

/-- The bytes that the page walks of a step read. -/
def State.walked (s : State) : List ConcolicValue :=
  (s.started.walkReads (s.pc.setWidth 64) .FETCH).map s.mem.byteAt ++
    s.frontEnd.elim [] fun d ↦ d.accessAddress.elim [] fun addr ↦
      (d.walkReads (addr.setWidth 64) .STORE).map d.mem.byteAt

/-! ## Instructions -/

section Instructions

variable {σ₁ σ₂ : Assignment} (stop : Thrown → Prop) {s t : State}

theorem fetchedWord_eq_some {word : BitVec 32} (h : s.fetchedWord = some word) :
    ∃ paddr s', v2p (s.pc.setWidth 64) .FETCH s = .ok paddr s' ∧
      word = wordAt s'.mem (paddr.setWidth 32) := by
  have hload : ∃ s', loadInstr s.pc s = .ok word s' := by
    unfold State.fetchedWord at h
    cases hrun : loadInstr s.pc s with
    | ok word' s' =>
      rw [hrun] at h
      obtain rfl := Option.some.inj h
      exact ⟨s', rfl⟩
    | error e s' =>
      rw [hrun] at h
      cases h
  obtain ⟨s₂, hload⟩ := hload
  obtain ⟨paddr, s₁, hpaddr, hword⟩ := exists_ok_of_bind_eq_ok hload
  obtain ⟨value, s₃, hvalue, hret⟩ := exists_ok_of_bind_eq_ok hword
  have hread := (triple_concreteLoadData s₁ paddr (by decide)).of_ok rfl hvalue
  refine ⟨paddr, s₁, hpaddr, ?_⟩
  rw [← (EStateM.Result.ok.inj hret).1, hread.2.2, ← toNat_wordAt, BitVec.ofNat_toNat,
    BitVec.setWidth_eq]

/-- Bytes without symbolic parts are fetched alike. -/
theorem fetchedWord_eq (h : (pathCoupling σ₁ σ₂).Coupled s t)
    (hclean : (pathCoupling σ₁ σ₂).CleanWalks s t (s.pc.setWidth 64) .FETCH)
    (hbytes : ∀ v ∈ s.fetchedBytes, v.symbolic = none) {word word' : BitVec 32}
    (hword : s.fetchedWord = some word) (hword' : t.fetchedWord = some word') : word' = word := by
  obtain ⟨paddr, s₁, hs, rfl⟩ := fetchedWord_eq_some hword
  obtain ⟨paddr', t₁, ht, rfl⟩ := fetchedWord_eq_some hword'
  rw [h.same State.pc fun _ _ ↦ rfl] at ht
  obtain ⟨rfl, hst⟩ :=
    (Coupling.coupled_v2p (fun _ ↦ False) h hclean).of_ok ⟨rfl, rfl⟩ hs ht
  refine Coupling.wordAt_eq _ hst (fun i hi ↦ hbytes _ ?_) fun _ _ ↦ trivial
  rw [State.fetchedBytes, hs]
  exact List.mem_map.mpr ⟨i, List.mem_range.mpr hi, rfl⟩

theorem coverage_eq (h : (pathCoupling σ₁ σ₂).Coupled s t) : t.coverage = s.coverage := by
  obtain ⟨d, rfl, hd⟩ := h
  exact congrArg Log.coverage hd.log

theorem tracer_eq (h : (pathCoupling σ₁ σ₂).Coupled s t) : t.tracer = s.tracer := by
  obtain ⟨d, rfl, hd⟩ := h
  exact congrArg Log.tracer hd.log

/-- The operands are classified alike. -/
theorem same_classifyOperands (h : (pathCoupling σ₁ σ₂).Coupled s t) :
    Lockstep stop (fun s' t' ↦ s' = s ∧ t' = t) classifyOperands classifyOperands
      (fun a b s' t' ↦ a = b ∧ s' = s ∧ t' = t) (pathCoupling σ₁ σ₂).Same := by
  refine Lockstep.read_bind fun s' t' hst ↦ ?_
  obtain ⟨rfl, rfl⟩ := hst
  have hflags : ∀ rops : List (BitVec 5),
      ((rops.any fun r ↦ (s'.regs r).tainted), rops.any fun r ↦ (s'.regs r).symbolic.isSome) =
      ((rops.any fun r ↦ (t'.regs r).tainted), rops.any fun r ↦ (t'.regs r).symbolic.isSome) := by
    intro rops
    have hregs := h.regs
    congr 2
    · funext r
      exact (hregs r).tainted.symm
    · funext r
      rw [(hregs r).symbolic]
  rw [coverage_eq h, h.same State.op fun _ _ ↦ rfl,
    h.same (fun s ↦ s.operands (getType s'.op)) fun _ _ ↦ rfl]
  split
  · exact Lockstep.ret_at ⟨rfl, rfl, rfl⟩
  · exact Lockstep.ite Iff.rfl (fun _ ↦ Lockstep.raise_at ⟨rfl, h⟩) fun _ ↦
      Lockstep.ret_at ⟨hflags _, rfl, rfl⟩

theorem same_cover (env : Env) (flags : OperandFlags) :
    Lockstep stop (pathCoupling σ₁ σ₂).Coupled (cover (env.withInputs σ₁) flags)
      (cover (env.withInputs σ₂) flags) (pathCoupling σ₁ σ₂).Same (pathCoupling σ₁ σ₂).Same := by
  intro s t h
  have hset : ∀ cov : Option Coverage, (pathCoupling σ₁ σ₂).Coupled { s with coverage := cov }
      { t with coverage := cov } := by
    intro cov
    obtain ⟨d, rfl, hd⟩ := h
    refine ⟨{ d with log := { d.log with coverage := cov } }, rfl, hd.regs, hd.mem, ?_⟩
    exact congrArg (fun log : Log ↦ { log with coverage := cov }) hd.log
  unfold cover
  have hlast : t.lastPc = s.lastPc := h.same State.lastPc fun _ _ ↦ rfl
  rw [coverage_eq h]
  rw [hlast] at hset ⊢
  cases s.coverage with
  | none => exact .inr (.inr ⟨rfl, h⟩)
  | some cov =>
    dsimp only [Env.withInputs]
    cases Coverage.coverSources (s.lastPc.setWidth 64) flags (env.getSources (s.lastPc.setWidth 64))
      cov with
    | ok _ cov' => exact ⟨rfl, hset _⟩
    | error e cov' => exact .inr (.inr ⟨rfl, hset _⟩)

/-- A program without a result, followed by one. -/
theorem same_unit {m n : IssM Unit} {P : State → State → Prop}
    (h : Lockstep stop P m n (pathCoupling σ₁ σ₂).Same (pathCoupling σ₁ σ₂).Same) (b : Bool) :
    Lockstep stop P (do m; return b) (do n; return b) (pathCoupling σ₁ σ₂).Same
      (pathCoupling σ₁ σ₂).Same :=
  Lockstep.bind h fun _ _ ↦ Lockstep.ret fun _ _ h ↦ ⟨rfl, h.2⟩

theorem same_blind (h : (pathCoupling σ₁ σ₂).Coupled s t) {m : IssM Unit} (hm : Blind m) (b : Bool) :
    Lockstep stop (fun s' t' ↦ s' = s ∧ t' = t) (do m; return b) (do m; return b)
      (pathCoupling σ₁ σ₂).Same (pathCoupling σ₁ σ₂).Same :=
  same_unit stop ((hm.coupled _ stop).at_start h) b

theorem same_jumpAndLink (h : (pathCoupling σ₁ σ₂).Coupled s t) (target : BitVec 32) :
    Lockstep stop (fun s' t' ↦ s' = s ∧ t' = t) (jumpAndLink target) (jumpAndLink target)
      (pathCoupling σ₁ σ₂).Same (pathCoupling σ₁ σ₂).Same := by
  refine Lockstep.read_bind fun s' t' hst ↦ ?_
  obtain ⟨rfl, rfl⟩ := hst
  rw [h.same State.rd fun _ _ ↦ rfl, h.same State.pc fun _ _ ↦ rfl]
  exact Lockstep.bind (((blind_jump target).coupled _ stop).at_start h) fun _ _ ↦
    Lockstep.update fun _ _ h ↦ ⟨rfl, h.2.writeReg _ ((pathCoupling σ₁ σ₂).value_constant _)⟩

/-- A branch has the same outcome in both runs and records the same condition. -/
theorem same_execBranch (h : (pathCoupling σ₁ σ₂).Coupled s t) {res res' : ConcolicValue}
    (hres : SameExpr σ₁ σ₂ res res') (hcond : evalCondition res' = evalCondition res) :
    Lockstep stop (fun s' t' ↦ s' = s ∧ t' = t) (execBranch res) (execBranch res')
      (pathCoupling σ₁ σ₂).Same (pathCoupling σ₁ σ₂).Same := by
  refine Lockstep.read_bind fun s' t' hst ↦ ?_
  obtain ⟨rfl, rfl⟩ := hst
  rw [hcond, h.same (fun s ↦ s.lastPc + s.instr.bImm) fun _ _ ↦ rfl]
  have hjump : ∀ cond target, Blind (jumpIf cond target) :=
    fun cond target ↦ Blind.ite (blind_jump target) (Blind.ret _)
  refine Lockstep.bind (((hjump _ _).coupled _ stop).at_start h) fun _ _ ↦ ?_
  unfold trackAndTraceBranch
  rw [hres.symbolic]
  cases res.symbolic with
  | none => exact Lockstep.ret fun _ _ h ↦ ⟨rfl, h.2⟩
  | some e =>
    refine Lockstep.update fun s t h ↦ ⟨rfl, ?_⟩
    obtain ⟨d, rfl, hd⟩ := h.2
    refine ⟨{ d with log := { d.log with tracer := s.tracer ++ [(evalCondition res, e)] } }, ?_,
      hd.regs, hd.mem, ?_⟩
    · rw [tracer_eq h.2]
      rfl
    · exact congrArg (fun log : Log ↦ { log with tracer := s.tracer ++ [(evalCondition res, e)] })
        hd.log

/-- A load from an address without a symbolic part. -/
theorem same_execLoad (h : (pathCoupling σ₁ σ₂).Coupled s t) {load : ConcolicValue → IssM ConcolicValue}
    (alignment : Nat) (hnone : ((s.regs s.rs1).add s.iImm).symbolic = none)
    (hload : ∀ addr', getValue addr' = getValue ((s.regs s.rs1).add s.iImm) →
      Lockstep stop (fun s' t' ↦ s' = s ∧ t' = t) (load ((s.regs s.rs1).add s.iImm)) (load addr')
        (fun a b s t ↦ SameExpr σ₁ σ₂ a b ∧ (pathCoupling σ₁ σ₂).Coupled s t)
        (pathCoupling σ₁ σ₂).Same) :
    Lockstep stop (fun s' t' ↦ s' = s ∧ t' = t) (execLoad alignment load) (execLoad alignment load)
      (pathCoupling σ₁ σ₂).Same (pathCoupling σ₁ σ₂).Same := by
  refine Lockstep.read_bind fun s' t' hst ↦ ?_
  obtain ⟨rfl, rfl⟩ := hst
  have himm : (pathCoupling σ₁ σ₂).value s'.iImm t'.iImm := by
    rw [h.same State.iImm fun _ _ ↦ rfl]
    exact (pathCoupling σ₁ σ₂).sext 32 ((pathCoupling σ₁ σ₂).value_constant _)
  have hrs1 : t'.rs1 = s'.rs1 := h.same State.rs1 fun _ _ ↦ rfl
  have haddr : SameExpr σ₁ σ₂ ((s'.regs s'.rs1).add s'.iImm) ((t'.regs t'.rs1).add t'.iImm) := by
    rw [hrs1]
    exact (pathCoupling σ₁ σ₂).binaryOperator _ (h.regs _) himm
  have hvalue := haddr.getValue_eq hnone
  have hnone' : ((t'.regs t'.rs1).add t'.iImm).symbolic = none := haddr.symbolic.trans hnone
  rw [h.same State.rd fun _ _ ↦ rfl]
  refine Lockstep.bind (Q := fun _ _ s t ↦ s = s' ∧ t = t') ?_ fun _ _ ↦
    Lockstep.bind (hload _ hvalue) fun a b ↦ ?_
  · unfold trapCheckAddrAlignment
    rw [hvalue]
    exact Lockstep.ite Iff.rfl (fun _ ↦ Lockstep.raise_at ⟨rfl, h⟩) fun _ ↦
      Lockstep.ret_at ⟨rfl, rfl⟩
  · refine Lockstep.bind (Q := fun _ _ ↦ (pathCoupling σ₁ σ₂).Coupled)
      (Lockstep.update fun _ _ h ↦ h.2.writeReg _ h.1) fun _ _ ↦ ?_
    unfold taintLoaded
    rw [hnone, hnone']
    exact Lockstep.ret fun _ _ h ↦ ⟨rfl, h⟩

theorem blind_lexicalCastInt (value : Int) : Blind (lexicalCastInt value) := by
  unfold lexicalCastInt
  exact Blind.ite (Blind.ret _) (Blind.raise _)

theorem blind_callHost (env : Env) : Blind (callHost env) :=
  Blind.read_bind (fun _ _ ↦ rfl) fun _ ↦ Blind.bind (Blind.update fun _ _ ↦ rfl) fun _ ↦
    Blind.ret _

theorem same_sysSymReg (env : Env) (index : BitVec 32) :
    Lockstep stop (pathCoupling σ₁ σ₂).Coupled (sysSymReg (env.withInputs σ₁) index)
      (sysSymReg (env.withInputs σ₂) index) (pathCoupling σ₁ σ₂).Same (pathCoupling σ₁ σ₂).Same := by
  refine Lockstep.ite Iff.rfl (fun _ ↦ Lockstep.ret fun _ _ h ↦ ⟨rfl, h⟩) fun _ ↦ ?_
  exact Lockstep.bind (Q := fun _ _ ↦ (pathCoupling σ₁ σ₂).Coupled) (Lockstep.update fun _ _ h ↦
    h.writeReg _ (sameExpr_getSymbolicWord env σ₁ σ₂ _)) fun _ _ ↦ Lockstep.ret fun _ _ h ↦ ⟨rfl, h⟩

theorem same_sysSymMem (h : (pathCoupling σ₁ σ₂).Coupled s t) (env : Env) {addr : BitVec 32}
    (hclean : (pathCoupling σ₁ σ₂).CleanWalks s t (addr.setWidth 64) .STORE) (size : BitVec 32) :
    Lockstep stop (fun s' t' ↦ s' = s ∧ t' = t) (sysSymMem (env.withInputs σ₁) addr size)
      (sysSymMem (env.withInputs σ₂) addr size) (pathCoupling σ₁ σ₂).Same
      (pathCoupling σ₁ σ₂).Same := by
  have haddr : getValue (constant addr) = addr := by
    rw [getValue, constant_eq]
    exact (BitVec.ofNat_toNat _ _).trans (BitVec.setWidth_eq _)
  refine Lockstep.bind (Coupling.coupled_symbolicStoreData stop h rfl ?_
    (sameExpr_getSymbolicBytes env σ₁ σ₂ _ _) _) fun _ _ ↦ Lockstep.ret fun _ _ h ↦ ⟨rfl, h.2⟩
  rw [haddr]
  exact hclean

theorem same_dispatchSyscall (h : (pathCoupling σ₁ σ₂).Coupled s t) (env : Env)
    (sys : SyscallHandler) (n : Nat) (a0 a1 : BitVec 32)
    (hclean : n = SYS_sym_mem →
      (pathCoupling σ₁ σ₂).CleanWalks s t (a0.setWidth 64) .STORE) :
    Lockstep stop (fun s' t' ↦ s' = s ∧ t' = t)
      (dispatchSyscall (env.withInputs σ₁) sys n a0 a1)
      (dispatchSyscall (env.withInputs σ₂) sys n a0 a1) (pathCoupling σ₁ σ₂).Same
      (pathCoupling σ₁ σ₂).Same := by
  have hblind : ∀ {m : IssM Int}, Blind m → Lockstep stop (fun s' t' ↦ s' = s ∧ t' = t) m m
      (pathCoupling σ₁ σ₂).Same (pathCoupling σ₁ σ₂).Same :=
    fun hm ↦ (hm.coupled _ stop).at_start h
  have hhost : Blind (callHost env) := blind_callHost env
  have hcast := blind_lexicalCastInt
  unfold dispatchSyscall
  refine Lockstep.ite Iff.rfl (fun _ ↦ hblind ?fstat) fun _ ↦
    Lockstep.ite Iff.rfl (fun _ ↦ hblind ?brk) fun _ ↦
    Lockstep.ite Iff.rfl (fun _ ↦ hblind ?time) fun _ ↦
    Lockstep.ite Iff.rfl (fun _ ↦ hblind (Blind.raise _)) fun _ ↦
    Lockstep.ite Iff.rfl (fun _ ↦ hblind ?lseek) fun _ ↦
    Lockstep.ite Iff.rfl (fun _ ↦ hblind ?close) fun _ ↦
    Lockstep.ite Iff.rfl (fun _ ↦ (same_sysSymReg stop env a0).at_start h) fun _ ↦
    Lockstep.ite Iff.rfl (fun hn ↦ same_sysSymMem stop h env (hclean hn) a1) fun _ ↦
    Lockstep.ite Iff.rfl (fun _ ↦ hblind (Blind.raise _)) fun _ ↦
    Lockstep.ite Iff.rfl (fun _ ↦ hblind ?exit) fun _ ↦ hblind (Blind.raise _)
  case fstat => exact Blind.bind hhost fun _ ↦ Blind.ite (Blind.raise _) (Blind.ret _)
  case brk =>
    exact Blind.ite (hcast _) (Blind.bind (Blind.update fun _ _ ↦ rfl) fun _ ↦ hcast _)
  case time =>
    exact Blind.bind hhost fun _ ↦ Blind.bind (hcast _) fun _ ↦
      Blind.ite (Blind.raise _) (Blind.ret _)
  case lseek => exact Blind.bind hhost fun _ ↦ Blind.ret _
  case close => exact Blind.ite (Blind.ret _) hhost
  case exit => exact Blind.bind (Blind.update fun _ _ ↦ rfl) fun _ ↦ Blind.ret _

/-- System calls with operands that have no symbolic parts. -/
theorem same_execEcall (h : (pathCoupling σ₁ σ₂).Coupled s t) (env : Env)
    (hnone : ∀ v ∈ s.callOperands, v.symbolic = none)
    (hclean : s.sys.isSome ∧ getValue (s.regs RegFile.a7) ≠ 0#32 ∧
        (getValue (s.regs s.syscallRegisterIndex)).toNat = SYS_sym_mem →
      (pathCoupling σ₁ σ₂).CleanWalks s t ((getValue (s.regs RegFile.a0)).setWidth 64) .STORE) :
    Lockstep stop (fun s' t' ↦ s' = s ∧ t' = t) (execEcall (env.withInputs σ₁))
      (execEcall (env.withInputs σ₂)) (pathCoupling σ₁ σ₂).Same (pathCoupling σ₁ σ₂).Same := by
  have hecall := (blind_raiseEcall.coupled (pathCoupling σ₁ σ₂) stop).at_start h
  have hvalue : ∀ i, s.regs i ∈ s.callOperands → getValue (t.regs i) = getValue (s.regs i) :=
    fun i hi ↦ (h.regs i).getValue_eq (hnone _ hi)
  have hindex : t.syscallRegisterIndex = s.syscallRegisterIndex :=
    h.same State.syscallRegisterIndex fun _ _ ↦ rfl
  refine Lockstep.read_bind fun s' t' hst ↦ ?_
  obtain ⟨rfl, rfl⟩ := hst
  rw [h.same State.sys fun _ _ ↦ rfl]
  unfold State.callOperands at hvalue
  cases hsys : s'.sys with
  | none => exact hecall
  | some sys =>
    rw [hsys] at hclean
    rw [hsys, Option.isNone_some, if_neg Bool.false_ne_true] at hvalue
    have ha7 : getValue (t'.regs RegFile.a7) = getValue (s'.regs RegFile.a7) := by
      apply hvalue
      split
      · exact List.mem_cons_self
      · exact List.mem_cons_self
    refine Lockstep.ite (by rw [ha7]) (fun hne ↦ ?_) fun _ ↦ hecall
    rw [if_neg hne] at hvalue
    refine Lockstep.read_bind fun s t hst ↦ ?_
    obtain ⟨rfl, rfl⟩ := hst
    rw [hindex, hvalue _ (by simp), hvalue RegFile.a0 (by simp), hvalue RegFile.a1 (by simp)]
    refine Lockstep.bind (same_dispatchSyscall stop h env sys _ _ _ fun hn ↦
      hclean ⟨rfl, hne, hn⟩) fun ans ans' ↦ ?_
    refine Lockstep.of_start fun s₁ t₁ hst ↦ ?_
    obtain ⟨rfl, hst⟩ := hst
    refine Lockstep.bind (Q := fun _ _ ↦ (pathCoupling σ₁ σ₂).Coupled) (Lockstep.bind
      ((blind_ensure.coupled _ stop).at_start hst) fun _ _ ↦ Lockstep.update fun _ _ h ↦
        h.2.writeReg _ ((pathCoupling σ₁ σ₂).value_constant _)) fun _ _ ↦ ?_
    exact (Blind.update fun _ _ ↦ rfl).coupled _ stop

/-! ### All instructions -/

/-- What a decoded instruction makes concrete has no symbolic part. -/
structure State.OperandsConcrete (s : State) : Prop where
  operands : ∀ v ∈ s.concreteOperands, v.symbolic = none
  walks : ∀ addr, s.accessAddress = some addr →
    ∀ a ∈ s.walkReads (addr.setWidth 64) .STORE, (s.mem.byteAt a).symbolic = none

theorem State.OperandsConcrete.cleanWalks (h : s.OperandsConcrete) {addr : BitVec 32}
    (haddr : s.accessAddress = some addr) :
    (pathCoupling σ₁ σ₂).CleanWalks s t (addr.setWidth 64) .STORE :=
  ⟨h.walks addr haddr, fun _ _ ↦ trivial⟩

theorem same_execStore (h : (pathCoupling σ₁ σ₂).Coupled s t) (alignment n : Nat)
    (hnone : ((s.regs s.rs1).add s.sImm).symbolic = none)
    (hclean : (pathCoupling σ₁ σ₂).CleanWalks s t
      ((getValue ((s.regs s.rs1).add s.sImm)).setWidth 64) .STORE) :
    Lockstep stop (fun s' t' ↦ s' = s ∧ t' = t)
      (execStore alignment fun addr value ↦ symbolicStoreData addr (some value) n)
      (execStore alignment fun addr value ↦ symbolicStoreData addr (some value) n)
      (pathCoupling σ₁ σ₂).Same (pathCoupling σ₁ σ₂).Same := by
  have haddr : SameExpr σ₁ σ₂ ((s.regs s.rs1).add s.sImm) ((t.regs t.rs1).add t.sImm) := by
    rw [h.same State.rs1 fun _ _ ↦ rfl, h.same State.sImm fun _ _ ↦ rfl]
    exact (pathCoupling σ₁ σ₂).binaryOperator _ (h.regs _)
      ((pathCoupling σ₁ σ₂).sext 32 ((pathCoupling σ₁ σ₂).value_constant _))
  exact Coupling.coupled_execStore stop h alignment n (haddr.getValue_eq hnone) hclean

/-- The instructions that compute neither a register nor a condition do the same, if they make
nothing symbolic concrete. -/
theorem same_executeOther (h : (pathCoupling σ₁ σ₂).Coupled s t) (env : Env)
    (hs : s.OperandsConcrete) :
    Lockstep stop (fun s' t' ↦ s' = s ∧ t' = t) (executeOther (env.withInputs σ₁) s.op)
      (executeOther (env.withInputs σ₂) s.op) (pathCoupling σ₁ σ₂).Same
      (pathCoupling σ₁ σ₂).Same := by
  have hoperands := hs.operands
  have hwalks : ∀ {addr}, s.accessAddress = some addr →
      (pathCoupling σ₁ σ₂).CleanWalks s t (addr.setWidth 64) .STORE := hs.cleanWalks
  unfold State.concreteOperands at hoperands
  unfold State.accessAddress State.dataAddress at hwalks
  have hcsr := Coupling.coupled_execCsr stop h (env.withInputs σ₁) s.op
  have hsource : (∀ v ∈ [s.regs s.rs1], v.symbolic = none) →
      ∀ op, s.csrSource op = t.csrSource op := by
    intro hnone op
    have hvalue := (h.regs s.rs1).getValue_eq (hnone _ (List.mem_singleton_self _))
    unfold State.csrSource
    rw [h.same State.rs1 fun _ _ ↦ rfl, hvalue]
  have hjump : ∀ {f : State → BitVec 32}, f t = f s → Lockstep stop (fun s' t' ↦ s' = s ∧ t' = t)
      (do let s ← get; jumpAndLink (f s); return false)
      (do let s ← get; jumpAndLink (f s); return false) (pathCoupling σ₁ σ₂).Same
      (pathCoupling σ₁ σ₂).Same := by
    intro f hf
    refine Lockstep.read_bind fun s' t' hst ↦ ?_
    obtain ⟨rfl, rfl⟩ := hst
    rw [hf]
    exact same_unit stop (same_jumpAndLink stop h _) false
  unfold executeOther
  generalize s.op = op at hoperands hwalks hcsr ⊢
  split
  case h_1 => exact (blind_raiseIllegalInstruction.coupled _ stop).at_start h
  case h_2 => exact hjump (h.same (fun s ↦ s.lastPc + s.instr.jImm) fun _ _ ↦ rfl)
  case h_3 =>
    refine hjump (f := fun s ↦ (getValue (s.regs s.rs1) + s.instr.iImm) &&& ~~~1#32) ?_
    rw [h.same State.rs1 fun _ _ ↦ rfl, h.same State.instr fun _ _ ↦ rfl,
      (h.regs s.rs1).getValue_eq (hoperands _ (List.mem_singleton_self _))]
  case h_4 | h_5 | h_6 =>
    exact same_unit stop (same_execStore stop h _ _ (hoperands _ (List.mem_singleton_self _))
      (hwalks rfl)) false
  case h_7 | h_8 | h_9 =>
    exact same_execLoad stop h _ (hoperands _ (List.mem_singleton_self _)) fun _ haddr ↦
      Coupling.coupled_loadSigned stop h haddr (hwalks rfl) (by decide)
  case h_10 | h_11 =>
    exact same_execLoad stop h _ (hoperands _ (List.mem_singleton_self _)) fun _ haddr ↦
      Coupling.coupled_loadUnsigned stop h haddr (hwalks rfl) (by decide)
  case h_12 | h_13 => exact Lockstep.ret_at ⟨rfl, h⟩
  case h_14 =>
    exact same_unit stop (same_execEcall stop h env hoperands fun hcall ↦ hwalks (if_pos hcall))
      false
  case h_15 => exact same_blind stop h blind_execEbreak false
  case h_16 | h_17 | h_18 =>
    exact same_unit stop (hcsr.post fun _ _ _ _ h ↦ ⟨rfl, h (hsource hoperands _)⟩) false
  case h_19 | h_20 | h_21 =>
    exact same_unit stop (hcsr.post fun _ _ _ _ h ↦ ⟨rfl, h rfl⟩) false
  case h_22 => exact same_blind stop h blind_execWfi false
  case h_23 => exact same_blind stop h (blind_returnFromTrapHandler _) false
  case h_24 => exact Lockstep.raise_at ⟨rfl, h⟩

/-- The condition that a decoded instruction records. -/
def State.recordedCondition (s : State) : Option (Bool × Expr) :=
  (s.branchResult s.op).bind fun res ↦ res.symbolic.map fun e ↦ (evalCondition res, e)

theorem getWidth_branchResult {op : Opcode} {res : ConcolicValue}
    (h : s.branchResult op = some res) : res.getWidth = 1 := by
  unfold State.branchResult at h
  split at h
  case h_7 => cases h
  all_goals
    obtain rfl := Option.some.inj h
    rfl

theorem same_execute (h : (pathCoupling σ₁ σ₂).Coupled s t) (env : Env)
    (hs : s.OperandsConcrete)
    (hsat : ∀ c, s.recordedCondition = some c → (Trace.branchCondition c.2 c.1).Holds σ₂) :
    Lockstep stop (fun s' t' ↦ s' = s ∧ t' = t) (execute (env.withInputs σ₁))
      (execute (env.withInputs σ₂)) (pathCoupling σ₁ σ₂).Same (pathCoupling σ₁ σ₂).Same := by
  have hother := same_executeOther stop h env hs
  have hregister := h.registerResult s.op
  have hbranch := h.branchResult s.op
  refine Lockstep.read_bind fun s' t' hst ↦ ?_
  obtain ⟨rfl, rfl⟩ := hst
  rw [h.same State.op fun _ _ ↦ rfl, h.same State.rd fun _ _ ↦ rfl]
  generalize s'.registerResult s'.op = x, t'.registerResult s'.op = y at hregister ⊢
  cases hregister with
  | some hab =>
    refine same_unit stop (Lockstep.update ?_) false
    rintro _ _ ⟨rfl, rfl⟩
    exact ⟨rfl, h.writeReg _ hab⟩
  | none =>
    unfold State.recordedCondition at hsat
    have hwidth : ∀ res, s'.branchResult s'.op = some res → res.getWidth = 1 :=
      fun _ ↦ getWidth_branchResult
    generalize s'.branchResult s'.op = x, t'.branchResult s'.op = y at hbranch hsat hwidth ⊢
    cases hbranch with
    | none => exact hother
    | @some res res' hres =>
      refine same_unit stop (same_execBranch stop h hres
        (hres.evalCondition_eq (hwidth res rfl) fun e he ↦ hsat (evalCondition res, e) ?_)) false
      rw [Option.bind_some, he]
      rfl

end Instructions

end CoverageVP.Iss
