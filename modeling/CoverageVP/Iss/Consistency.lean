import CoverageVP.Iss.Control

/-!
# Consistency of concolic states

Under the inputs of a run, the symbolic part of every register and of every byte of the memory
evaluates to the concrete part. Every operation of the core computes both parts from consistent
operands, drops the symbolic part, or introduces an input together with its value.
-/

namespace CoverageVP.Iss

open Lib Clover Instr

/-- The registers and the memory have consistent parts. -/
structure State.Consistent (σ : Assignment) (s : State) : Prop where
  regs : ∀ i, (s.regs i).Consistent σ
  mem : s.mem.Consistent σ

/-! ## Values -/

section Values

variable {σ : Assignment}

theorem consistent_constant (value : BitVec 32) : (constant value).Consistent σ :=
  ConcolicValue.consistent_of_symbolic_eq_none rfl

theorem RegFile.consistent_set {regs : RegFile} (hregs : ∀ i, (regs i).Consistent σ)
    {index : BitVec 5} {value : ConcolicValue} (hvalue : value.Consistent σ)
    (hwidth : value.getWidth = 32) (i : BitVec 5) :
    (regs.set index value hwidth i).Consistent σ := by
  by_cases hi : i = index
  · rw [hi, RegFile.set_self]
    exact hvalue
  · rw [RegFile.set_of_ne _ _ hi]
    exact hregs i

theorem RegFile.consistent_write {regs : RegFile} (hregs : ∀ i, (regs i).Consistent σ)
    {index : BitVec 5} {value : ConcolicValue} (hvalue : value.Consistent σ) (i : BitVec 5) :
    (regs.write index value i).Consistent σ := by
  unfold RegFile.write
  split
  · exact RegFile.consistent_set hregs (hvalue.zext 32) _ i
  split
  · exact RegFile.consistent_set hregs hvalue _ i
  · exact hregs i

theorem State.Consistent.writeReg {s : State} (h : s.Consistent σ) (index : BitVec 5)
    {value : ConcolicValue} (hvalue : value.Consistent σ) : (s.writeReg index value).Consistent σ :=
  ⟨RegFile.consistent_write h.regs hvalue, h.mem⟩

theorem State.Consistent.registerResult {s : State} (h : s.Consistent σ) {op : Opcode}
    {value : ConcolicValue} (hvalue : s.registerResult op = some value) : value.Consistent σ := by
  have hiImm : s.iImm.Consistent σ := (consistent_constant _).sext 32
  have hshamt : (s.regs.shamt s.rs2).Consistent σ := ((h.regs _).extract 0 5).zext 32
  have himm : ∀ v, (constant v).Consistent σ := consistent_constant
  unfold State.registerResult at hvalue
  split at hvalue
  case h_22 => cases hvalue
  all_goals obtain rfl := Option.some.inj hvalue
  case h_1 | h_2 | h_3 | h_4 | h_5 | h_6 => exact (h.regs _).binaryOperator _ hiImm
  case h_9 | h_12 | h_13 => exact (h.regs _).binaryOperator _ hshamt
  case h_17 | h_18 | h_19 => exact (h.regs _).binaryOperator _ (himm _)
  case h_20 => exact himm _
  case h_21 => exact (himm _).binaryOperator _ (himm _)
  all_goals exact (h.regs _).binaryOperator _ (h.regs _)

/-- An input is introduced with the value of its name. -/
theorem consistent_getSymbolicByte (env : Env) (name : String) :
    (env.getSymbolicByte name).Consistent env.inputs := by
  intro e he
  obtain rfl := Option.some.inj he
  change (⟨8, env.inputs ⟨name, 1⟩⟩ : BV) =
    (IntValue.uint8 (BitVec.ofNat 8 (env.inputs ⟨name, 1⟩).toNat)).toBV
  rw [IntValue.toBV_uint8, BitVec.ofNat_toNat]
  exact congrArg (BV.mk 8) (BitVec.setWidth_eq _).symm

theorem consistent_getSymbolicWord (env : Env) (name : String) :
    (env.getSymbolicWord name).Consistent env.inputs := by
  intro e he
  obtain rfl := Option.some.inj he
  change (⟨32, env.inputs ⟨name, 4⟩⟩ : BV) =
    (IntValue.uint32 (BitVec.ofNat 32 (env.inputs ⟨name, 4⟩).toNat)).toBV
  rw [IntValue.toBV_uint32, BitVec.ofNat_toNat]
  exact congrArg (BV.mk 32) (BitVec.setWidth_eq _).symm

theorem consistent_getSymbolicBytes (env : Env) (name : String) (size : Nat) :
    ∀ v ∈ env.getSymbolicBytes name size, v.Consistent env.inputs := by
  have hfold : ∀ (offs : List Nat) (result : Option ConcolicValue),
      (∀ v ∈ result, v.Consistent env.inputs) →
      ∀ v ∈ offs.foldl (fun result i ↦
        Solver.concatByte result (env.getSymbolicByte (byteName name i))) result,
        v.Consistent env.inputs := by
    intro offs
    induction offs with
    | nil => exact fun _ h ↦ h
    | cons i offs ih =>
      intro result hr
      exact ih _ (ConcolicMemory.consistent_concatByte hr (consistent_getSymbolicByte env _))
  exact hfold _ none (by simp)

end Values

/-! ## Steps -/

section Walk

variable {σ : Assignment}

theorem consistent_keptByMarks : KeptByMarks (State.Consistent σ) where
  mark := fun _ _ _ h ↦ ⟨h.regs, h.mem.store _ (consistent_constant _) _⟩
  mmu := fun _ _ h _ ↦ ⟨h.regs, h.mem⟩

theorem consistent_writeReg (index : BitVec 5) {value : ConcolicValue} (h : value.Consistent σ) :
    Keeps (State.Consistent σ) (modify (·.writeReg index value) : IssM Unit) :=
  Keeps.update fun _ hs ↦ hs.writeReg _ h

/-- Loaded values are consistent. -/
theorem consistent_symbolicLoadData (addr : ConcolicValue) (numBytes : Nat) :
    Triple (State.Consistent σ) (symbolicLoadData addr numBytes)
      (fun value s ↦ s.Consistent σ ∧ value.Consistent σ) (fun _ ↦ State.Consistent σ) := by
  refine Triple.bind (keeps_v2p consistent_keptByMarks _ _) fun paddr ↦ ?_
  refine Triple.read_bind fun s hs ↦ Triple.bind (Q := fun _ s' ↦ s' = s)
    (triple_raiseTrapIf (fun _ h _ ↦ h) fun _ h _ ↦ h ▸ hs) fun _ ↦ ?_
  split
  case h_1 data hdata =>
    exact Triple.ret fun _ h ↦ ⟨h ▸ hs, hs.mem.load _ _ data hdata⟩
  case h_2 => exact Triple.raise fun _ h ↦ h ▸ hs

theorem consistent_symbolicStoreData (addr : ConcolicValue) {data : Option ConcolicValue}
    (hdata : ∀ v ∈ data, v.Consistent σ) (numBytes : Nat) :
    Keeps (State.Consistent σ) (symbolicStoreData addr data numBytes) := by
  refine Keeps.bind (keeps_v2p consistent_keptByMarks _ _) fun paddr ↦ ?_
  split
  case h_1 value =>
    exact Keeps.read_bind fun _ _ ↦ Keeps.bind (keeps_raiseTrapIf _ _) fun _ ↦
      Keeps.update fun s h ↦ ⟨h.regs, h.mem.store _ (hdata value rfl) _⟩
  case h_2 => exact Keeps.raise _

theorem consistent_keptByCalls (env : Env) :
    KeptByCalls env (State.Consistent env.inputs) where
  sys := fun _ _ h ↦ ⟨h.regs, h.mem⟩
  hostCalls := fun _ _ h ↦ ⟨h.regs, h.mem⟩
  shallExit := fun _ _ h ↦ ⟨h.regs, h.mem⟩
  result := fun _ _ h ↦ h.writeReg _ (consistent_constant _)
  register := fun _ ↦ consistent_writeReg _ (consistent_getSymbolicWord env _)
  memory := fun _ _ ↦ consistent_symbolicStoreData _ (consistent_getSymbolicBytes env _ _) _

theorem consistent_fetch : Keeps (State.Consistent σ) fetch := by
  refine Keeps.read_bind fun s _ ↦ Keeps.bind keeps_ensure fun _ ↦ Keeps.bind
    (Keeps.handle (keeps_loadInstr consistent_keptByMarks _) fun e ↦ ?_) fun _ ↦
    Keeps.update fun _ h ↦ ⟨h.regs, h.mem⟩
  cases e with
  | trap reason mtval =>
    exact Keeps.bind (Keeps.update fun _ h ↦ ⟨h.regs, h.mem⟩) fun _ ↦ Keeps.raise _
  | host error => exact Keeps.raise _

theorem consistent_decode : Keeps (State.Consistent σ) decode := by
  refine Keeps.read_bind fun s _ ↦ Keeps.ite ?_ (Keeps.update fun _ h ↦ ⟨h.regs, h.mem⟩)
  split
  · exact Keeps.bind (Keeps.update fun _ h ↦ ⟨h.regs, h.mem⟩) fun _ ↦
      Keeps.read_bind fun _ _ ↦ keeps_raiseIllegalInstructionIf
  · exact Keeps.raise _

theorem consistent_jump (target : BitVec 32) : Keeps (State.Consistent σ) (jump target) :=
  Keeps.bind (Keeps.update fun _ h ↦ ⟨h.regs, h.mem⟩) fun _ ↦
    Keeps.read_bind fun _ _ ↦ Keeps.bind keeps_ensure fun _ ↦ keeps_raiseTrapIf _ _

theorem consistent_jumpAndLink (target : BitVec 32) :
    Keeps (State.Consistent σ) (jumpAndLink target) :=
  Keeps.read_bind fun _ _ ↦ Keeps.bind (consistent_jump target) fun _ ↦
    consistent_writeReg _ (consistent_constant _)

theorem consistent_execBranch (res : ConcolicValue) :
    Keeps (State.Consistent σ) (execBranch res) := by
  refine Keeps.read_bind fun s _ ↦
    Keeps.bind (Keeps.ite (consistent_jump _) (Keeps.ret _)) fun _ ↦ ?_
  unfold trackAndTraceBranch
  split
  · exact Keeps.update fun _ h ↦ ⟨h.regs, h.mem⟩
  · exact Keeps.ret _

theorem consistent_execLoad (alignment : Nat) {load : ConcolicValue → IssM ConcolicValue}
    (hload : ∀ addr, Triple (State.Consistent σ) (load addr)
      (fun value s ↦ s.Consistent σ ∧ value.Consistent σ) (fun _ ↦ State.Consistent σ)) :
    Keeps (State.Consistent σ) (execLoad alignment load) := by
  refine Keeps.read_bind fun s _ ↦ Keeps.bind (keeps_raiseTrapIf _ _) fun _ ↦
    Triple.bind (hload _) fun value ↦ Triple.bind (Q := fun _ ↦ State.Consistent σ)
      (Triple.update fun s h ↦ h.1.writeReg _ h.2) fun _ ↦ ?_
  refine Keeps.ite (Keeps.bind (Keeps.update fun s h ↦ ⟨?_, h.mem⟩) fun _ ↦ Keeps.ret _)
    (Keeps.ret _)
  exact RegFile.consistent_set h.regs (h.regs _).taint (s.regs.width_value _)

theorem consistent_loadSigned (addr : ConcolicValue) (numBytes : Nat) :
    Triple (State.Consistent σ) (loadSigned addr numBytes)
      (fun value s ↦ s.Consistent σ ∧ value.Consistent σ) (fun _ ↦ State.Consistent σ) :=
  Triple.bind (consistent_symbolicLoadData addr numBytes) fun _ ↦
    Triple.ret fun _ h ↦ ⟨h.1, h.2.sext 32⟩

theorem consistent_loadUnsigned (addr : ConcolicValue) (numBytes : Nat) :
    Triple (State.Consistent σ) (loadUnsigned addr numBytes)
      (fun value s ↦ s.Consistent σ ∧ value.Consistent σ) (fun _ ↦ State.Consistent σ) :=
  Triple.bind (consistent_symbolicLoadData addr numBytes) fun _ ↦
    Triple.ret fun _ h ↦ ⟨h.1, h.2.zextIf _ 32⟩

theorem consistent_execStore (alignment numBytes : Nat) :
    Keeps (State.Consistent σ)
      (execStore alignment fun addr value ↦ symbolicStoreData addr (some value) numBytes) := by
  refine Keeps.read_bind fun s h ↦ Keeps.bind (keeps_raiseTrapIf _ _) fun _ ↦
    consistent_symbolicStoreData _ (fun v hv ↦ ?_) _
  obtain rfl := Option.some.inj hv
  exact h.regs _

theorem consistent_execCsr (env : Env) (op : Opcode) :
    Keeps (State.Consistent σ) (execCsr env op) :=
  keeps_execCsr (keeps_getCsrValue (fun _ _ _ _ h ↦ ⟨h.regs, h.mem⟩) env)
    (fun _ value ↦ keeps_setCsrValue (fun _ _ _ _ h _ ↦ ⟨h.regs, h.mem⟩) value)
    (fun _ _ _ h ↦ h.writeReg _ (consistent_constant _)) op

end Walk

section Run

variable (env : Env)

theorem consistent_executeOther (op : Opcode) :
    Keeps (State.Consistent env.inputs) (executeOther env op) := by
  unfold executeOther
  split
  case h_1 => exact keeps_raiseIllegalInstruction
  case h_2 | h_3 =>
    exact Keeps.read_bind fun _ _ ↦ Keeps.bind (consistent_jumpAndLink _) fun _ ↦ Keeps.ret _
  case h_4 | h_5 | h_6 => exact Keeps.bind (consistent_execStore _ _) fun _ ↦ Keeps.ret _
  case h_7 | h_8 | h_9 => exact consistent_execLoad _ fun _ ↦ consistent_loadSigned _ _
  case h_10 | h_11 => exact consistent_execLoad _ fun _ ↦ consistent_loadUnsigned _ _
  case h_12 | h_13 => exact Keeps.ret _
  case h_14 => exact Keeps.bind (consistent_keptByCalls env).execEcall fun _ ↦ Keeps.ret _
  case h_15 => exact Keeps.bind (Keeps.update fun _ h ↦ ⟨h.regs, h.mem⟩) fun _ ↦ Keeps.ret _
  case h_16 | h_17 | h_18 | h_19 | h_20 | h_21 =>
    exact Keeps.bind (consistent_execCsr env _) fun _ ↦ Keeps.ret _
  case h_22 =>
    refine Keeps.bind (Keeps.bind (Keeps.update fun _ h ↦ ⟨h.regs, h.mem⟩) fun _ ↦ ?_)
      fun _ ↦ Keeps.ret _
    exact Keeps.read_bind fun _ _ ↦
      Keeps.bind keeps_raiseIllegalInstructionIf fun _ ↦ keeps_raiseIllegalInstructionIf
  case h_23 => exact Keeps.bind (Keeps.update fun _ h ↦ ⟨h.regs, h.mem⟩) fun _ ↦ Keeps.ret _
  case h_24 => exact Keeps.raise _

theorem consistent_execute : Keeps (State.Consistent env.inputs) (execute env) := by
  refine Keeps.read_bind fun s h ↦ ?_
  split
  case h_1 value hvalue =>
    exact Keeps.bind (consistent_writeReg _ (h.registerResult hvalue)) fun _ ↦ Keeps.ret _
  case h_2 =>
    split
    · exact Keeps.bind (consistent_execBranch _) fun _ ↦ Keeps.ret _
    · exact consistent_executeOther env _

theorem consistent_execStep : Keeps (State.Consistent env.inputs) (execStep env) :=
  Keeps.bind consistent_fetch fun _ ↦ Keeps.bind consistent_decode fun _ ↦
    Keeps.bind keeps_classifyOperands fun _ ↦ Keeps.bind (consistent_execute env) fun _ ↦
      keeps_cover (fun _ _ h ↦ ⟨h.regs, h.mem⟩) env _

theorem consistent_switchToTrapHandler {σ : Assignment} (mode : Nat) :
    Keeps (State.Consistent σ) (switchToTrapHandler mode) :=
  Keeps.bind (Keeps.update fun _ h ↦ ⟨h.regs, h.mem⟩) fun _ ↦
    Keeps.ite (Keeps.update fun _ h ↦ ⟨h.regs, h.mem⟩)
      (Keeps.bind (Keeps.update fun _ h ↦ ⟨h.regs, h.mem⟩) fun _ ↦ Keeps.raise _)

theorem consistent_takePendingInterrupt {σ : Assignment} :
    Keeps (State.Consistent σ) takePendingInterrupt := by
  refine Keeps.read_bind fun s _ ↦ ?_
  split
  · exact Keeps.ret _
  · refine Keeps.bind ?_ fun _ ↦ consistent_switchToTrapHandler _
    unfold prepareInterrupt
    split
    · exact Keeps.raise _
    · exact Keeps.ite (Keeps.update fun _ h ↦ ⟨h.regs, h.mem⟩) (Keeps.raise _)

theorem consistent_takeTrap {σ : Assignment} (e : Thrown) :
    Keeps (State.Consistent σ) (takeTrap e) := by
  cases e with
  | trap reason mtval =>
    refine Keeps.bind ?_ fun _ ↦ consistent_switchToTrapHandler _
    refine Keeps.bind (Keeps.update fun _ h ↦ ⟨h.regs, h.mem⟩) fun _ ↦ Keeps.read_bind fun _ _ ↦
      Keeps.bind keeps_ensure fun _ ↦ Keeps.bind ?_ fun _ ↦ Keeps.ret _
    exact Keeps.bind (Keeps.update fun _ h ↦ ⟨h.regs, h.mem⟩) fun _ ↦
      Keeps.ite (Keeps.raise _) (Keeps.update fun _ h ↦ ⟨h.regs, h.mem⟩)
  | host error => exact Keeps.raise _

theorem consistent_runStep : Keeps (State.Consistent env.inputs) (runStep env) := by
  refine Keeps.read_bind fun _ _ ↦ Keeps.bind keeps_ensure fun _ ↦
    Keeps.ite (Keeps.update fun _ h ↦ ⟨h.regs, h.mem⟩) (Keeps.bind
      (Keeps.update fun _ h ↦ ⟨h.regs, h.mem⟩) fun _ ↦ Keeps.bind (Keeps.handle ?_
        consistent_takeTrap) fun _ ↦ Keeps.update fun _ h ↦ ?_)
  · exact Keeps.bind (consistent_execStep env) fun _ ↦ consistent_takePendingInterrupt
  · have hzero := h.writeReg RegFile.zero (consistent_constant 0#32)
    exact ⟨hzero.regs, hzero.mem⟩

end Run

theorem State.Initial.consistent {s : State} (h : s.Initial) (σ : Assignment) :
    s.Consistent σ where
  regs := by
    intro i
    obtain ⟨value, hvalue⟩ := h.regs i
    rw [hvalue]
    exact consistent_constant value
  mem := by
    intro a byte hbyte
    obtain ⟨value, rfl⟩ := h.mem a byte hbyte
    exact ConcolicValue.consistent_of_symbolic_eq_none rfl

theorem Reachable.consistent {env : Env} {s : State} (h : Reachable env s) :
    s.Consistent env.inputs := by
  induction h with
  | init hinit => exact hinit.consistent _
  | step _ hstep ih => exact (consistent_runStep env).of_ok ih hstep
  | irq irq _ ih =>
    unfold State.interrupt
    split
    · exact ⟨ih.regs, ih.mem⟩
    · exact ih

/-- In every state that a core reaches, the two parts of each register and each byte of the memory
have the same width and, under the inputs, the same value. -/
theorem reachable_concolic_consistent {env : Env} {s : State} (h : Reachable env s) :
    (∀ i, (s.regs i).concrete.width = 32 ∧ ∀ e, (s.regs i).symbolic = some e →
      e.eval env.inputs = (s.regs i).concrete ∧ e.getWidth = 32) ∧
    ∀ addr byte, s.mem.data addr = some byte → byte.concrete.width = 8 ∧
      ∀ e, byte.symbolic = some e → e.eval env.inputs = byte.concrete ∧ e.getWidth = 8 := by
  have hconsistent := h.consistent
  have hwidth : ∀ {value : ConcolicValue} {n : Nat}, value.Consistent env.inputs →
      value.concrete.width = n → ∀ e, value.symbolic = some e →
        e.eval env.inputs = value.concrete ∧ e.getWidth = n := by
    intro value n hvalue hn e he
    refine ⟨hvalue e he, ?_⟩
    rw [← Expr.width_eval env.inputs e, hvalue e he, hn]
  constructor
  · intro i
    exact ⟨s.regs.width_value i, hwidth (hconsistent.regs i) (s.regs.width_value i)⟩
  · intro addr byte hbyte
    have h8 : byte.concrete.width = 8 := s.mem.width_data addr byte hbyte
    exact ⟨h8, hwidth (hconsistent.mem addr byte hbyte) h8⟩

/-- `li a7, 95; li a0, 5; ecall; addi x6, x5, 1`: the first three make `x5` symbolic. -/
def symbolicRegister : List (BitVec 8) :=
  [0x93#8, 0x08#8, 0xf0#8, 0x05#8, 0x13#8, 0x05#8, 0x50#8, 0x00#8, 0x73#8, 0x00#8, 0x00#8, 0x00#8,
    0x13#8, 0x83#8, 0x12#8, 0x00#8]

theorem reachable_concolic_consistent_addi :
    ∃ s e, Reachable bootEnv s ∧ (s.regs 6#5).symbolic = some e ∧
      e.eval bootEnv.inputs = (s.regs 6#5).concrete ∧ e.getWidth = 32 := by
  have hreach : Reachable bootEnv (stateAfter (runSteps bootEnv 4) (bootSystem symbolicRegister)) :=
    (Reachable.init (bootSystem_initial _)).run (eq_ok_of_returns (by decide +kernel))
  have hsome : (((stateAfter (runSteps bootEnv 4)
      (bootSystem symbolicRegister)).regs 6#5).symbolic).isSome = true := by
    decide +kernel
  obtain ⟨e, he⟩ := Option.isSome_iff_exists.mp hsome
  exact ⟨_, e, hreach, he, ((reachable_concolic_consistent hreach).1 6#5).2 e he⟩

end CoverageVP.Iss
