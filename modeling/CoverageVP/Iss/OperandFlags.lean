import CoverageVP.Iss.HostErrors

/-!
# What is counted with an executed instruction

An executed address is counted together with three flags: whether an operand is tainted, whether one
has a symbolic part, and whether a symbolic part was dropped. The first two are computed from the
format of the instruction, the third in the execution of loads. They are compared with the registers
that an instruction reads, and with the places where the concrete part of a symbolic value decides
on an address, a jump target or the value of a control and status register.
-/

namespace CoverageVP.Iss

open Lib Clover Instr

/-! ## The arguments of the coverage -/

/-- A step up to the point where its address is counted. -/
def coverArguments (env : Env) : IssM OperandFlags := do
  fetch
  decode
  let flags ← classifyOperands
  let init ← execute env
  return ⟨flags.1, flags.2, init⟩

theorem execStep_eq_cover (env : Env) : execStep env = coverArguments env >>= cover env := by
  simp only [execStep, coverArguments, bind_assoc, pure_bind]

/-- A retired instruction is counted, with the flags that were computed for it. -/
theorem exists_coverArguments {env : Env} {s s' : State} (h : execStep env s = .ok () s') :
    ∃ flags s₁, coverArguments env s = .ok flags s₁ ∧ cover env flags s₁ = .ok () s' := by
  rw [execStep_eq_cover] at h
  exact exists_ok_of_bind_eq_ok h

/-- What is classified and executed is the fetched word, in a state that is otherwise as before. -/
theorem triple_coverArguments {env : Env} {s : State} {Q : OperandFlags → State → Prop}
    (h : ∀ word s', Decoded s word s' → Triple (· = s')
      (do
        let flags ← classifyOperands
        let init ← execute env
        return ⟨flags.1, flags.2, init⟩) Q fun _ _ ↦ True) :
    Triple (· = s) (coverArguments env) Q fun _ _ ↦ True := by
  have hassoc : coverArguments env = (do fetch; decode) >>= fun _ ↦ do
      let flags ← classifyOperands
      let init ← execute env
      return ⟨flags.1, flags.2, init⟩ := by
    simp only [coverArguments, bind_assoc]
  rw [hassoc]
  refine Triple.bind (triple_fetch_decode s) fun _ ↦ Triple.of_start fun s' hs' ↦ ?_
  obtain ⟨word, hdecoded⟩ := hs'
  exact h word s' hdecoded

/-! ## Concretised values -/

/-- The operations that read memory. -/
def isLoad : Opcode → Bool
  | .LB | .LH | .LW | .LBU | .LHU => true
  | _ => false

/-- The operations that use the concrete part of their first source register alone: as an address, a
jump target, or a value for a control and status register. Without a register to set or clear bits
with, nothing is written. -/
def usesConcrete (op : Opcode) (rs1 : BitVec 5) : Bool :=
  match op with
  | .LB | .LH | .LW | .LBU | .LHU | .SB | .SH | .SW | .JALR | .CSRRW => true
  | .CSRRS | .CSRRC => rs1 ≠ RegFile.zero
  | _ => false

theorem add_symbolic_isSome (a b : ConcolicValue) :
    (a.add b).symbolic.isSome = (a.symbolic.isSome || b.symbolic.isSome) := by
  simp only [ConcolicValue.add, ConcolicValue.binaryOperator]
  cases a.symbolic.isSome || b.symbolic.isSome <;> rfl

theorem iImm_symbolic (s : State) : s.iImm.symbolic = none := rfl

/-- The flag of an executed instruction is that of the address of a load. -/
theorem triple_execute_init (env : Env) (s : State) :
    Triple (· = s) (execute env)
      (fun init _ ↦ init = (isLoad s.op && (s.regs s.rs1).symbolic.isSome)) fun _ _ ↦ True := by
  have hnot : ∀ {m : IssM Unit} {op : Opcode}, isLoad op = false →
      Triple (· = s) (do m; return false)
        (fun init _ ↦ init = (isLoad op && (s.regs s.rs1).symbolic.isSome)) fun _ _ ↦ True :=
    fun h ↦ Triple.bind (Triple.true_true _) fun _ ↦ Triple.ret fun _ _ ↦ by
      rw [h]
      rfl
  have hload : ∀ alignment load, Triple (· = s) (execLoad alignment load)
      (fun init _ ↦ init = (s.regs s.rs1).symbolic.isSome) fun _ _ ↦ True := by
    intro alignment load
    refine Triple.read_bind fun s' hs' ↦ ?_
    rw [hs']
    refine Triple.bind (Triple.true_true _) fun _ ↦ Triple.bind (Triple.true_true _) fun _ ↦
      Triple.bind (Triple.true_true _) fun _ ↦ ?_
    have haddr : ((s.regs s.rs1).add s.iImm).symbolic.isSome = (s.regs s.rs1).symbolic.isSome := by
      rw [add_symbolic_isSome, iImm_symbolic, Option.isSome_none, Bool.or_false]
    unfold taintLoaded
    rw [haddr]
    refine Triple.ite (fun hsome ↦ ?_) fun hnone ↦ ?_
    · exact Triple.bind (Triple.true_true _) fun _ ↦ Triple.ret fun _ _ ↦ hsome.symm
    · exact Triple.ret fun _ _ ↦ (Bool.eq_false_of_not_eq_true hnone).symm
  refine Triple.read_bind fun s' hs' ↦ ?_
  rw [hs']
  generalize s.op = op
  split
  case h_1 value hvalue =>
    refine hnot ?_
    cases op <;> first
      | rfl
      | cases hvalue
  split
  case h_1 res hres =>
    refine hnot ?_
    cases op <;> first
      | rfl
      | cases hres
  case h_2 hbranch =>
    unfold executeOther
    split
    case h_1 => exact triple_raiseIllegalInstruction fun _ _ ↦ trivial
    case h_2 | h_3 => exact Triple.read_bind fun s' hs' ↦ hs' ▸ hnot rfl
    case h_4 | h_5 | h_6 => exact hnot rfl
    case h_7 | h_8 | h_9 | h_10 | h_11 => exact hload _ _
    case h_12 | h_13 => exact Triple.ret fun _ _ ↦ rfl
    case h_14 | h_15 | h_16 | h_17 | h_18 | h_19 | h_20 | h_21 | h_22 | h_23 => exact hnot rfl
    case h_24 => exact Triple.raise fun _ _ ↦ trivial

/-- The first source register of the instruction that is executed for a word. -/
def firstSource (word : BitVec 32) : BitVec 5 := (decodeWord word).2.rs1.setWidth 5

def secondSource (word : BitVec 32) : BitVec 5 := (decodeWord word).2.rs2.setWidth 5

/-- The instruction uses the concrete part of a value that has a symbolic part. -/
def Concretises (s : State) (word : BitVec 32) : Prop :=
  usesConcrete (decodeWord word).1 (firstSource word) = true ∧
    (s.regs (firstSource word)).symbolic.isSome = true

theorem triple_coverArguments_init (env : Env) {s : State} {word : BitVec 32}
    (hword : s.fetchedWord = some word) :
    Triple (· = s) (coverArguments env)
      (fun flags _ ↦ flags.init = (isLoad (decodeWord word).1 &&
        (s.regs (firstSource word)).symbolic.isSome)) fun _ _ ↦ True := by
  refine triple_coverArguments fun word' s₁ hs₁ ↦ ?_
  obtain rfl : word' = word := Option.some.inj (hs₁.fetchedWord.symm.trans hword)
  refine Triple.bind (Q := fun _ s₂ ↦ s₂ = s₁) (keeps_classifyOperands.conseq
    (fun _ h ↦ h) (fun _ _ h ↦ h) fun _ _ _ ↦ trivial) fun flags ↦
    Triple.bind (triple_execute_init env s₁) fun init ↦ Triple.ret fun _ h ↦ ?_
  rw [h, hs₁.op, State.rs1, hs₁.instr, hs₁.regs, firstSource]

theorem usesConcrete_of_isLoad {op : Opcode} (h : isLoad op = true) (rs1 : BitVec 5) :
    usesConcrete op rs1 = true := by
  cases op <;> first
    | rfl
    | cases h

/-- A retired instruction is counted with the right third flag exactly if it is a load or drops no
symbolic part. -/
theorem execStep_reports_concretisation_iff {env : Env} {s s' : State} {word : BitVec 32}
    (hword : s.fetchedWord = some word) (hstep : execStep env s = .ok () s') :
    ∃ flags s₁, coverArguments env s = .ok flags s₁ ∧ cover env flags s₁ = .ok () s' ∧
      ((flags.init = true ↔ Concretises s word) ↔
        isLoad (decodeWord word).1 = true ∨ ¬ Concretises s word) := by
  obtain ⟨flags, s₁, harguments, hcover⟩ := exists_coverArguments hstep
  refine ⟨flags, s₁, harguments, hcover, ?_⟩
  rw [(triple_coverArguments_init env hword).of_ok rfl harguments, Bool.and_eq_true]
  constructor
  · intro h
    by_cases hc : Concretises s word
    · exact .inl (h.mpr hc).1
    · exact .inr hc
  · rintro (hload | hc)
    · rw [Concretises, hload, usesConcrete_of_isLoad hload]
    · exact iff_of_false (fun h ↦ hc ⟨usesConcrete_of_isLoad h.1 _, h.2⟩) hc

/-- A state in which `x5` is symbolic, before the first of some instructions. -/
def afterSymbolic (words : List Instruction) : State :=
  stateAfter (runSteps bootEnv 3) (bootSystem (assemble (makeSymbolic ++ words)))

theorem afterSymbolic_reachable {words : List Instruction}
    (h : returns (runSteps bootEnv 3) (bootSystem (assemble (makeSymbolic ++ words))) = true) :
    Reachable bootEnv (afterSymbolic words) :=
  (Reachable.init (bootSystem_initial _)).run (eq_ok_of_returns h)

/-- `lw x6, 0(x5)` with a symbolic `x5` -/
def loadSymbolic : State := afterSymbolic [0x0002a303#32]

theorem execStep_reports_concretisation_load :
    ∃ flags s₁ s', coverArguments bootEnv loadSymbolic.started = .ok flags s₁ ∧
      cover bootEnv flags s₁ = .ok () s' ∧ Concretises loadSymbolic.started 0x0002a303#32 ∧
      flags.init = true := by
  have hword : loadSymbolic.started.fetchedWord = some 0x0002a303#32 := by decide +kernel
  have hreturns : returns (execStep bootEnv) loadSymbolic.started = true := by decide +kernel
  have hconcretises : Concretises loadSymbolic.started 0x0002a303#32 :=
    ⟨by decide +kernel, by decide +kernel⟩
  obtain ⟨flags, s₁, harguments, hcover, hiff⟩ :=
    execStep_reports_concretisation_iff hword (eq_ok_of_returns hreturns)
  have hreports := hiff.mpr (.inl (by decide +kernel))
  exact ⟨flags, s₁, _, harguments, hcover, hconcretises, hreports.mpr hconcretises⟩

/-- `sw x0, 0(x5)` with a symbolic `x5` -/
def storeSymbolic : State := afterSymbolic [0x0002a023#32]

/-- A store drops the symbolic part of its address and does not report it. -/
theorem execStep_hides_concretisation_of_store :
    ∃ flags s₁ s', Reachable bootEnv storeSymbolic ∧
      execStep bootEnv storeSymbolic.started = .ok () s' ∧
      coverArguments bootEnv storeSymbolic.started = .ok flags s₁ ∧
      storeSymbolic.started.fetchedWord = some 0x0002a023#32 ∧
      Concretises storeSymbolic.started 0x0002a023#32 ∧ flags.init = false := by
  exact ⟨⟨false, true, false⟩, _, _, afterSymbolic_reachable (by decide +kernel),
    eq_ok_of_returns (by decide +kernel), eq_ok_of_result (by decide +kernel), by decide +kernel,
    ⟨by decide +kernel, by decide +kernel⟩, rfl⟩

/-! ## Operands -/

/-- The registers that an operation reads as its encoded operands. -/
def sourceRegisters (op : Opcode) (rs1 rs2 : BitVec 5) : List (BitVec 5) :=
  match op with
  | .BEQ | .BNE | .BLT | .BGE | .BLTU | .BGEU | .SB | .SH | .SW
  | .ADD | .SUB | .SLL | .SLT | .SLTU | .XOR | .SRL | .SRA | .OR | .AND => [rs1, rs2]
  | .JALR | .LB | .LH | .LW | .LBU | .LHU
  | .ADDI | .SLTI | .SLTIU | .XORI | .ORI | .ANDI | .SLLI | .SRLI | .SRAI
  | .CSRRW | .CSRRS | .CSRRC => [rs1]
  | _ => []

def isShiftImmediate : Opcode → Bool
  | .SLLI | .SRLI | .SRAI => true
  | _ => false

def isCsrRegister : Opcode → Bool
  | .CSRRW | .CSRRS | .CSRRC => true
  | _ => false

/-- A property of the two registers that the fields of an instruction name is attributed to the
operands: no shift amount names a register that has it while the operand has not, and the operand
of a CSR instruction does not have it. -/
def Attributed (op : Opcode) (first second : Bool) : Prop :=
  (isShiftImmediate op = true → second = true → first = true) ∧
    (isCsrRegister op = true → first = false)

section Operands

variable {op : Opcode} (s : State)

/-- The formats agree with the registers that are read, but for two groups of operations. -/
theorem operands_eq_sourceRegisters (hop : implemented op = true)
    (hshift : isShiftImmediate op = false) (hcsr : isCsrRegister op = false) :
    s.operands (getType op) = sourceRegisters op s.rs1 s.rs2 := by
  cases op <;> first
    | rfl
    | contradiction

theorem operands_of_isShiftImmediate (h : isShiftImmediate op = true) :
    s.operands (getType op) = [s.rs1, s.rs2] ∧ sourceRegisters op s.rs1 s.rs2 = [s.rs1] := by
  cases op <;> first
    | exact ⟨rfl, rfl⟩
    | cases h

theorem operands_of_isCsrRegister (h : isCsrRegister op = true) :
    s.operands (getType op) = [] ∧ sourceRegisters op s.rs1 s.rs2 = [s.rs1] := by
  cases op <;> first
    | exact ⟨rfl, rfl⟩
    | cases h

theorem isCsrRegister_of_isShiftImmediate (h : isShiftImmediate op = true) :
    isCsrRegister op = false := by
  cases op <;> first
    | rfl
    | cases h

theorem operands_any_eq_iff (hop : implemented op = true) (p : BitVec 5 → Bool) :
    (s.operands (getType op)).any p = (sourceRegisters op s.rs1 s.rs2).any p ↔
      Attributed op (p s.rs1) (p s.rs2) := by
  unfold Attributed
  cases hshift : isShiftImmediate op with
  | true =>
    obtain ⟨hoperands, hsources⟩ := operands_of_isShiftImmediate s hshift
    rw [hoperands, hsources, isCsrRegister_of_isShiftImmediate hshift]
    simp only [List.any_cons, List.any_nil, Bool.or_false]
    cases p s.rs1 <;> cases p s.rs2 <;> decide
  | false =>
    cases hcsr : isCsrRegister op with
    | true =>
      obtain ⟨hoperands, hsources⟩ := operands_of_isCsrRegister s hcsr
      rw [hoperands, hsources]
      simp
    | false =>
      rw [operands_eq_sourceRegisters s hop hshift hcsr]
      simp

end Operands

/-- Only implemented operations are executed. -/
theorem triple_execute_implemented (env : Env) (s : State) :
    Triple (· = s) (execute env) (fun _ _ ↦ implemented s.op = true) fun _ _ ↦ True := by
  cases hop : implemented s.op with
  | true => exact Triple.post (Triple.true_true _) fun _ _ _ ↦ rfl
  | false =>
    obtain ⟨hregister, hbranch⟩ := results_of_not_implemented hop s
    refine Triple.read_bind fun s' hs' ↦ ?_
    rw [hs', hregister, hbranch, executeOther_of_not_implemented hop]
    exact Triple.raise fun _ _ ↦ trivial

/-- The flags of the operands, as the registers that are read give them. -/
structure FlagsOfSources (s : State) (word : BitVec 32) (flags : OperandFlags) : Prop where
  tainted : flags.tainted =
    (sourceRegisters (decodeWord word).1 (firstSource word) (secondSource word)).any
      fun r ↦ (s.regs r).tainted
  symbolic : flags.symbolic =
    (sourceRegisters (decodeWord word).1 (firstSource word) (secondSource word)).any
      fun r ↦ (s.regs r).symbolic.isSome

theorem triple_coverArguments_operands (env : Env) {s : State} {word : BitVec 32} {cov : Coverage}
    (hcov : s.coverage = some cov) (hword : s.fetchedWord = some word) :
    Triple (· = s) (coverArguments env)
      (fun flags _ ↦ ∃ d : State, Decoded s word d ∧ implemented d.op = true ∧
        flags.tainted = (d.operands (getType d.op)).any (fun r ↦ (d.regs r).tainted) ∧
        flags.symbolic = (d.operands (getType d.op)).any fun r ↦ (d.regs r).symbolic.isSome)
      fun _ _ ↦ True := by
  refine triple_coverArguments fun word' d hd ↦ ?_
  obtain rfl : word' = word := Option.some.inj (hd.fetchedWord.symm.trans hword)
  have hclassify : Triple (· = d) classifyOperands
      (fun flags s' ↦ s' = d ∧
        flags.1 = (d.operands (getType d.op)).any (fun r ↦ (d.regs r).tainted) ∧
        flags.2 = (d.operands (getType d.op)).any fun r ↦ (d.regs r).symbolic.isSome)
      fun _ _ ↦ True := by
    refine Triple.read_bind fun s' hs' ↦ ?_
    rw [hs', hd.coverage, hcov]
    exact Triple.ite (fun _ ↦ Triple.raise fun _ _ ↦ trivial) fun _ ↦
      Triple.ret fun _ h ↦ ⟨h, rfl, rfl⟩
  refine Triple.bind hclassify fun flags ↦ Triple.of_start fun s' hs' ↦ ?_
  obtain ⟨rfl, htainted, hsymbolic⟩ := hs'
  exact Triple.bind (triple_execute_implemented env s') fun init ↦
    Triple.ret fun _ h ↦ ⟨s', hd, h, htainted, hsymbolic⟩

/-- A retired instruction is counted with the flags of the registers it reads exactly if the flags
are attributed to them. -/
theorem execStep_classifies_operands_iff {env : Env} {s s' : State} {word : BitVec 32}
    {cov : Coverage} (hcov : s.coverage = some cov) (hword : s.fetchedWord = some word)
    (hstep : execStep env s = .ok () s') :
    ∃ flags s₁, coverArguments env s = .ok flags s₁ ∧ cover env flags s₁ = .ok () s' ∧
      (FlagsOfSources s word flags ↔
        Attributed (decodeWord word).1 (s.regs (firstSource word)).tainted
            (s.regs (secondSource word)).tainted ∧
          Attributed (decodeWord word).1 (s.regs (firstSource word)).symbolic.isSome
            (s.regs (secondSource word)).symbolic.isSome) := by
  obtain ⟨flags, s₁, harguments, hcover⟩ := exists_coverArguments hstep
  obtain ⟨d, hd, hop, htainted, hsymbolic⟩ :=
    (triple_coverArguments_operands env hcov hword).of_ok rfl harguments
  have hrs1 : d.rs1 = firstSource word := by rw [State.rs1, hd.instr, firstSource]
  have hrs2 : d.rs2 = secondSource word := by rw [State.rs2, hd.instr, secondSource]
  have htaintedIff := operands_any_eq_iff d hop fun r ↦ (d.regs r).tainted
  have hsymbolicIff := operands_any_eq_iff d hop fun r ↦ (d.regs r).symbolic.isSome
  rw [← htainted, hrs1, hrs2, hd.op, hd.regs] at htaintedIff
  rw [← hsymbolic, hrs1, hrs2, hd.op, hd.regs] at hsymbolicIff
  refine ⟨flags, s₁, harguments, hcover, ?_⟩
  rw [← htaintedIff, ← hsymbolicIff]
  exact ⟨fun h ↦ ⟨h.tainted, h.symbolic⟩, fun h ↦ ⟨h.1, h.2⟩⟩

/-- `lw x6, 0(x5); add x7, x5, x6`, after the load of a tainted `x6` -/
def addTainted : State :=
  stateAfter (runStep bootEnv) (afterSymbolic [0x0002a303#32, 0x006283b3#32])

theorem execStep_classifies_operands_add :
    ∃ flags s₁, coverArguments bootEnv addTainted.started = .ok flags s₁ ∧
      FlagsOfSources addTainted.started 0x006283b3#32 flags ∧
      (addTainted.regs 5#5).symbolic.isSome = true ∧ (addTainted.regs 6#5).tainted = true := by
  have hword : addTainted.started.fetchedWord = some 0x006283b3#32 := by decide +kernel
  have hreturns : returns (execStep bootEnv) addTainted.started = true := by decide +kernel
  have hcov : addTainted.started.coverage.isSome = true := by decide +kernel
  obtain ⟨cov, hcov⟩ := Option.isSome_iff_exists.mp hcov
  obtain ⟨flags, s₁, harguments, -, hiff⟩ :=
    execStep_classifies_operands_iff hcov hword (eq_ok_of_returns hreturns)
  refine ⟨flags, s₁, harguments, hiff.mpr ⟨⟨fun h ↦ ?_, fun h ↦ ?_⟩, fun h ↦ ?_, fun h ↦ ?_⟩,
    by decide +kernel, by decide +kernel⟩
  all_goals exact absurd h (by decide +kernel)

/-- `slli x6, x7, 5` with a symbolic `x5` -/
def shiftBesideSymbolic : State := afterSymbolic [0x00539313#32]

/-- The shift amount 5 is taken for the register `x5`. -/
theorem execStep_misclassifies_shift :
    ∃ flags s₁ s', Reachable bootEnv shiftBesideSymbolic ∧
      execStep bootEnv shiftBesideSymbolic.started = .ok () s' ∧
      coverArguments bootEnv shiftBesideSymbolic.started = .ok flags s₁ ∧
      shiftBesideSymbolic.started.fetchedWord = some 0x00539313#32 ∧
      ¬ FlagsOfSources shiftBesideSymbolic.started 0x00539313#32 flags := by
  exact ⟨⟨false, true, false⟩, _, _, afterSymbolic_reachable (by decide +kernel),
    eq_ok_of_returns (by decide +kernel), eq_ok_of_result (by decide +kernel), by decide +kernel,
    fun h ↦ absurd h.symbolic (by decide +kernel)⟩

end CoverageVP.Iss
