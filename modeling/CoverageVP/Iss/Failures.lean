import CoverageVP.Iss.HostErrors

/-!
# How a step can fail

The exceptions of the host with which a step may end, depending on the state before it. Assertions on
the alignment of the program counter and on `x0` are not among them if the state satisfies them, and
the privilege level is rejected only if it is the reserved one.
-/

namespace CoverageVP.Iss

open Lib Clover Instr Csr

/-- The exceptions of the host with which a step of a state may end. -/
inductive MayThrow (s : State) : HostError → Prop
  | unknownOpcode : MayThrow s (.runtimeError "unknown opcode")
  | unknownFormat : MayThrow s (.string "Opcode::Type::R4 not supported yet")
  | unsupportedSyscall (n : Nat) : MayThrow s (unsupportedSyscall n)
  | hostPointer : MayThrow s (.assertion .hostPointer)
  | sysResult : MayThrow s (.assertion .sysResult)
  | report (what : String) : MayThrow s (.report what)
  | outOfRange : MayThrow s .outOfRange
  | badLexicalCast : MayThrow s .badLexicalCast
  | nullPointer : MayThrow s .nullPointer
  | pending : MayThrow s (.runtimeError "some pending interrupt must be available here")
  | userTrap : MayThrow s (.assertion .userTrap)
  | translation (type : MemoryAccessType) : ¬ s.Translatable type →
      MayThrow s (.assertion .translationMode)
  | call : ¬ IsMode s.prv → MayThrow s (unknownPrivilegeLevel s.prv)

/-- A trap, or such an exception. -/
def EndsWith (s : State) : Thrown → Prop
  | .trap _ _ => True
  | .host error => MayThrow s error

theorem endsWith_of_isTrap (s : State) (e : Thrown) (h : e.IsTrap) : EndsWith s e := by
  cases e with
  | trap reason mtval => trivial
  | host error => exact h.elim

/-! ## Programs that fail independently of the state -/

/-- The program ends with such exceptions only, in whichever state it starts. -/
def Ends {α : Type} (s₀ : State) (m : IssM α) : Prop :=
  Triple (fun _ ↦ True) m (fun _ _ ↦ True) fun e _ ↦ EndsWith s₀ e

section Ends

variable {α β : Type} {s₀ : State}

theorem Ends.ret (a : α) : Ends s₀ (pure a) := Triple.ret fun _ h ↦ h

theorem Ends.raise {error : HostError} (h : MayThrow s₀ error) :
    Ends s₀ (hostError error : IssM α) :=
  Triple.raise fun _ _ ↦ h

theorem Ends.bind {m : IssM α} {f : α → IssM β} (hm : Ends s₀ m) (hf : ∀ a, Ends s₀ (f a)) :
    Ends s₀ (m >>= f) :=
  Triple.bind hm hf

theorem Ends.read_bind {f : State → IssM β} (hf : ∀ s, Ends s₀ (f s)) : Ends s₀ (get >>= f) :=
  Triple.read_bind fun s _ ↦ Triple.pre (hf s) fun _ _ ↦ trivial

theorem Ends.ite {c : Prop} [Decidable c] {m m' : IssM α} (hm : Ends s₀ m) (hm' : Ends s₀ m') :
    Ends s₀ (if c then m else m') :=
  Triple.ite (fun _ ↦ hm) fun _ ↦ hm'

theorem Ends.update (f : State → State) : Ends s₀ (modify f : IssM Unit) :=
  Triple.update fun _ _ ↦ trivial

theorem Ends.of_any {P : State → Prop} {m : IssM α} (h : Ends s₀ m) :
    Triple P m (fun _ _ ↦ True) fun e _ ↦ EndsWith s₀ e :=
  Triple.pre h fun _ _ ↦ trivial

theorem ends_callHost (env : Env) : Ends s₀ (callHost env) :=
  Ends.read_bind fun _ ↦ Ends.bind (Ends.update _) fun _ ↦ Ends.ret _

theorem ends_lexicalCastInt (value : Int) : Ends s₀ (lexicalCastInt value) := by
  unfold lexicalCastInt
  exact Ends.ite (Ends.ret _) (Ends.raise .badLexicalCast)

theorem ends_guestToHostPointer : Ends s₀ (guestToHostPointer : IssM α) := Ends.raise .hostPointer

theorem ends_transportWrite (addr : BitVec 64) (data : ConcolicValue) (n : Nat) :
    Ends s₀ (transportWrite addr data n) :=
  (trapsOnly_transportWrite addr data n).throws (endsWith_of_isTrap s₀)

theorem ends_writeResult (ans : Int) : Ends s₀ (writeResult ans) :=
  Ends.bind (triple_ensure (fun _ _ _ ↦ trivial) fun _ _ _ ↦ .sysResult) fun _ ↦ Ends.update _

theorem ends_classifyOperands : Ends s₀ classifyOperands := by
  refine Ends.read_bind fun s ↦ ?_
  split
  · exact Ends.ret _
  · exact Ends.ite (Ends.raise .unknownFormat) (Ends.ret _)

/-- A function or a line that is missing is the only failure of the coverage itself. -/
theorem Coverage.error_coverSources (addr : BitVec 64) (flags : OperandFlags)
    (sources : List SourceInfo) :
    Triple (fun _ ↦ True) (coverSources addr flags sources) (fun _ _ ↦ True)
      fun e _ ↦ e = .outOfRange := by
  induction sources with
  | nil => exact Triple.ret fun _ h ↦ h
  | cons source rest ih =>
    refine Triple.bind (Q := fun _ _ ↦ True) (fun cov _ ↦ ?_) fun _ ↦ ih
    unfold coverSource
    cases cov.files[source.sourcePath]? with
    | none => trivial
    | some file =>
      dsimp only
      cases file.funcs[source.symbolName]? with
      | none => rfl
      | some func =>
        dsimp only
        cases file.lines[source.line]? with
        | none => rfl
        | some line => trivial

theorem ends_cover (env : Env) (flags : OperandFlags) : Ends s₀ (cover env flags) := by
  intro s _
  unfold cover
  cases s.coverage with
  | none => exact MayThrow.nullPointer
  | some cov =>
    have hsources := Coverage.error_coverSources (s.lastPc.setWidth 64) flags
      (env.getSources (s.lastPc.setWidth 64)) cov trivial
    dsimp only
    cases hcover : Coverage.coverSources (s.lastPc.setWidth 64) flags
        (env.getSources (s.lastPc.setWidth 64)) cov with
    | ok _ _ => trivial
    | error e _ =>
      rw [hcover] at hsources
      rw [hsources]
      exact MayThrow.outOfRange

end Ends

/-! ## Translation and calls -/

/-- The reserved mode is rejected before the page table is read. -/
theorem triple_v2p_of_not_translatable {s : State} {type : MemoryAccessType}
    (h : ¬ s.Translatable type) (vaddr : BitVec 64) :
    Triple (· = s) (v2p vaddr type) (fun _ _ ↦ False)
      fun e _ ↦ e = .host (.assertion .translationMode) := by
  simp only [State.Translatable, not_or, not_not] at h
  obtain ⟨hmmu, hsatp, hmode⟩ := h
  refine Triple.read_bind fun s' hs' ↦ ?_
  rw [hs']
  split
  case h_1 hnone => exact absurd hnone hmmu
  case h_2 =>
    refine Triple.read_bind fun s' hs' ↦ ?_
    rw [hs', if_neg hsatp, hmode, if_neg (by decide)]
    refine Triple.bind (Q := fun _ _ ↦ False)
      (triple_ensure (fun _ _ hc ↦ absurd hc (by decide)) fun _ _ _ ↦ rfl) fun _ ↦ ?_
    exact fun _ h ↦ h.elim

section Calls

variable {s₀ : State} (hprv : s₀.prv ≤ MachineMode)

include hprv

theorem endsWith_v2p (vaddr : BitVec 64) (type : MemoryAccessType) :
    Triple (Fetched s₀) (v2p vaddr type) (fun _ ↦ Fetched s₀) fun e _ ↦ EndsWith s₀ e := by
  refine Triple.of_start fun s hs ↦ ?_
  have hkeeps := Triple.pre (keeps_v2p (fetched_keptByMarks s₀) vaddr type) fun s' (h : s' = s) ↦
    h ▸ hs
  by_cases htype : s.Translatable type
  · refine ((trapsOnly_v2p (hs.prv ▸ hprv) vaddr htype).and hkeeps).conseq (fun _ h ↦ h)
      (fun _ _ h ↦ h.2) fun e _ h ↦ endsWith_of_isTrap s₀ e h.1
  · refine (triple_v2p_of_not_translatable htype vaddr).conseq (fun _ h ↦ h) (fun _ _ h ↦ h.elim)
      fun e _ h ↦ ?_
    rw [h]
    exact .translation type fun h₀ ↦ htype (hs.translatable h₀)

theorem endsWith_dispatchSyscall (env : Env) (sys : SyscallHandler) (n : Nat) (a0 a1 : BitVec 32) :
    Triple (Fetched s₀) (dispatchSyscall env sys n a0 a1) (fun _ _ ↦ True)
      fun e _ ↦ EndsWith s₀ e := by
  refine Triple.ite (fun _ ↦ Ends.of_any ?fstat) fun _ ↦ Triple.ite (fun _ ↦ Ends.of_any ?brk)
    fun _ ↦ Triple.ite (fun _ ↦ Ends.of_any ?time) fun _ ↦ Triple.ite (fun _ ↦ Ends.of_any
    ends_guestToHostPointer) fun _ ↦ Triple.ite (fun _ ↦ Ends.of_any ?lseek) fun _ ↦
    Triple.ite (fun _ ↦ Ends.of_any ?close) fun _ ↦ Triple.ite (fun _ ↦ Ends.of_any ?symReg)
    fun _ ↦ Triple.ite (fun _ ↦ ?symMem) fun _ ↦ Triple.ite (fun _ ↦ Ends.of_any
    (Ends.raise (.report _))) fun _ ↦ Triple.ite (fun _ ↦ Ends.of_any ?exit) fun _ ↦
    Ends.of_any (Ends.raise (.unsupportedSyscall n))
  case fstat =>
    exact Ends.bind (ends_callHost env) fun _ ↦ Ends.ite ends_guestToHostPointer (Ends.ret _)
  case brk =>
    exact Ends.ite (ends_lexicalCastInt _) (Ends.bind (Ends.update _) fun _ ↦ ends_lexicalCastInt _)
  case time =>
    exact Ends.bind (ends_callHost env) fun _ ↦ Ends.bind (ends_lexicalCastInt _) fun _ ↦
      Ends.ite ends_guestToHostPointer (Ends.ret _)
  case lseek => exact Ends.bind (ends_callHost env) fun _ ↦ Ends.ret _
  case close => exact Ends.ite (Ends.ret _) (ends_callHost env)
  case symReg => exact Ends.ite (Ends.ret _) (Ends.bind (Ends.update _) fun _ ↦ Ends.ret _)
  case symMem =>
    refine Triple.bind (Q := fun _ _ ↦ True) (Triple.bind (endsWith_v2p hprv _ _) fun _ ↦ ?_)
      fun _ ↦ Ends.ret _
    split
    · exact Ends.of_any (ends_transportWrite _ _ _)
    · exact Ends.of_any (Ends.raise .nullPointer)
  case exit => exact Ends.bind (Ends.update _) fun _ ↦ Ends.ret _

theorem endsWith_execEcall (env : Env) :
    Triple (Fetched s₀) (execEcall env) (fun _ _ ↦ True) fun e _ ↦ EndsWith s₀ e := by
  have hcall : Triple (Fetched s₀) raiseEcall (fun _ _ ↦ True) fun e _ ↦ EndsWith s₀ e := by
    refine Triple.read_bind fun s hs ↦ ?_
    refine Triple.ite (fun _ ↦ Triple.raise fun _ _ ↦ trivial) fun hM ↦
      Triple.ite (fun _ ↦ Triple.raise fun _ _ ↦ trivial) fun hS ↦
      Triple.ite (fun _ ↦ Triple.raise fun _ _ ↦ trivial) fun hU ↦ ?_
    rw [hs.prv] at hM hS hU ⊢
    exact Triple.raise fun _ _ ↦ .call fun h ↦ h.elim hM fun h ↦ h.elim hS hU
  refine Triple.read_bind fun s hs ↦ Triple.pre (P := Fetched s₀) ?_ fun _ h ↦ h ▸ hs
  split
  case h_1 sys _ =>
    refine Triple.ite (fun _ ↦ ?_) fun _ ↦ hcall
    refine Triple.read_bind fun s' hs' ↦ Triple.pre (P := Fetched s₀) ?_ fun _ h ↦ h ▸ hs'
    exact Triple.bind (endsWith_dispatchSyscall hprv env sys _ _ _) fun _ ↦
      Ends.bind (ends_writeResult _) fun _ ↦ Ends.update _
  case h_2 => exact hcall

theorem endsWith_outcome (env : Env) (op : Opcode) :
    Outcome env s₀ op (fun _ ↦ True) (EndsWith s₀) where
  traps := endsWith_of_isTrap s₀
  retires := fun _ _ ↦ trivial
  access := fun _ vaddr ↦ endsWith_v2p hprv vaddr .STORE
  call := fun _ ↦ endsWith_execEcall hprv env
  unknown := fun _ ↦ .unknownOpcode

end Calls

/-! ## Steps -/

theorem endsWith_execStep (env : Env) {s : State} (hprv : s.prv ≤ MachineMode)
    (halign : s.pc &&& ~~~s.pcAlignmentMask = 0#32) (hlast : s.lastPc &&& 1#32 = 0#32) :
    Triple (· = s) (execStep env) (fun _ _ ↦ True) fun e _ ↦ EndsWith s e := by
  have hfetch := triple_fetched_fetch (endsWith_of_isTrap s) halign
    fun vaddr ↦ endsWith_v2p hprv vaddr .FETCH
  refine Triple.bind hfetch fun _ ↦ Triple.of_start fun s₁ h₁ ↦ ?_
  have hdecode := (fetched_decode s s₁.instr).throws (endsWith_of_isTrap s)
  have hstart : ∀ s', s' = s₁ → Fetched s s' ∧ s'.instr = s₁.instr := by
    rintro _ rfl
    exact ⟨h₁.1, rfl⟩
  refine Triple.bind (Triple.pre hdecode hstart) fun _ ↦ ?_
  have hends : Ends s classifyOperands := ends_classifyOperands
  have hclassify := hends.of_any.and
    (keeps_classifyOperands (I := fun s' ↦ Fetched s s' ∧ s'.op = (decodeWord s₁.instr).1))
  refine Triple.bind (hclassify.conseq (fun _ h ↦ h) (fun _ _ h ↦ h.2) fun _ _ h ↦ h.1) fun flags ↦
    Triple.bind ((endsWith_outcome hprv env _).execute hlast) fun init ↦ ends_cover env _

/-- A pending interrupt is taken by one of the modes. -/
theorem ends_takePendingInterrupt {s₀ : State} : Ends s₀ takePendingInterrupt := by
  refine Triple.read_bind fun s _ ↦ ?_
  cases hpending : s.computePendingInterrupts with
  | none => exact Triple.ret fun _ _ ↦ trivial
  | some interrupt =>
    obtain ⟨mode, pending⟩ := interrupt
    have hmode : IsMode mode := (computePendingInterrupts_mode hpending).1
    refine Triple.bind (Q := fun _ _ ↦ True) ?_ fun _ ↦ ?_
    · unfold prepareInterrupt
      split
      · exact Triple.raise fun _ _ ↦ .pending
      · exact Triple.ite (fun _ ↦ Triple.update fun _ _ ↦ trivial) fun h ↦ absurd hmode h
    · exact Triple.bind (Q := fun _ _ ↦ True) (Triple.update fun _ _ ↦ trivial) fun _ ↦
        Triple.ite (fun _ ↦ Triple.update fun _ _ ↦ trivial) fun h ↦ absurd hmode h

/-- A trap is taken by one of the modes, too. -/
theorem takeTrap_mayThrow {s₀ : State} (e : Thrown) :
    Triple (fun _ ↦ EndsWith s₀ e) (takeTrap e) (fun _ _ ↦ True)
      fun e _ ↦ ∃ error, e = .host error ∧ MayThrow s₀ error := by
  cases e with
  | host error => exact Triple.raise fun _ h ↦ ⟨error, rfl, h⟩
  | trap reason mtval =>
    refine Triple.bind (Q := fun mode _ ↦ IsMode mode) ?_ fun mode ↦ ?_
    · refine Triple.bind (Q := fun _ _ ↦ True) (Triple.update fun _ _ ↦ trivial) fun _ ↦
        Triple.read_bind fun s _ ↦ ?_
      refine Triple.bind (Q := fun _ _ ↦ True)
        (triple_ensure (fun _ _ _ ↦ trivial) fun _ _ _ ↦ ⟨_, rfl, .userTrap⟩) fun _ ↦ ?_
      refine Triple.bind (Q := fun _ _ ↦ True) ?_ fun _ ↦
        Triple.ret fun _ _ ↦ s.csrs.trapTarget_mode s.prv reason
      exact Triple.bind (Q := fun _ _ ↦ True) (Triple.update fun _ _ ↦ trivial) fun _ ↦
        Triple.ite (fun _ ↦ Triple.raise fun _ _ ↦ ⟨_, rfl, .badLexicalCast⟩) fun _ ↦
          Triple.update fun _ _ ↦ trivial
    · refine Triple.bind (Q := fun _ _ ↦ IsMode mode) (Triple.update fun _ h ↦ h) fun _ ↦ ?_
      exact Triple.ite (fun _ ↦ Triple.update fun _ _ ↦ trivial) fun h _ hmode ↦ absurd hmode h

theorem runStep_mayThrow (env : Env) {s : State}
    (hzero : getValue (s.regs RegFile.zero) = 0#32) (hprv : s.prv ≤ MachineMode)
    (halign : s.pc &&& ~~~s.pcAlignmentMask = 0#32) (heven : s.pc &&& 1#32 = 0#32) :
    Triple (· = s) (runStep env) (fun _ _ ↦ True)
      fun e _ ↦ ∃ error, e = .host error ∧ MayThrow s.started error := by
  refine Triple.read_bind fun s' hs' ↦ ?_
  rw [hs']
  refine Triple.bind (Q := fun _ s' ↦ s' = s)
    (triple_ensure (fun _ h _ ↦ h) fun _ _ hc ↦ absurd hzero hc) fun _ ↦ ?_
  refine Triple.ite (fun _ ↦ Triple.update fun _ _ ↦ trivial) fun _ ↦ ?_
  refine Triple.bind (Q := fun _ s' ↦ s' = s.started) (Triple.update fun s' h ↦ by rw [h])
    fun _ ↦ ?_
  refine Triple.bind (Q := fun _ _ ↦ True) (Triple.handle (F := fun e _ ↦ EndsWith s.started e)
    (Triple.bind (endsWith_execStep env hprv halign heven) fun _ ↦ ends_takePendingInterrupt)
    takeTrap_mayThrow) fun _ ↦ Triple.update fun _ _ ↦ trivial

end CoverageVP.Iss
