import CoverageVP.Iss.Reachable

/-!
# Exceptions of the host

When an instruction ends with an exception of the host, and when it retires or raises a trap of the
guest. The decoders return operations that the core does not implement; the coverage is used without
a test whether it is there, and knows only what the debug information listed; and privilege level 2,
which a return from a handler can select, is rejected by assertions.
-/

namespace CoverageVP.Iss

open Lib Clover Instr Csr

/-! ## Programs that only raise traps -/

def Thrown.IsTrap : Thrown → Prop
  | .trap _ _ => True
  | .host _ => False

/-- A program that throws traps of the guest only. -/
def TrapsOnly {α : Type} (P : State → Prop) (m : IssM α) (Q : α → State → Prop) : Prop :=
  Triple P m Q fun e _ ↦ e.IsTrap

namespace TrapsOnly

variable {α β : Type} {P : State → Prop} {m : IssM α} {Q : α → State → Prop}

theorem bind {f : α → IssM β} {R : β → State → Prop} (hm : TrapsOnly P m Q)
    (hf : ∀ a, TrapsOnly (Q a) (f a) R) : TrapsOnly P (m >>= f) R :=
  Triple.bind hm hf

theorem update {f : State → State} {Q : Unit → State → Prop} (h : ∀ s, P s → Q () (f s)) :
    TrapsOnly P (modify f : IssM Unit) Q :=
  Triple.update h

theorem ret {a : α} (h : ∀ s, P s → Q a s) : TrapsOnly P (pure a) Q := Triple.ret h

/-- What every outcome keeps, the returned state keeps. -/
theorem and_keeps {I : State → Prop} (h : TrapsOnly P m Q) (hI : Keeps I m) :
    TrapsOnly (fun s ↦ P s ∧ I s) m fun a s ↦ Q a s ∧ I s := by
  refine ((Triple.pre h fun _ h ↦ h.1).and (Triple.pre hI fun _ h ↦ h.2)).conseq
    (fun _ h ↦ h) (fun _ _ h ↦ h) fun _ _ h ↦ h.1

end TrapsOnly

section Raise

variable {P : State → Prop} {c : Prop} [Decidable c]

theorem trapsOnly_raiseTrapIf (reason : ExceptionCode) (mtval : BitVec 64) :
    TrapsOnly P (raiseTrapIf c reason mtval) fun _ ↦ P :=
  triple_raiseTrapIf (fun _ h _ ↦ h) fun _ _ _ ↦ trivial

theorem trapsOnly_raiseIllegalInstruction {α : Type} {Q : α → State → Prop} :
    TrapsOnly P (raiseIllegalInstruction : IssM α) Q :=
  triple_raiseIllegalInstruction fun _ _ ↦ trivial

theorem trapsOnly_raiseIllegalInstructionIf :
    TrapsOnly P (raiseIllegalInstructionIf c) fun _ ↦ P :=
  triple_raiseIllegalInstructionIf (fun _ h _ ↦ h) fun _ _ _ ↦ trivial

end Raise

/-- An access of the given type is not translated in the reserved mode. -/
def State.Translatable (s : State) (type : MemoryAccessType) : Prop :=
  s.mmu = none ∨ s.csrs.satpMode = 0#1 ∨ s.accessMode type ≠ 2

section Translation

theorem trapsOnly_transportRead {P : State → Prop} (addr : BitVec 64) {n : Nat} (hn : 0 < n) :
    TrapsOnly P (transportRead addr n) fun _ ↦ P := by
  refine Triple.of_start fun s hs ↦ (triple_transportRead s addr hn).conseq (fun _ h ↦ h)
    (fun _ _ h ↦ h.1 ▸ hs) fun _ _ h ↦ ?_
  rw [h.2.2]
  trivial

theorem trapsOnly_transportWrite (addr : BitVec 64) (data : ConcolicValue) (n : Nat) :
    TrapsOnly (fun _ ↦ True) (transportWrite addr data n) fun _ _ ↦ True := by
  refine Triple.of_start fun s _ ↦ (triple_transportWrite s addr data n).conseq (fun _ h ↦ h)
    (fun _ _ _ ↦ trivial) fun _ _ h ↦ ?_
  rw [h.2.2]
  trivial

theorem trapsOnly_walkLevels (vm : VmInfo) (vaddr : BitVec 64) (type : MemoryAccessType)
    (sMode sum mxr onAD : Bool) (level : Nat) (base : BitVec 64) :
    TrapsOnly (fun _ ↦ True) (walkLevels vm vaddr type sMode sum mxr onAD level base)
      fun _ _ ↦ True := by
  induction level generalizing base with
  | zero => exact TrapsOnly.ret fun _ h ↦ h
  | succ level ih =>
    have hstop : ∀ {α : Type} (a : α),
        TrapsOnly (fun _ ↦ True) (pure a : IssM α) fun _ _ ↦ True :=
      fun a ↦ TrapsOnly.ret fun _ h ↦ h
    have hload : TrapsOnly (fun _ ↦ True) (mmuLoadPte32 (ptePaddr vm vaddr base level))
        fun _ _ ↦ True :=
      TrapsOnly.bind (TrapsOnly.bind (trapsOnly_transportRead _ (by decide)) fun _ ↦ hstop _)
        fun _ ↦ hstop _
    have hmark : ∀ pte, TrapsOnly (fun _ ↦ True)
        (markLeaf (ptePaddr vm vaddr base level) pte type onAD) fun _ _ ↦ True := by
      intro pte
      refine Triple.ite (fun _ ↦ hstop _) fun _ ↦ Triple.ite (fun _ ↦ hstop _) fun _ ↦ ?_
      rw [concreteStoreData_eq]
      exact TrapsOnly.bind (trapsOnly_transportWrite _ _ _) fun _ ↦ hstop _
    refine TrapsOnly.bind hload fun pte ↦ Triple.ite (fun _ ↦ hstop _) fun _ ↦
      Triple.ite (fun _ ↦ ih _) fun _ ↦ Triple.ite (fun _ ↦ hstop _) fun _ ↦
        Triple.ite (fun _ ↦ hstop _) fun _ ↦ TrapsOnly.bind (hmark pte) fun _ ↦ ?_
    exact Triple.ite (fun _ ↦ hstop _) fun _ ↦ hstop _

theorem trapsOnly_walk {s : State} (hsatp : s.csrs.satpMode = 1#1) (onAD : Bool)
    (vaddr : BitVec 64) (type : MemoryAccessType) {mode : Nat} (hmode : mode ≤ SupervisorMode) :
    TrapsOnly (· = s) (walk onAD vaddr type mode) fun _ _ ↦ True := by
  refine Triple.read_bind fun s' hs' ↦ ?_
  rw [hs']
  refine TrapsOnly.bind ((triple_decodeVmInfo s mode).conseq (fun _ h ↦ h) (fun _ _ _ ↦ trivial)
    fun _ _ h ↦ ?_) fun vm ↦ TrapsOnly.bind (trapsOnly_walkLevels _ _ _ _ _ _ _ _ _) fun paddr ↦ ?_
  · rcases h.2 with h | h
    · exact absurd hmode (Nat.not_le.mpr h.1)
    · exact absurd hsatp h
  · split
    · exact TrapsOnly.ret fun _ h ↦ h
    · exact Triple.raise fun _ _ ↦ trivial

theorem accessMode_le {s : State} (h : s.prv ≤ MachineMode) (type : MemoryAccessType) :
    s.accessMode type ≤ MachineMode := by
  unfold State.accessMode
  split
  · exact Nat.le_of_lt_succ s.csrs.mstatusMpp.isLt
  · exact h

/-- Only the reserved mode is rejected. -/
theorem trapsOnly_v2p {s : State} (hprv : s.prv ≤ MachineMode) (vaddr : BitVec 64)
    {type : MemoryAccessType} (h : s.Translatable type) :
    TrapsOnly (· = s) (v2p vaddr type) fun _ _ ↦ True := by
  refine Triple.read_bind fun s' hs' ↦ ?_
  rw [hs']
  split
  case h_1 => exact TrapsOnly.ret fun _ _ ↦ trivial
  case h_2 mmu hmmu =>
    refine Triple.read_bind fun s' hs' ↦ ?_
    rw [hs']
    refine Triple.ite (fun _ ↦ TrapsOnly.ret fun _ _ ↦ trivial) fun hsatp ↦
      Triple.ite (fun _ ↦ TrapsOnly.ret fun _ _ ↦ trivial) fun hmachine ↦ ?_
    have htwo : s.accessMode type ≠ 2 := by
      rcases h with h | h | h
      · rw [hmmu] at h
        cases h
      · exact absurd h hsatp
      · exact h
    have hle := accessMode_le hprv type
    rw [MachineMode] at hmachine hle
    have hmode : s.accessMode type = 0 ∨ s.accessMode type = 1 := by omega
    have hsupervisor : s.accessMode type ≤ SupervisorMode := by
      rw [SupervisorMode]
      omega
    have hone : s.csrs.satpMode = 1#1 := (BitVec.eq_zero_or_eq_one _).resolve_left hsatp
    refine TrapsOnly.bind (Q := fun _ s' ↦ s' = s)
      (triple_ensure (fun _ h _ ↦ h) fun _ _ hc ↦ absurd hmode hc) fun _ ↦ ?_
    refine Triple.ite (fun _ ↦ TrapsOnly.ret fun _ _ ↦ trivial) fun _ ↦ ?_
    refine TrapsOnly.bind (trapsOnly_walk hone _ _ _ hsupervisor) fun _ ↦
      TrapsOnly.bind (Q := fun _ _ ↦ True) (TrapsOnly.update fun _ h ↦ h) fun _ ↦
        TrapsOnly.ret fun _ h ↦ h

end Translation

/-! ## Coverage -/

/-- The coverage has the function and the line of each location in a file that it has. -/
def Coverage.Knows (cov : Coverage) (sources : List SourceInfo) : Prop :=
  ∀ source ∈ sources, ∀ file, cov.files[source.sourcePath]? = some file →
    source.symbolName ∈ file.funcs ∧ source.line ∈ file.lines

section Cover

variable {cov cov' : Coverage}

/-- The entries of a file may change, but not its functions and lines. -/
theorem Coverage.knows_insert_iff {path : String} {file file' : SourceFile}
    (hfile : cov.files[path]? = some file)
    (hsame : ∀ name line, name ∈ file'.funcs ∧ line ∈ file'.lines ↔
      name ∈ file.funcs ∧ line ∈ file.lines) (blocks : List BasicBlock)
    (sources : List SourceInfo) :
    Knows ⟨blocks, cov.files.insert path file'⟩ sources ↔ cov.Knows sources := by
  refine forall₂_congr fun source _ ↦ ?_
  dsimp only
  rw [Std.ExtTreeMap.getElem?_insert]
  split
  case isTrue heq =>
    have hpath : path = source.sourcePath := Std.LawfulEqCmp.eq_of_compare heq
    rw [← hpath, hfile]
    simp only [Option.some.injEq, forall_eq', hsame]
  case isFalse => rfl

/-- What is known does not change when a location is counted. -/
theorem Coverage.knows_of_coverSource {addr : BitVec 64} {flags : OperandFlags}
    {source : SourceInfo}
    (h : coverSource addr flags source cov = .ok () cov') (sources : List SourceInfo) :
    cov'.Knows sources ↔ cov.Knows sources := by
  unfold coverSource at h
  split at h
  case h_1 =>
    cases h
    rfl
  case h_2 file hfile =>
    split at h
    case h_1 => cases h
    case h_2 func hfunc =>
      dsimp only at h
      split at h
      case h_1 => cases h
      case h_2 line hline =>
        cases h
        apply knows_insert_iff hfile
        intro name number
        have hfuncs : source.symbolName ∈ file.funcs := by
          rw [Std.ExtTreeMap.mem_iff_isSome_getElem?, hfunc]
          rfl
        have hlines : source.line ∈ file.lines := by
          rw [Std.ExtTreeMap.mem_iff_isSome_getElem?, hline]
          rfl
        rw [Std.ExtTreeMap.mem_insert, Std.ExtTreeMap.mem_insert]
        refine and_congr (or_iff_right_of_imp fun heq ↦ ?_) (or_iff_right_of_imp fun heq ↦ ?_)
        · rwa [← Std.LawfulEqCmp.eq_of_compare heq]
        · rwa [← Std.LawfulEqCmp.eq_of_compare heq]

/-- A location is counted exactly if it is known. -/
theorem Coverage.exists_coverSource_iff (addr : BitVec 64) (flags : OperandFlags)
    (source : SourceInfo) :
    (∃ cov', coverSource addr flags source cov = .ok () cov') ↔ cov.Knows [source] := by
  rw [Knows]
  simp only [List.mem_singleton, forall_eq]
  unfold coverSource
  cases cov.files[source.sourcePath]? with
  | none => simp
  | some file =>
    simp only [Option.some.injEq, forall_eq', Std.ExtTreeMap.mem_iff_isSome_getElem?]
    cases file.funcs[source.symbolName]? with
    | none => simp
    | some func =>
      cases file.lines[source.line]? with
      | none => simp
      | some line => simp

theorem Coverage.exists_coverSources_iff (addr : BitVec 64) (flags : OperandFlags)
    (sources : List SourceInfo) :
    (∃ cov', coverSources addr flags sources cov = .ok () cov') ↔ cov.Knows sources := by
  induction sources generalizing cov with
  | nil =>
    refine iff_of_true ⟨cov, rfl⟩ fun source hsource ↦ ?_
    cases hsource
  | cons source rest ih =>
    have hcons : cov.Knows (source :: rest) ↔ cov.Knows [source] ∧ cov.Knows rest := by
      rw [Knows, Knows, Knows, List.forall_mem_cons, List.forall_mem_singleton]
    rw [hcons, ← exists_coverSource_iff addr flags source]
    constructor
    · rintro ⟨cov', h⟩
      obtain ⟨_, cov₁, hfirst, hrest⟩ := exists_ok_of_bind_eq_ok h
      exact ⟨⟨cov₁, hfirst⟩, (knows_of_coverSource hfirst rest).mp (ih.mp ⟨cov', hrest⟩)⟩
    · rintro ⟨⟨cov₁, hfirst⟩, hrest⟩
      obtain ⟨cov', h⟩ := ih.mpr ((knows_of_coverSource hfirst rest).mpr hrest)
      exact ⟨cov', (bind_of_ok hfirst _).trans h⟩

end Cover

/-- An executed address is counted exactly if the coverage is there and knows it. -/
theorem exists_cover_iff (env : Env) (flags : OperandFlags) (s : State) :
    (∃ s', cover env flags s = .ok () s') ↔
      ∃ cov, s.coverage = some cov ∧ cov.Knows (env.getSources (s.lastPc.setWidth 64)) := by
  unfold cover
  cases s.coverage with
  | none => simp
  | some cov =>
    simp only [Option.some.injEq, exists_eq_left',
      ← Coverage.exists_coverSources_iff (s.lastPc.setWidth 64) flags]
    cases Coverage.coverSources (s.lastPc.setWidth 64) flags
        (env.getSources (s.lastPc.setWidth 64)) cov with
    | ok _ cov' => simp
    | error e cov' => simp

theorem trapsOnly_cover {env : Env} {s : State} {cov : Coverage} (hcov : s.coverage = some cov)
    (hknows : cov.Knows (env.getSources (s.lastPc.setWidth 64))) (flags : OperandFlags) :
    TrapsOnly (· = s) (cover env flags) fun _ _ ↦ True := by
  rintro _ rfl
  obtain ⟨s', hok⟩ := (exists_cover_iff env flags _).mpr ⟨cov, hcov, hknows⟩
  rw [hok]
  trivial

/-! ## Instructions -/

/-- The program returns to the same place or traps. -/
def Completes {α : Type} (s₀ : State) (m : IssM α) : Prop :=
  TrapsOnly (Located s₀) m fun _ ↦ Located s₀

section Completes

variable {α β : Type} {s₀ : State}

theorem Completes.ret (a : α) : Completes s₀ (pure a) := TrapsOnly.ret fun _ h ↦ h

theorem Completes.bind {m : IssM α} {f : α → IssM β} (hm : Completes s₀ m)
    (hf : ∀ a, Completes s₀ (f a)) : Completes s₀ (m >>= f) :=
  TrapsOnly.bind hm hf

theorem Completes.read_bind {f : State → IssM β} (hf : ∀ s, Completes s₀ (f s)) :
    Completes s₀ (get >>= f) :=
  Triple.read_bind fun s hs ↦ Triple.pre (hf s) fun _ h ↦ h ▸ hs

theorem Completes.ite {c : Prop} [Decidable c] {m m' : IssM α} (hm : Completes s₀ m)
    (hm' : Completes s₀ m') : Completes s₀ (if c then m else m') :=
  Triple.ite (fun _ ↦ hm) fun _ ↦ hm'

theorem Completes.update {f : State → State} (hpc : ∀ s, (f s).lastPc = s.lastPc)
    (hcov : ∀ s, (f s).coverage = s.coverage) : Completes s₀ (modify f : IssM Unit) :=
  TrapsOnly.update fun s h ↦ ⟨(hpc s).trans h.lastPc, (hcov s).trans h.coverage⟩

theorem Completes.raise {c : Prop} [Decidable c] : Completes s₀ (raiseIllegalInstructionIf c) :=
  trapsOnly_raiseIllegalInstructionIf

theorem completes_getCsrValue (env : Env) (addr : Nat) : Completes s₀ (getCsrValue env addr) := by
  have hread : ∀ r, Completes s₀ (readCsr r) := fun r ↦ Completes.read_bind fun _ ↦ Completes.ret _
  have hdefault : Completes s₀ (defaultRead32 addr) := by
    unfold defaultRead32
    split
    · exact Completes.read_bind fun _ ↦ Completes.ret _
    · exact trapsOnly_raiseIllegalInstruction
  refine Completes.bind (Completes.read_bind fun _ ↦ Completes.raise) fun _ ↦ ?_
  split
  · exact Completes.bind (hread _) fun _ ↦ Completes.ret _
  split
  case h_1 | h_2 | h_3 | h_4 | h_5 | h_6 =>
    exact Completes.bind (Completes.update (fun _ ↦ rfl) fun _ ↦ rfl) fun _ ↦ hread _
  case h_7 | h_8 => exact hread _
  case h_9 => exact Completes.read_bind fun _ ↦ Completes.bind Completes.raise fun _ ↦ hdefault
  case h_10 | h_11 => exact Completes.read_bind fun _ ↦ Completes.ret _
  case h_12 => exact Completes.ret _
  case h_13 => exact Completes.ite (Completes.ret _) hdefault

theorem completes_setCsrValue (addr : Nat) (value : BitVec 32) :
    Completes s₀ (setCsrValue addr value) := by
  refine Completes.read_bind fun s ↦ ?_
  split
  · exact Completes.update (fun _ ↦ rfl) fun _ ↦ rfl
  split
  case h_1 => exact Completes.ret _
  case h_2 =>
    exact Completes.bind Completes.raise fun _ ↦ Completes.update (fun _ ↦ rfl) fun _ ↦ rfl
  case h_3 | h_4 => exact Completes.update (fun _ ↦ rfl) fun _ ↦ rfl
  case h_5 =>
    refine Completes.ite (Completes.ret _) ?_
    unfold defaultWrite32
    split
    · exact Completes.update (fun _ ↦ rfl) fun _ ↦ rfl
    · exact trapsOnly_raiseIllegalInstruction

theorem completes_execCsr (env : Env) (op : Opcode) : Completes s₀ (execCsr env op) := by
  have hold : ∀ old, Completes s₀ (writeOldValue old) := fun old ↦
    Completes.read_bind fun _ ↦
      Completes.ite (Completes.update (fun _ ↦ rfl) fun _ ↦ rfl) (Completes.ret _)
  have hcheck : ∀ addr write, Completes s₀ (isInvalidCsrAccess addr write) := fun addr write ↦
    Completes.read_bind fun _ ↦ Completes.bind Completes.raise fun _ ↦ Completes.ret _
  have hwrite : ∀ value, Completes s₀ (csrReadWrite env value) := fun value ↦
    Completes.read_bind fun s ↦ Completes.bind (hcheck _ _) fun _ ↦
      Completes.ite trapsOnly_raiseIllegalInstruction (Completes.ite
        (Completes.bind (completes_getCsrValue env _) fun _ ↦
          Completes.bind (hold _) fun _ ↦ completes_setCsrValue _ _)
        (completes_setCsrValue _ _))
  have hmodify : ∀ write update, Completes s₀ (csrReadModify env write update) :=
    fun write update ↦ Completes.read_bind fun s ↦ Completes.bind (hcheck _ _) fun _ ↦
      Completes.ite trapsOnly_raiseIllegalInstruction
        (Completes.bind (completes_getCsrValue env _) fun _ ↦ Completes.bind (hold _) fun _ ↦
          Completes.ite (completes_setCsrValue _ _) (Completes.ret _))
  refine Completes.read_bind fun s ↦ ?_
  dsimp only
  split
  case h_1 | h_4 => exact hwrite _
  all_goals exact hmodify _ _

theorem completes_jump {target : BitVec 32} (htarget : target &&& 1#32 = 0#32) :
    Completes s₀ (jump target) := by
  refine TrapsOnly.bind (Q := fun _ s ↦ Located s₀ s ∧ s.pc &&& 1#32 = 0#32)
    (TrapsOnly.update fun s h ↦ ⟨⟨h.lastPc, h.coverage⟩, htarget⟩) fun _ ↦ ?_
  refine Triple.read_bind fun s hs ↦ TrapsOnly.bind (Q := fun _ ↦ Located s₀) ?_ fun _ ↦
    trapsOnly_raiseTrapIf _ _
  exact triple_ensure (fun s' h _ ↦ h ▸ hs.1) fun _ _ hc ↦ absurd hs.2 hc

theorem completes_jumpAndLink {target : BitVec 32} (htarget : target &&& 1#32 = 0#32) :
    Completes s₀ (jumpAndLink target) :=
  Completes.read_bind fun _ ↦ Completes.bind (completes_jump htarget) fun _ ↦
    Completes.update (fun _ ↦ rfl) fun _ ↦ rfl

theorem completes_execBranch (hpc : s₀.lastPc &&& 1#32 = 0#32) (res : ConcolicValue) :
    Completes s₀ (execBranch res) := by
  refine Triple.read_bind fun s hs ↦ Triple.pre (P := Located s₀) ?_ fun _ h ↦ h ▸ hs
  have heven : (s.lastPc + s.instr.bImm) &&& 1#32 = 0#32 := by
    rw [hs.lastPc]
    exact even_add hpc (even_bImm _)
  refine Completes.bind (Completes.ite (completes_jump heven) (Completes.ret _)) fun _ ↦ ?_
  unfold trackAndTraceBranch
  split
  · exact Completes.update (fun _ ↦ rfl) fun _ ↦ rfl
  · exact Completes.ret _

end Completes

section Accesses

variable {s₀ : State}

theorem Fetched.translatable {s : State} (h : Fetched s₀ s) {type : MemoryAccessType}
    (h₀ : s₀.Translatable type) : s.Translatable type := by
  have hmode : s.accessMode type = s₀.accessMode type := by
    rw [State.accessMode, h.csrs, h.prv, State.accessMode]
  rcases h₀ with h₀ | h₀ | h₀
  · exact .inl (h.mmu h₀)
  · exact .inr (.inl (h.csrs ▸ h₀))
  · exact .inr (.inr (hmode ▸ h₀))

theorem fetched_v2p (hprv : s₀.prv ≤ MachineMode) {type : MemoryAccessType}
    (htype : s₀.Translatable type) (vaddr : BitVec 64) :
    TrapsOnly (Fetched s₀) (v2p vaddr type) fun _ ↦ Fetched s₀ := by
  have htraps : TrapsOnly (Fetched s₀) (v2p vaddr type) fun _ _ ↦ True :=
    Triple.of_start fun s hs ↦ trapsOnly_v2p (hs.prv ▸ hprv) vaddr (hs.translatable htype)
  exact Triple.conseq (htraps.and_keeps (keeps_v2p (fetched_keptByMarks s₀) vaddr type))
    (fun _ h ↦ ⟨h, h⟩) (fun _ _ h ↦ h.2) fun _ _ h ↦ h

theorem completes_transportWrite (addr : BitVec 64) (data : ConcolicValue) (n : Nat) :
    Completes s₀ (transportWrite addr data n) :=
  Completes.read_bind fun _ ↦ Completes.bind (trapsOnly_raiseTrapIf _ _) fun _ ↦
    Completes.update (fun _ ↦ rfl) fun _ ↦ rfl

variable {T : Thrown → Prop} (hT : ∀ e : Thrown, e.IsTrap → T e)

theorem TrapsOnly.throws {α : Type} {P : State → Prop} {m : IssM α} {Q : α → State → Prop}
    (hT : ∀ e : Thrown, e.IsTrap → T e) (h : TrapsOnly P m Q) : Triple P m Q fun e _ ↦ T e :=
  Triple.conseq h (fun _ h ↦ h) (fun _ _ h ↦ h) fun e _ ↦ hT e

include hT

theorem triple_execLoad (alignment : Nat) {load : ConcolicValue → IssM ConcolicValue}
    (hload : ∀ addr, Triple (Fetched s₀) (load addr) (fun _ ↦ Located s₀) fun e _ ↦ T e) :
    Triple (Fetched s₀) (execLoad alignment load) (fun _ ↦ Located s₀) fun e _ ↦ T e := by
  refine Triple.read_bind fun s hs ↦ Triple.pre (P := Fetched s₀) ?_ fun _ h ↦ h ▸ hs
  refine Triple.bind ((trapsOnly_raiseTrapIf _ _).throws hT) fun _ ↦ Triple.bind (hload _) fun _ ↦
    TrapsOnly.throws hT ?_
  refine Completes.bind (Completes.update (fun _ ↦ rfl) fun _ ↦ rfl) fun _ ↦ ?_
  exact Completes.ite (Completes.bind (Completes.update (fun _ ↦ rfl) fun _ ↦ rfl) fun _ ↦
    Completes.ret _) (Completes.ret _)

variable (hstore : ∀ vaddr,
  Triple (Fetched s₀) (v2p vaddr .STORE) (fun _ ↦ Fetched s₀) fun e _ ↦ T e)

include hstore

theorem triple_symbolicLoadData (addr : ConcolicValue) {n : Nat} (hn : 0 < n) :
    Triple (Fetched s₀) (symbolicLoadData addr n) (fun _ ↦ Located s₀) fun e _ ↦ T e :=
  Triple.bind (hstore _) fun _ ↦
    Triple.pre ((trapsOnly_transportRead _ hn).throws hT) fun _ h ↦ h.toLocated

theorem triple_loadSigned (addr : ConcolicValue) {n : Nat} (hn : 0 < n) :
    Triple (Fetched s₀) (loadSigned addr n) (fun _ ↦ Located s₀) fun e _ ↦ T e :=
  Triple.bind (triple_symbolicLoadData hT hstore addr hn) fun _ ↦ Triple.ret fun _ h ↦ h

theorem triple_loadUnsigned (addr : ConcolicValue) {n : Nat} (hn : 0 < n) :
    Triple (Fetched s₀) (loadUnsigned addr n) (fun _ ↦ Located s₀) fun e _ ↦ T e :=
  Triple.bind (triple_symbolicLoadData hT hstore addr hn) fun _ ↦ Triple.ret fun _ h ↦ h

theorem triple_execStore (alignment numBytes : Nat) :
    Triple (Fetched s₀) (execStore alignment fun addr value ↦
      symbolicStoreData addr (some value) numBytes) (fun _ ↦ Located s₀) fun e _ ↦ T e := by
  refine Triple.read_bind fun s hs ↦ Triple.pre (P := Fetched s₀) ?_ fun _ h ↦ h ▸ hs
  refine Triple.bind ((trapsOnly_raiseTrapIf _ _).throws hT) fun _ ↦
    Triple.bind (hstore _) fun _ ↦ TrapsOnly.throws hT ?_
  exact Triple.pre (completes_transportWrite _ _ _) fun _ h ↦ h.toLocated

end Accesses

/-! ## Operations -/

/-- The operations whose case is part of the core; an undefined one is a trap. -/
def implemented : Opcode → Bool
  | .UNDEF | .LUI | .AUIPC | .JAL | .JALR | .BEQ | .BNE | .BLT | .BGE | .BLTU | .BGEU
  | .LB | .LH | .LW | .LBU | .LHU | .SB | .SH | .SW
  | .ADDI | .SLTI | .SLTIU | .XORI | .ORI | .ANDI | .SLLI | .SRLI | .SRAI
  | .ADD | .SUB | .SLL | .SLT | .SLTU | .XOR | .SRL | .SRA | .OR | .AND
  | .FENCE | .FENCE_I | .ECALL | .EBREAK
  | .CSRRW | .CSRRS | .CSRRC | .CSRRWI | .CSRRSI | .CSRRCI | .WFI | .MRET => true
  | _ => false

/-- The operations that access data in memory. -/
def accessesData : Opcode → Bool
  | .LB | .LH | .LW | .LBU | .LHU | .SB | .SH | .SW => true
  | _ => false

theorem getType_ne_R4 {op : Opcode} (h : implemented op = true) : getType op ≠ .R4 := by
  cases op <;> first
    | exact Format.noConfusion
    | cases h

section Execute

variable {s₀ : State}

theorem trapsOnly_raiseEcall {s : State} (hprv : s.prv ≤ MachineMode) (htwo : s.prv ≠ 2) :
    TrapsOnly (· = s) raiseEcall fun _ _ ↦ False := by
  refine Triple.read_bind fun s' hs' ↦ ?_
  rw [hs']
  refine Triple.ite (fun _ ↦ Triple.raise fun _ _ ↦ trivial) fun hM ↦
    Triple.ite (fun _ ↦ Triple.raise fun _ _ ↦ trivial) fun hS ↦
    Triple.ite (fun _ ↦ Triple.raise fun _ _ ↦ trivial) fun hU ↦ ?_
  rw [MachineMode] at hM hprv
  rw [SupervisorMode] at hS
  rw [UserMode] at hU
  omega

/-- What the outcome of an operation depends on: the exceptions of `T` include the traps, those of
an access, of a call and of an operation that is not implemented, and an operation that retires
ends in `Q`. -/
structure Outcome (env : Env) (s₀ : State) (op : Opcode) (Q : State → Prop) (T : Thrown → Prop) :
    Prop where
  traps : ∀ e : Thrown, e.IsTrap → T e
  retires : ∀ s, Located s₀ s → Q s
  access : accessesData op = true → ∀ vaddr,
    Triple (Fetched s₀) (v2p vaddr .STORE) (fun _ ↦ Fetched s₀) fun e _ ↦ T e
  call : op = .ECALL → Triple (Fetched s₀) (execEcall env) (fun _ ↦ Q) fun e _ ↦ T e
  unknown : implemented op = false → T (.host (.runtimeError "unknown opcode"))

section Outcome

variable {env : Env} {op : Opcode} {Q : State → Prop} {T : Thrown → Prop}

theorem Outcome.of_completes (h : Outcome env s₀ op Q T) {m : IssM Bool} (hm : Completes s₀ m) :
    Triple (Fetched s₀) m (fun _ ↦ Q) fun e _ ↦ T e :=
  (hm.throws h.traps).conseq (fun _ h ↦ h.toLocated) (fun _ ↦ h.retires) fun _ _ h ↦ h

theorem Outcome.executeOther (h : Outcome env s₀ op Q T) (hpc : s₀.lastPc &&& 1#32 = 0#32)
    {s : State} (hregister : s.registerResult op = none) (hbranch : s.branchResult op = none) :
    Triple (Fetched s₀) (executeOther env op) (fun _ ↦ Q) fun e _ ↦ T e := by
  have hread : ∀ {f : State → IssM Bool}, (∀ s, Fetched s₀ s → Completes s₀ (f s)) →
      Triple (Fetched s₀) (get >>= f) (fun _ ↦ Q) fun e _ ↦ T e := by
    intro f hf
    exact Triple.read_bind fun s hs ↦ Triple.pre (h.of_completes (hf s hs)) fun _ h ↦ h ▸ hs
  unfold Iss.executeOther
  split
  case h_1 => exact trapsOnly_raiseIllegalInstruction.throws h.traps
  case h_2 =>
    refine hread fun s hs ↦ ?_
    refine Completes.bind (completes_jumpAndLink ?_) fun _ ↦ Completes.ret _
    rw [hs.lastPc]
    exact even_add hpc (even_jImm _)
  case h_3 =>
    refine hread fun s hs ↦ ?_
    exact Completes.bind (completes_jumpAndLink (even_and_not_one _)) fun _ ↦ Completes.ret _
  case h_4 | h_5 | h_6 =>
    exact Triple.bind (triple_execStore h.traps (h.access rfl) _ _) fun _ ↦ Triple.ret h.retires
  case h_7 | h_8 | h_9 =>
    exact Triple.post (triple_execLoad h.traps _ fun _ ↦
      triple_loadSigned h.traps (h.access rfl) _ (by decide)) fun _ ↦ h.retires
  case h_10 | h_11 =>
    exact Triple.post (triple_execLoad h.traps _ fun _ ↦
      triple_loadUnsigned h.traps (h.access rfl) _ (by decide)) fun _ ↦ h.retires
  case h_12 | h_13 =>
    exact h.of_completes (Completes.ret _)
  case h_14 => exact Triple.bind (h.call rfl) fun _ ↦ Triple.ret fun _ h ↦ h
  case h_15 | h_23 =>
    exact h.of_completes (Completes.bind
      (Completes.update (fun _ ↦ rfl) fun _ ↦ rfl) fun _ ↦ Completes.ret _)
  case h_16 | h_17 | h_18 | h_19 | h_20 | h_21 =>
    exact h.of_completes
      (Completes.bind (completes_execCsr env _) fun _ ↦ Completes.ret _)
  case h_22 =>
    refine h.of_completes (Completes.bind
      (Completes.bind (Completes.update (fun _ ↦ rfl) fun _ ↦ rfl) fun _ ↦ ?_)
      fun _ ↦ Completes.ret _)
    exact Completes.read_bind fun _ ↦ Completes.bind Completes.raise fun _ ↦ Completes.raise
  case h_24 =>
    refine Triple.raise fun _ _ ↦ h.unknown ?_
    cases op <;> first
      | rfl
      | contradiction

theorem Outcome.execute (h : Outcome env s₀ op Q T) (hpc : s₀.lastPc &&& 1#32 = 0#32) :
    Triple (fun s ↦ Fetched s₀ s ∧ s.op = op) (execute env) (fun _ ↦ Q) fun e _ ↦ T e := by
  refine Triple.read_bind fun s hs ↦ Triple.pre (P := Fetched s₀) ?_ fun _ h ↦ h ▸ hs.1
  rw [hs.2]
  split
  case h_1 value hvalue =>
    exact h.of_completes (Completes.bind (Completes.update (fun _ ↦ rfl) fun _ ↦ rfl) fun _ ↦
      Completes.ret _)
  case h_2 hregister =>
    split
    case h_1 res hres =>
      exact h.of_completes (Completes.bind (completes_execBranch hpc res) fun _ ↦ Completes.ret _)
    case h_2 hbranch => exact h.executeOther hpc hregister hbranch

end Outcome

end Execute

theorem triple_fetched_fetch {T : Thrown → Prop} (hT : ∀ e : Thrown, e.IsTrap → T e) {s : State}
    (halign : s.pc &&& ~~~s.pcAlignmentMask = 0#32)
    (hfetch : ∀ vaddr, Triple (Fetched s) (v2p vaddr .FETCH) (fun _ ↦ Fetched s) fun e _ ↦ T e) :
    Triple (· = s) fetch (fun _ s' ↦ Fetched s s' ∧ s.fetchedWord = some s'.instr)
      fun e _ ↦ T e := by
  have hload : Triple (Fetched s) (loadInstr s.pc) (fun _ ↦ Fetched s) fun e _ ↦ T e := by
    refine Triple.bind (hfetch _) fun paddr ↦ TrapsOnly.throws hT ?_
    exact TrapsOnly.bind (TrapsOnly.bind (trapsOnly_transportRead paddr (by decide)) fun _ ↦
      TrapsOnly.ret fun _ h ↦ h) fun _ ↦ TrapsOnly.ret fun _ h ↦ h
  refine (triple_fetch s).conseq (fun _ h ↦ h) (fun _ s' h ↦ ?_) fun e s' h ↦ ?_
  · obtain ⟨-, s₁, hok, hs'⟩ := h
    have hs₁ : Fetched s s₁ := hload.of_ok (Fetched.refl s) hok
    refine ⟨?_, by rw [State.fetchedWord, hok]⟩
    rw [hs']
    exact ⟨⟨hs₁.lastPc, hs₁.coverage⟩, hs₁.regs, hs₁.csrs, hs₁.prv, hs₁.sys, hs₁.mmu⟩
  · rcases h with ⟨hmisaligned, -, -⟩ | ⟨s₁, herror, -⟩
    · exact absurd halign hmisaligned
    · exact hload.of_error (Fetched.refl s) herror

theorem fetched_decode (s : State) (word : BitVec 32) :
    TrapsOnly (fun s' ↦ Fetched s s' ∧ s'.instr = word) decode
      fun _ s' ↦ Fetched s s' ∧ s'.op = (decodeWord word).1 := by
  refine Triple.of_start fun s' hs' ↦ (triple_decode s').conseq (fun _ h ↦ h) (fun _ s'' h ↦ ?_)
    fun e s'' h ↦ ?_
  · obtain ⟨hfetched, rfl⟩ := hs'
    rw [h.1]
    exact ⟨⟨⟨hfetched.lastPc, hfetched.coverage⟩, hfetched.regs, hfetched.csrs, hfetched.prv,
      hfetched.sys, hfetched.mmu⟩, rfl⟩
  · rw [h.2.2]
    trivial

/-- The classification rejects one format only, and no operation of that format is implemented. -/
theorem trapsOnly_classifyOperands {I : State → Prop} {op : Opcode} (hop : implemented op = true) :
    TrapsOnly (fun s ↦ I s ∧ s.op = op) classifyOperands fun _ s ↦ I s ∧ s.op = op := by
  refine Triple.read_bind fun s hs ↦ ?_
  have hret : ∀ flags : Bool × Bool, TrapsOnly (· = s) (pure flags) fun _ s ↦ I s ∧ s.op = op :=
    fun flags ↦ TrapsOnly.ret fun s' h ↦ by
      rw [h]
      exact hs
  split
  case h_1 => exact hret _
  case h_2 =>
    refine Triple.ite (fun hR4 ↦ ?_) fun _ ↦ hret _
    rw [hs.2] at hR4
    exact absurd hR4 (getType_ne_R4 hop)

theorem executeOther_of_not_implemented {op : Opcode} (hop : implemented op = false) (env : Env) :
    executeOther env op = hostError (.runtimeError "unknown opcode") := by
  cases op <;> first
    | rfl
    | cases hop

theorem results_of_not_implemented {op : Opcode} (hop : implemented op = false) (s : State) :
    s.registerResult op = none ∧ s.branchResult op = none := by
  cases op <;> first
    | exact ⟨rfl, rfl⟩
    | cases hop

/-- An operation that is decoded but not implemented neither retires nor traps. -/
theorem triple_execute_of_not_implemented (env : Env) {d : State} (hop : implemented d.op = false) :
    Triple (· = d) (execute env) (fun _ _ ↦ False) fun e _ ↦ isHost e := by
  refine Triple.read_bind fun s hs ↦ ?_
  obtain ⟨hregister, hbranch⟩ := results_of_not_implemented hop d
  rw [hs, hregister, hbranch, executeOther_of_not_implemented hop]
  exact Triple.raise fun _ _ ↦ trivial

end CoverageVP.Iss
