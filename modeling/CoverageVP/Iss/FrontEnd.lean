import CoverageVP.Iss.Translation

/-!
# Fetched and decoded instructions

The instruction that a state executes next, as a function of the state: the word that is fetched at
its program counter, and the operation that the word decodes to. Fetching and decoding deliver
these.
-/

namespace CoverageVP.Iss

open Lib Clover Instr

/-! ## Decoding -/

/-- The opcode of a fetched word and the word that is executed for it. -/
def decodeWord (word : Instruction) : Opcode × Instruction :=
  if word.isCompressed then (decodeAndExpandCompressed word .RV32).getD (.UNDEF, word)
  else (decodeNormal .RV32 word, word)

def instrLength (word : Instruction) : BitVec 32 := if word.isCompressed then 2#32 else 4#32

def State.decoded (s : State) : State :=
  { s with
    op := (decodeWord s.instr).1
    instr := (decodeWord s.instr).2
    pc := s.pc + instrLength s.instr }

/-- A word of the first three quadrants is always expanded. -/
theorem decodeAndExpandCompressed_of_isCompressed {word : Instruction}
    (h : word.isCompressed = true) : decodeAndExpandCompressed word .RV32 = some (decodeWord word) := by
  have hquadrant : word.quadrant.toNat < 3 := by simpa [Instruction.isCompressed] using h
  have hsome : (decodeCompressed word .RV32).isSome := by
    unfold decodeCompressed
    split
    case h_4 heq => omega
    all_goals rfl
  obtain ⟨op, hop⟩ := Option.isSome_iff_exists.mp hsome
  rw [decodeWord, if_pos h, decodeAndExpandCompressed, hop]
  rfl

/-- Decoding succeeds unless compressed instructions are missing. -/
theorem triple_decode (s : State) :
    Triple (· = s) decode
      (fun _ s' ↦ s' = s.decoded ∧ (s.instr.isCompressed = true → s.decoded.op ≠ .UNDEF →
        s.csrs.hasCExtension = true))
      (fun e s' ↦ s' = s.decoded ∧ s.csrs.hasCExtension = false ∧
        e = .trap .ILLEGAL_INSTR (s.decoded.instr.setWidth 64)) := by
  refine Triple.read_bind fun s' hs' ↦ ?_
  rw [hs']
  refine Triple.ite (fun hc ↦ ?_) fun hc ↦ ?_
  · rw [decodeAndExpandCompressed_of_isCompressed hc]
    refine Triple.bind (Q := fun _ s' ↦ s' = s.decoded) (Triple.update fun s' h ↦ ?_) fun _ ↦ ?_
    · rw [h, State.decoded, instrLength, if_pos hc]
      rfl
    · refine Triple.read_bind fun s' h ↦ ?_
      rw [h]
      refine triple_raiseIllegalInstructionIf (fun s'' h' hcond ↦ ⟨h', fun _ hop ↦ ?_⟩)
        fun s'' h' hcond ↦ ⟨h', hcond.2, by rw [h']⟩
      exact Bool.eq_true_of_not_eq_false fun hfalse ↦ hcond ⟨hop, hfalse⟩
  · refine Triple.update fun s' h ↦ ⟨?_, fun hc' ↦ absurd hc' hc⟩
    rw [h, State.decoded, instrLength, decodeWord, if_neg hc, if_neg hc]

/-- The only word that returns from a machine mode handler. -/
def MRET_ENCODING : Instruction := 0x30200073#32

theorem expandCompressed_ne_MRET (word : Instruction) (op : Compressed.Opcode) :
    (expandCompressed word op .RV32).1 ≠ .MRET := by
  unfold expandCompressed
  split <;> first
    | exact Opcode.noConfusion
    | split <;> exact Opcode.noConfusion

theorem decodeWord_eq_MRET_iff (word : Instruction) :
    (decodeWord word).1 = .MRET ↔ word = MRET_ENCODING := by
  by_cases hc : word.isCompressed = true
  · have hne : word ≠ MRET_ENCODING := by
      rintro rfl
      exact absurd hc (by decide)
    have hexpand := decodeAndExpandCompressed_of_isCompressed hc
    obtain ⟨op, -, hop⟩ := Option.map_eq_some_iff.mp hexpand
    rw [← hop]
    exact iff_of_false (expandCompressed_ne_MRET word op) hne
  · rw [decodeWord, if_neg hc]
    rw [decodeNormal_eq_iff (by decide)]
    constructor
    · rintro ⟨p, hp, hmatch⟩
      obtain rfl := Option.some.inj hp
      rw [Pattern.Matches] at hmatch
      rw [← BitVec.and_allOnes (x := word)]
      exact hmatch
    · rintro rfl
      exact ⟨_, rfl, by decide⟩

/-! ## Fetching -/

/-- The word at the program counter, unless its fetch traps. -/
def State.fetchedWord (s : State) : Option (BitVec 32) :=
  match loadInstr s.pc s with
  | .ok word _ => some word
  | .error _ _ => none

theorem triple_fetch (s : State) :
    Triple (· = s) fetch
      (fun _ s' ↦ s.pc &&& ~~~s.pcAlignmentMask = 0#32 ∧
        ∃ s₁, loadInstr s.pc s = .ok s'.instr s₁ ∧ s' = { s₁ with instr := s'.instr })
      (fun e s' ↦ (s.pc &&& ~~~s.pcAlignmentMask ≠ 0#32 ∧ e = .host (.assertion .alignedFetch) ∧
          s' = s) ∨
        ∃ s₁, loadInstr s.pc s = .error e s₁ ∧
          (s' = s₁ ∨ s' = { s₁ with op := .UNDEF, instr := 0#32 })) := by
  refine Triple.read_bind fun s' hs' ↦ ?_
  rw [hs']
  refine Triple.bind (Q := fun _ s' ↦ s' = s ∧ s.pc &&& ~~~s.pcAlignmentMask = 0#32)
    (triple_ensure (fun _ h hc ↦ ⟨h, hc⟩) fun _ h hc ↦ .inl ⟨hc, rfl, h⟩) fun _ ↦ ?_
  refine Triple.bind
    (Q := fun word s₁ ↦ s.pc &&& ~~~s.pcAlignmentMask = 0#32 ∧ loadInstr s.pc s = .ok word s₁)
    (Triple.handle (F := fun e s₁ ↦ loadInstr s.pc s = .error e s₁) ?_ fun e ↦ ?_) fun word ↦ ?_
  · rintro s'' ⟨rfl, hc⟩
    cases hload : loadInstr s''.pc s'' with
    | ok word s₁ => exact ⟨hc, rfl⟩
    | error e s₁ => rfl
  · cases e with
    | trap reason mtval =>
      refine Triple.bind (Q := fun _ s' ↦ ∃ s₁, loadInstr s.pc s = .error (.trap reason mtval) s₁ ∧
        s' = { s₁ with op := .UNDEF, instr := 0#32 }) (Triple.update fun s₁ h ↦ ⟨s₁, h, rfl⟩) ?_
      exact fun _ ↦ Triple.raise fun s' ⟨s₁, h, hs'⟩ ↦ .inr ⟨s₁, h, .inr hs'⟩
    | host error => exact Triple.raise fun s₁ h ↦ .inr ⟨s₁, h, .inl rfl⟩
  · exact Triple.update fun s₁ h ↦ ⟨h.1, s₁, h.2, rfl⟩

/-! ## The state before the execution -/

/-- What the coverage of an instruction depends on. -/
structure Located (s₀ s : State) : Prop where
  lastPc : s.lastPc = s₀.lastPc
  coverage : s.coverage = s₀.coverage

/-- What an instruction depends on before it is executed. -/
structure Fetched (s₀ s : State) : Prop extends Located s₀ s where
  regs : s.regs = s₀.regs
  csrs : s.csrs = s₀.csrs
  prv : s.prv = s₀.prv
  sys : s.sys = s₀.sys
  mmu : s₀.mmu = none → s.mmu = none

theorem Fetched.refl (s : State) : Fetched s s := ⟨⟨rfl, rfl⟩, rfl, rfl, rfl, rfl, fun h ↦ h⟩

theorem fetched_keptByMarks (s₀ : State) : KeptByMarks (Fetched s₀) where
  mark := fun _ _ _ h ↦ ⟨⟨h.lastPc, h.coverage⟩, h.regs, h.csrs, h.prv, h.sys, h.mmu⟩
  mmu := fun _ _ h hmmu ↦
    ⟨⟨h.lastPc, h.coverage⟩, h.regs, h.csrs, h.prv, h.sys, fun h₀ ↦ absurd (h.mmu h₀) hmmu⟩

/-- The fetched word is decoded, and the rest of the state is as before. -/
structure Decoded (s₀ : State) (word : BitVec 32) (s : State) : Prop extends Fetched s₀ s where
  fetchedWord : s₀.fetchedWord = some word
  op : s.op = (decodeWord word).1
  instr : s.instr = (decodeWord word).2

theorem triple_fetch_decode (s : State) :
    Triple (· = s) (do fetch; decode) (fun _ s' ↦ ∃ word, Decoded s word s') fun _ _ ↦ True := by
  have hload : Keeps (Fetched s) (loadInstr s.pc) := keeps_loadInstr (fetched_keptByMarks s) s.pc
  refine Triple.bind ((triple_fetch s).conseq (fun _ h ↦ h) (fun _ _ h ↦ h) fun _ _ _ ↦ trivial)
    fun _ ↦ Triple.of_start fun s₂ h₂ ↦ ?_
  obtain ⟨-, s₁, hok, hs₂⟩ := h₂
  have hs₁ : Fetched s s₁ := hload.of_ok (Fetched.refl s) hok
  refine (triple_decode s₂).conseq (fun _ h ↦ h) (fun _ s' h ↦ ⟨s₂.instr, ?_⟩) fun _ _ _ ↦ trivial
  rw [h.1]
  refine ⟨?_, by rw [State.fetchedWord, hok], rfl, rfl⟩
  rw [hs₂]
  exact ⟨⟨hs₁.lastPc, hs₁.coverage⟩, hs₁.regs, hs₁.csrs, hs₁.prv, hs₁.sys, hs₁.mmu⟩

/-- The exceptions that end the simulation. -/
def isHost : Thrown → Prop
  | .host _ => True
  | .trap _ _ => False

theorem exists_host_of_isHost {e : Thrown} (h : isHost e) : ∃ error, e = .host error := by
  cases e with
  | trap => cases h
  | host error => exact ⟨error, rfl⟩

/-- A word that can be fetched is decoded, as long as compressed instructions are supported. -/
theorem triple_fetch_decode_of_word {s : State} {word : BitVec 32}
    (hcompressed : s.csrs.hasCExtension = true) (hword : s.fetchedWord = some word) :
    Triple (· = s) (do fetch; decode) (fun _ s' ↦ Decoded s word s')
      fun e _ ↦ isHost e := by
  have hload : Keeps (Fetched s) (loadInstr s.pc) := keeps_loadInstr (fetched_keptByMarks s) s.pc
  have hfetch : Triple (· = s) fetch (fun _ s' ↦ s'.csrs.hasCExtension = true)
      fun e _ ↦ isHost e := by
    refine (triple_fetch s).conseq (fun _ h ↦ h) (fun _ s' h ↦ ?_) fun e s' h ↦ ?_
    · obtain ⟨-, s₁, hok, hs'⟩ := h
      have hs₁ : Fetched s s₁ := hload.of_ok (Fetched.refl s) hok
      rw [hs']
      exact hs₁.csrs ▸ hcompressed
    · rcases h with ⟨-, rfl, -⟩ | ⟨s₁, herror, -⟩
      · trivial
      · rw [State.fetchedWord, herror] at hword
        cases hword
  have hdecode : Triple (fun s' ↦ s'.csrs.hasCExtension = true) decode (fun _ _ ↦ True)
      fun e _ ↦ isHost e := by
    refine Triple.of_start fun s' hs' ↦ (triple_decode s').conseq (fun _ h ↦ h)
      (fun _ _ _ ↦ trivial) fun e s'' h ↦ ?_
    exact absurd (hs'.symm.trans h.2.1) Bool.noConfusion
  refine ((triple_fetch_decode s).and (Triple.bind hfetch fun _ ↦ hdecode)).conseq (fun _ h ↦ h)
    (fun _ s' h ↦ ?_) fun _ _ h ↦ h.2
  obtain ⟨⟨word', hdecoded⟩, -⟩ := h
  rwa [Option.some.inj (hdecoded.fetchedWord.symm.trans hword)] at hdecoded

theorem triple_classifyOperands (s : State) :
    Triple (· = s) classifyOperands (fun _ s' ↦ s' = s) fun e _ ↦ isHost e := by
  refine Triple.read_bind fun s' h ↦ ?_
  rw [h]
  split
  · exact Triple.ret fun _ h ↦ h
  · exact Triple.ite (fun _ ↦ Triple.raise fun _ _ ↦ trivial) fun _ ↦ Triple.ret fun _ h ↦ h

theorem triple_cover (env : Env) (flags : OperandFlags) (s : State) :
    Triple (· = s) (cover env flags) (fun _ s' ↦ ∃ cov, s' = { s with coverage := cov })
      fun e _ ↦ isHost e := by
  rintro _ rfl
  rename_i s
  unfold cover
  cases s.coverage with
  | none => trivial
  | some cov =>
    dsimp only
    cases Coverage.coverSources (s.lastPc.setWidth 64) flags (env.getSources (s.lastPc.setWidth 64))
      cov with
    | ok _ cov' => exact ⟨_, rfl⟩
    | error _ _ => trivial

/-- The state in which the instruction of a step is executed, if it can be fetched. -/
def State.frontEnd (s : State) : Option State :=
  match (do fetch; decode : IssM Unit) s.started with
  | .ok _ d => some d
  | .error _ _ => none

theorem State.decoded_of_frontEnd {s d : State} (h : s.frontEnd = some d) :
    ∃ word, Decoded s.started word d := by
  unfold State.frontEnd at h
  cases hrun : (do fetch; decode : IssM Unit) s.started with
  | ok _ d' =>
    rw [hrun] at h
    obtain rfl := Option.some.inj h
    exact (triple_fetch_decode s.started).of_ok rfl hrun
  | error e s' =>
    rw [hrun] at h
    cases h

/-- The instruction is fetched and decoded before it is executed. -/
theorem execStep_eq_bind (env : Env) :
    execStep env = (do fetch; decode) >>= fun _ ↦ (do
      let flags ← classifyOperands
      let init ← execute env
      cover env ⟨flags.1, flags.2, init⟩) := by
  simp only [execStep, bind_assoc]

/-- The address that a load or store accesses. -/
def State.dataAddress (s : State) : Option (BitVec 32) :=
  match s.op with
  | .LB | .LH | .LW | .LBU | .LHU => some (getValue ((s.regs s.rs1).add s.iImm))
  | .SB | .SH | .SW => some (getValue ((s.regs s.rs1).add s.sImm))
  | _ => none

/-- The number of bytes that a load or store accesses. -/
def dataBytes : Opcode → Nat
  | .LB | .LBU | .SB => 1
  | .LH | .LHU | .SH => 2
  | _ => 4

/-- The instruction accesses data at an address. A misaligned address is not accessed. -/
def State.AccessesData (s : State) (va : BitVec 32) : Prop :=
  s.dataAddress = some va ∧ va.toNat % dataBytes s.op = 0

end CoverageVP.Iss
