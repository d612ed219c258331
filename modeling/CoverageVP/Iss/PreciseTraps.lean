import CoverageVP.Iss.TrapEntry

/-!
# Precise traps

An instruction that traps leaves the registers as they were, and the memory but for the accessed
and dirty bits of the page table entries that its translations mark: every trap is raised before the instruction writes its
result. The trap itself is recorded in the registers of the mode that takes it.
-/

namespace CoverageVP.Iss

open Lib Clover Instr Csr

/-! ## Before the result is written -/

/-- A step accesses its instruction, and the data of a load or store. -/
def State.Accesses (s : State) (type : MemoryAccessType) (va : BitVec 32) : Prop :=
  (type = .FETCH ∧ va = s.pc) ∨ (type = .STORE ∧ ∃ d, s.frontEnd = some d ∧ d.AccessesData va)

/-- An access is translated by a page table, and the entry is the leaf of its page. -/
def State.MarksFor (s : State) (type : MemoryAccessType) (va : BitVec 32) (paddr : BitVec 64) :
    Prop :=
  (s.mmu ≠ none ∧ s.Translates type) ∧ s.LeafOf (va.setWidth 64) paddr

/-- The page table entries that a step may mark. -/
def State.MarkedEntry (s : State) (paddr : BitVec 64) : Prop :=
  ∃ type va, s.Accesses type va ∧ s.MarksFor type va paddr

theorem State.MarkedEntry.aligned {s : State} {paddr : BitVec 64} (h : s.MarkedEntry paddr) :
    (paddr.setWidth 32).toNat % 4 = 0 := by
  obtain ⟨type, va, -, -, hleaf⟩ := h
  exact hleaf.aligned s.pageTable_aligned

/-- What an instruction leaves alone until it writes its result. -/
structure Untouched (s₀ s : State) : Prop where
  regs : s.regs = s₀.regs
  csrs : s₀.csrs.EqUpToCounters s.csrs
  prv : s.prv = s₀.prv
  lastPc : s.lastPc = s₀.lastPc
  sys : s.sys = s₀.sys

/-- The memory is as before, too, but for the marks of translations. -/
structure Unwritten (s₀ s : State) : Prop extends Untouched s₀ s where
  mmu : s₀.mmu = none → s.mmu = none
  mem : EqUpToMarks s₀.MarkedEntry s₀.mem s.mem
  unmarked : (∀ paddr, ¬ s₀.MarkedEntry paddr) → s.mem = s₀.mem

/-- A trap of the guest leaves an unwritten state. -/
def TrapUnwritten (s₀ : State) : Thrown → State → Prop
  | .trap _ _, s => Unwritten s₀ s
  | .host _, _ => True

/-- From an unwritten state the program traps in an unwritten state only. -/
def Precise {α : Type} (s₀ : State) (m : IssM α) : Prop :=
  Triple (Unwritten s₀) m (fun _ _ ↦ True) (TrapUnwritten s₀)

/-- The program does not trap. -/
def NoTrap {α : Type} (m : IssM α) : Prop :=
  Triple (fun _ ↦ True) m (fun _ _ ↦ True) (fun e _ ↦ ∀ reason mtval, e ≠ .trap reason mtval)

theorem Unwritten.refl (s : State) : Unwritten s s :=
  ⟨⟨rfl, fun _ _ ↦ rfl, rfl, rfl, rfl⟩, fun h ↦ h, .refl s.mem, fun _ ↦ rfl⟩

/-- The translation of an access of the step marks an entry of the step. -/
theorem Unwritten.walked {s₀ s s' : State} {type : MemoryAccessType} {va : BitVec 32}
    (h : Unwritten s₀ s) (haccess : s₀.Accesses type va)
    (hwalked : Walked s (va.setWidth 64) type s') : Unwritten s₀ s' := by
  have hregs : s'.csrs = s.csrs ∧ s'.regs = s.regs ∧ s'.prv = s.prv ∧ s'.lastPc = s.lastPc ∧
      s'.sys = s.sys := by
    rw [hwalked.frame]
    exact ⟨rfl, rfl, rfl, rfl, rfl⟩
  obtain ⟨hcsrs, hregs, hprv, hlastPc, hsys⟩ := hregs
  have hmark : ∀ paddr, (s.mmu ≠ none ∧ s.Translates type) → s.LeafOf (va.setWidth 64) paddr →
      s₀.MarkedEntry paddr := by
    intro paddr htranslates hleaf
    have hroot : s.pageTable = s₀.pageTable := by
      rw [State.pageTable, CsrTable.satpPpn, h.csrs .satp rfl]
      rfl
    have hmode : s.accessMode type = s₀.accessMode type := by
      rw [State.accessMode, State.accessMode, CsrTable.mstatusMprv, CsrTable.mstatusMpp,
        h.csrs .mstatus rfl, h.prv]
      rfl
    have hsatp : s₀.csrs.satpMode = 1#1 := by
      have hsatp := htranslates.2.1
      rw [CsrTable.satpMode, h.csrs .satp rfl] at hsatp
      exact hsatp
    rw [State.LeafOf, hroot] at hleaf
    refine ⟨type, va, haccess, ⟨mt h.mmu htranslates.1, hsatp, hmode ▸ htranslates.2.2⟩, ?_⟩
    exact h.mem.leafBelow (fun _ ↦ State.MarkedEntry.aligned) s₀.pageTable_aligned hleaf
  refine ⟨⟨hregs.trans h.regs, hcsrs ▸ h.csrs, hprv.trans h.prv, hlastPc.trans h.lastPc,
    hsys.trans h.sys⟩, fun hnone ↦ ?_, ?_, fun hnot ↦ ?_⟩
  · obtain hmmu | ⟨hsome, -⟩ := hwalked.mmu
    · exact hmmu.trans (h.mmu hnone)
    · exact absurd (h.mmu hnone) hsome
  · obtain hmem | ⟨htranslates, paddr, hleaf, hmem⟩ := hwalked.mem
    · rw [hmem]
      exact h.mem
    · rw [hmem]
      exact h.mem.mark (fun _ ↦ State.MarkedEntry.aligned) (hmark paddr htranslates hleaf) type
  · obtain hmem | ⟨htranslates, paddr, hleaf, -⟩ := hwalked.mem
    · exact hmem.trans (h.unmarked hnot)
    · exact absurd (hmark paddr htranslates hleaf) (hnot paddr)

theorem keeps_v2p_unwritten {s₀ : State} {type : MemoryAccessType} {va : BitVec 32}
    (haccess : s₀.Accesses type va) : Keeps (Unwritten s₀) (v2p (va.setWidth 64) type) :=
  Triple.of_start fun s hs ↦ (triple_v2p_walked s _ type).conseq (fun _ h ↦ h)
    (fun _ _ h ↦ hs.walked haccess h) fun _ _ h ↦ hs.walked haccess h

section Rules

variable {s₀ : State} {α β : Type}

theorem Unwritten.trapUnwritten {s : State} (h : Unwritten s₀ s) (e : Thrown) :
    TrapUnwritten s₀ e s := by
  cases e with
  | trap reason mtval => exact h
  | host error => trivial

theorem NoTrap.precise {m : IssM α} (h : NoTrap m) : Precise s₀ m := by
  refine h.conseq (fun _ _ ↦ trivial) (fun _ _ h ↦ h) fun e s he ↦ ?_
  cases e with
  | trap reason mtval => exact absurd rfl (he reason mtval)
  | host error => trivial

theorem Precise.of_keeps {m : IssM α} (h : Keeps (Unwritten s₀) m) : Precise s₀ m :=
  h.conseq (fun _ h ↦ h) (fun _ _ _ ↦ trivial) fun e _ h ↦ h.trapUnwritten e

theorem Precise.bind_keeps {m : IssM α} {f : α → IssM β} (hm : Keeps (Unwritten s₀) m)
    (hf : ∀ a, Precise s₀ (f a)) : Precise s₀ (m >>= f) :=
  Triple.bind (hm.conseq (fun _ h ↦ h) (fun _ _ h ↦ h) fun e _ h ↦ h.trapUnwritten e) hf

/-- After the result is written, nothing traps. -/
theorem triple_bind_noTrap {P : State → Prop} {m : IssM α} {f : α → IssM β}
    (hm : Triple P m (fun _ _ ↦ True) (TrapUnwritten s₀)) (hf : ∀ a, NoTrap (f a)) :
    Triple P (m >>= f) (fun _ _ ↦ True) (TrapUnwritten s₀) := by
  refine Triple.bind hm fun a ↦ (hf a).conseq (fun _ h ↦ h) (fun _ _ h ↦ h) fun e s he ↦ ?_
  cases e with
  | trap reason mtval => exact absurd rfl (he reason mtval)
  | host error => trivial

theorem Precise.bind_noTrap {m : IssM α} {f : α → IssM β} (hm : Precise s₀ m)
    (hf : ∀ a, NoTrap (f a)) : Precise s₀ (m >>= f) :=
  triple_bind_noTrap hm hf

/-- What follows a check is done only if the check is passed. -/
theorem Precise.bind_raiseTrapIf {c : Prop} [Decidable c] {reason : ExceptionCode}
    {mtval : BitVec 64} {m : IssM α} (hm : ¬ c → Precise s₀ m) :
    Precise s₀ (raiseTrapIf c reason mtval >>= fun _ ↦ m) := by
  by_cases hc : c
  · exact Triple.bind (Q := fun _ _ ↦ False)
      (triple_raiseTrapIf (fun _ _ hnot ↦ absurd hc hnot) fun _ h _ ↦ h) fun _ _ h ↦ h.elim
  · exact Precise.bind_keeps (keeps_raiseTrapIf _ _) fun _ ↦ hm hc

theorem Precise.read_bind {f : State → IssM β} (hf : ∀ s, Unwritten s₀ s → Precise s₀ (f s)) :
    Precise s₀ (get >>= f) :=
  Triple.read_bind fun s hs ↦ Triple.pre (hf s hs) fun _ h ↦ h ▸ hs

theorem Precise.ite {c : Prop} [Decidable c] {m m' : IssM α} (hm : Precise s₀ m)
    (hm' : Precise s₀ m') : Precise s₀ (if c then m else m') :=
  Triple.ite (fun _ ↦ hm) fun _ ↦ hm'

theorem NoTrap.ret (a : α) : NoTrap (pure a) := Triple.ret fun _ _ ↦ trivial

theorem NoTrap.update (f : State → State) : NoTrap (modify f : IssM Unit) :=
  Triple.update fun _ _ ↦ trivial

theorem NoTrap.host (error : HostError) : NoTrap (hostError error : IssM α) := by
  refine Triple.raise fun _ _ reason mtval h ↦ ?_
  cases h

theorem NoTrap.bind {m : IssM α} {f : α → IssM β} (hm : NoTrap m) (hf : ∀ a, NoTrap (f a)) :
    NoTrap (m >>= f) :=
  Triple.bind hm hf

theorem NoTrap.ite {c : Prop} [Decidable c] {m m' : IssM α} (hm : NoTrap m) (hm' : NoTrap m') :
    NoTrap (if c then m else m') :=
  Triple.ite (fun _ ↦ hm) fun _ ↦ hm'

/-- From a state that is known. -/
theorem Precise.start {m : IssM α} (h : Precise s₀ m) {s : State} (hs : Unwritten s₀ s) :
    Triple (· = s) m (fun _ _ ↦ True) (TrapUnwritten s₀) :=
  Triple.pre h fun _ h ↦ h ▸ hs

end Rules

/-! ## CSR instructions -/

/-- A register whose write does not trap. -/
structure Settable (csrs : CsrTable) (addr : Nat) : Prop where
  satp : addr = SATP_ADDR → csrs.mstatusTvm ≠ 1#1
  known : (registerAt addr).isSome = true ∨ (readMask addr).isSome = true ∨ addr = FFLAGS_ADDR ∨
    addr = FRM_ADDR ∨ (isDebug addr || isHpmCounter addr) = true

/-- A register that was read can be written. -/
theorem triple_getCsrValue_settable (env : Env) (addr : Nat) :
    Triple (fun _ ↦ True) (getCsrValue env addr) (fun _ s ↦ Settable s.csrs addr)
      (fun _ _ ↦ True) := by
  have hread : ∀ r, Triple (fun s ↦ Settable s.csrs addr) (readCsr r)
      (fun _ s ↦ Settable s.csrs addr) (fun _ _ ↦ True) :=
    fun r ↦ Triple.read_bind fun _ hs ↦ Triple.ret fun _ h ↦ h ▸ hs
  have hregister : (registerAt addr).isSome = true → addr ≠ SATP_ADDR →
      ∀ csrs, Settable csrs addr :=
    fun hsome hne csrs ↦ ⟨fun h ↦ absurd h hne, .inl hsome⟩
  refine Triple.bind (Q := fun _ _ ↦ True) ?_ fun _ ↦ ?_
  · exact Triple.read_bind fun s _ ↦
      triple_raiseIllegalInstructionIf (fun _ _ _ ↦ trivial) fun _ _ _ ↦ trivial
  split
  case h_1 r mask hmask =>
    refine Triple.read_bind fun s _ ↦ Triple.ret fun _ _ ↦ ⟨fun h ↦ ?_, .inr (.inl ?_)⟩
    · rw [h] at hmask
      cases hmask
    · rw [hmask]
      rfl
  case h_2 hnone =>
    split
    case h_1 | h_2 | h_3 | h_4 | h_5 | h_6 =>
      exact Triple.bind (Q := fun _ s ↦ Settable s.csrs _)
        (Triple.update fun _ _ ↦ hregister (by decide +kernel) (by decide) _) fun _ ↦ hread _
    case h_7 | h_8 =>
      exact Triple.pre (hread _) fun s _ ↦ hregister (by decide +kernel) (by decide) _
    case h_9 =>
      refine Triple.read_bind fun s _ ↦ Triple.bind
        (Q := fun _ s' ↦ s' = s ∧ s.csrs.mstatusTvm ≠ 1#1)
        (triple_raiseIllegalInstructionIf (fun _ h hc ↦ ⟨h, hc⟩) fun _ _ _ ↦ trivial) fun _ ↦ ?_
      have hsome : (registerAt SATP_ADDR).isSome = true := by decide +kernel
      obtain ⟨r, hr⟩ := Option.isSome_iff_exists.mp hsome
      change Triple _ (defaultRead32 SATP_ADDR) _ _
      rw [defaultRead32, hr]
      refine Triple.read_bind fun s' h ↦ Triple.ret fun s'' h' ↦ ⟨fun _ ↦ ?_, .inl hsome⟩
      rw [h', h.1]
      exact h.2
    case h_10 | h_11 =>
      exact Triple.read_bind fun s _ ↦ Triple.ret fun _ _ ↦
        ⟨fun h ↦ absurd h (by decide), .inr (.inr (by decide))⟩
    case h_12 =>
      exact Triple.ret fun _ _ ↦ ⟨fun h ↦ absurd h (by decide), .inr (.inr (by decide))⟩
    case h_13 hsatp _ _ _ =>
      refine Triple.ite (fun hspecial ↦ Triple.ret fun _ _ ↦
        ⟨fun h ↦ absurd h hsatp, .inr (.inr (.inr (.inr hspecial)))⟩) fun _ ↦ ?_
      unfold defaultRead32
      split
      case h_1 r hr =>
        refine Triple.read_bind fun s _ ↦ Triple.ret fun _ _ ↦ hregister ?_ hsatp _
        rw [hr]
        rfl
      case h_2 => exact triple_raiseIllegalInstruction fun _ _ ↦ trivial

theorem writeMask_isSome_of_readMask {m : BitVec 32} {addr : Nat}
    (h : (readMask addr).isSome = true) : (writeMask m addr).isSome = true := by
  unfold readMask at h
  split at h
  case h_11 => cases h
  all_goals rfl

/-- The write of a settable register does not trap. -/
theorem triple_setCsrValue_settable (addr : Nat) (value : BitVec 32) :
    Triple (fun s ↦ Settable s.csrs addr) (setCsrValue addr value) (fun _ _ ↦ True)
      (fun e _ ↦ ∀ reason mtval, e ≠ .trap reason mtval) := by
  refine Triple.read_bind fun s hs ↦ ?_
  split
  case h_1 => exact Triple.update fun _ _ ↦ trivial
  case h_2 hnone =>
    split
    case h_1 => exact Triple.ret fun _ _ ↦ trivial
    case h_2 =>
      refine Triple.bind (Q := fun _ _ ↦ True) ?_ fun _ ↦ Triple.update fun _ _ ↦ trivial
      exact triple_raiseIllegalInstructionIf (fun _ _ _ ↦ trivial) fun _ _ hc ↦
        absurd hc (hs.satp rfl)
    case h_3 | h_4 => exact Triple.update fun _ _ ↦ trivial
    case h_5 hmisa hsatp hfflags hfrm =>
      refine Triple.ite (fun _ ↦ Triple.ret fun _ _ ↦ trivial) fun hplain ↦ ?_
      have hsome : (registerAt addr).isSome = true := by
        rcases hs.known with h | h | h | h | h
        · exact h
        · rw [Option.isSome_iff_exists] at h
          have hmask := writeMask_isSome_of_readMask (m := s.pcAlignmentMask)
            (Option.isSome_iff_exists.mpr h)
          rw [hnone] at hmask
          cases hmask
        · exact absurd h hfflags
        · exact absurd h hfrm
        · exact absurd h hplain
      obtain ⟨r, hr⟩ := Option.isSome_iff_exists.mp hsome
      unfold defaultWrite32
      rw [hr]
      exact Triple.update fun _ _ ↦ trivial

/-- A write traps before it changes anything. -/
theorem precise_setCsrValue {s₀ : State} (addr : Nat) (value : BitVec 32) :
    Precise s₀ (setCsrValue addr value) := by
  refine Precise.read_bind fun s hs ↦ ?_
  split
  case h_1 => exact (NoTrap.update _).precise
  case h_2 =>
    split
    case h_1 => exact (NoTrap.ret _).precise
    case h_2 =>
      exact Precise.bind_keeps keeps_raiseIllegalInstructionIf fun _ ↦ (NoTrap.update _).precise
    case h_3 | h_4 => exact (NoTrap.update _).precise
    case h_5 =>
      refine Precise.ite (NoTrap.ret _).precise ?_
      unfold defaultWrite32
      split
      · exact (NoTrap.update _).precise
      · exact Precise.of_keeps keeps_raiseIllegalInstruction

theorem unwritten_ignoresCounters (s₀ : State) : IgnoresCounters (Unwritten s₀) := by
  intro s csrs n heq h
  exact ⟨⟨h.regs, fun r hr ↦ (heq r hr).trans (h.csrs r hr), h.prv, h.lastPc, h.sys⟩, h.mmu, h.mem,
    h.unmarked⟩

/-- Reading, writing the destination and then writing the register. -/
theorem precise_getAndSet {s₀ : State} (env : Env) (addr : Nat)
    {set : BitVec 32 → IssM Unit}
    (hset : ∀ old, Triple (fun s ↦ Settable s.csrs addr) (set old) (fun _ _ ↦ True)
      (fun e _ ↦ ∀ reason mtval, e ≠ .trap reason mtval)) :
    Precise s₀ (do
      let old ← getCsrValue env addr
      writeOldValue old
      set old) := by
  have hget := (keeps_getCsrValue (unwritten_ignoresCounters s₀) env addr).and
    (Triple.pre (triple_getCsrValue_settable env addr) fun _ _ ↦ trivial)
  refine Triple.bind (hget.conseq (fun _ h ↦ h) (fun _ _ h ↦ h) fun e _ h ↦
    h.1.trapUnwritten e) fun old ↦ ?_
  have hrest : Triple (fun s ↦ Settable s.csrs addr) (do writeOldValue old; set old)
      (fun _ _ ↦ True) (fun e _ ↦ ∀ reason mtval, e ≠ .trap reason mtval) := by
    refine Triple.bind (Q := fun _ s ↦ Settable s.csrs addr) ?_ fun _ ↦ hset old
    refine Triple.read_bind fun s hs ↦ Triple.ite (fun _ ↦ Triple.update fun s' h ↦ ?_)
      fun _ ↦ Triple.ret fun s' h ↦ ?_
    · rw [h]
      exact hs
    · rw [h]
      exact hs
  refine hrest.conseq (fun _ h ↦ h.2) (fun _ _ h ↦ h) fun e _ he ↦ ?_
  cases e with
  | trap reason mtval => exact absurd rfl (he reason mtval)
  | host error => trivial

theorem keeps_isInvalidCsrAccess {I : State → Prop} (addr : Nat) (isWrite : Bool) :
    Keeps I (isInvalidCsrAccess addr isWrite) :=
  Keeps.read_bind fun _ _ ↦ Keeps.bind keeps_raiseIllegalInstructionIf fun _ ↦ Keeps.ret _

theorem precise_execCsr {s₀ : State} (env : Env) (op : Opcode) : Precise s₀ (execCsr env op) := by
  have hwrite : ∀ value, Precise s₀ (csrReadWrite env value) := fun value ↦
    Precise.read_bind fun s _ ↦ Precise.bind_keeps (keeps_isInvalidCsrAccess _ _) fun _ ↦
      Precise.ite (Precise.of_keeps keeps_raiseIllegalInstruction) (Precise.ite
        (precise_getAndSet env _ fun _ ↦ triple_setCsrValue_settable _ _)
        (precise_setCsrValue _ _))
  have hmodify : ∀ w update, Precise s₀ (csrReadModify env w update) := fun w update ↦
    Precise.read_bind fun s _ ↦ Precise.bind_keeps (keeps_isInvalidCsrAccess _ _) fun _ ↦
      Precise.ite (Precise.of_keeps keeps_raiseIllegalInstruction)
        (precise_getAndSet env _ fun _ ↦ Triple.ite (fun _ ↦ triple_setCsrValue_settable _ _)
          fun _ ↦ Triple.ret fun _ _ ↦ trivial)
  refine Precise.read_bind fun s _ ↦ ?_
  dsimp only
  split
  case h_1 | h_4 => exact hwrite _
  all_goals exact hmodify _ _

/-! ## Instructions -/

section Instructions

variable {s₀ : State}

/-- A change of what an instruction may change before it writes its result. -/
theorem Unwritten.congr {s s' : State} (h : Unwritten s₀ s) (hregs : s'.regs = s.regs)
    (hcsrs : s'.csrs = s.csrs) (hprv : s'.prv = s.prv) (hlastPc : s'.lastPc = s.lastPc)
    (hsys : s'.sys = s.sys) (hmmu : s'.mmu = s.mmu) (hmem : s'.mem = s.mem) : Unwritten s₀ s' where
  regs := hregs.trans h.regs
  csrs := hcsrs ▸ h.csrs
  prv := hprv.trans h.prv
  lastPc := hlastPc.trans h.lastPc
  sys := hsys.trans h.sys
  mmu := fun hnone ↦ hmmu.trans (h.mmu hnone)
  mem := hmem ▸ h.mem
  unmarked := fun hnot ↦ hmem.trans (h.unmarked hnot)

theorem unwritten_fetch : Triple (· = s₀) fetch (fun _ ↦ Unwritten s₀) (fun _ ↦ Unwritten s₀) := by
  have hload : Keeps (Unwritten s₀) (loadInstr s₀.pc) :=
    keeps_loadInstr_of_v2p (keeps_v2p_unwritten (.inl ⟨rfl, rfl⟩))
  refine Triple.read_bind fun s hs ↦ Triple.pre (Keeps.bind keeps_ensure fun _ ↦ Keeps.bind
    (Keeps.handle (hs ▸ hload) fun e ↦ ?_) fun _ ↦
    Keeps.update fun _ h ↦ h.congr rfl rfl rfl rfl rfl rfl rfl) fun _ h ↦ ?_
  · cases e with
    | trap reason mtval =>
      exact Keeps.bind (Keeps.update fun _ h ↦ h.congr rfl rfl rfl rfl rfl rfl rfl)
        fun _ ↦ Keeps.raise _
    | host error => exact Keeps.raise _
  · rw [h, hs]
    exact .refl s₀

theorem unwritten_decode : Keeps (Unwritten s₀) decode := by
  refine Keeps.read_bind fun s _ ↦ Keeps.ite ?_
    (Keeps.update fun _ h ↦ h.congr rfl rfl rfl rfl rfl rfl rfl)
  split
  · exact Keeps.bind (Keeps.update fun _ h ↦ h.congr rfl rfl rfl rfl rfl rfl rfl)
      fun _ ↦ Keeps.read_bind fun _ _ ↦ keeps_raiseIllegalInstructionIf
  · exact Keeps.raise _

theorem unwritten_jump (target : BitVec 32) : Keeps (Unwritten s₀) (jump target) :=
  Keeps.bind (Keeps.update fun _ h ↦ h.congr rfl rfl rfl rfl rfl rfl rfl) fun _ ↦
    Keeps.read_bind fun _ _ ↦ Keeps.bind keeps_ensure fun _ ↦ keeps_raiseTrapIf _ _

theorem unwritten_execWfi : Keeps (Unwritten s₀) execWfi :=
  Keeps.bind (Keeps.update fun _ h ↦ h.congr rfl rfl rfl rfl rfl rfl rfl) fun _ ↦
    Keeps.read_bind fun _ _ ↦
      Keeps.bind keeps_raiseIllegalInstructionIf fun _ ↦ keeps_raiseIllegalInstructionIf

theorem precise_jumpAndLink (target : BitVec 32) : Precise s₀ (jumpAndLink target) :=
  Precise.read_bind fun _ _ ↦ Precise.bind_keeps (unwritten_jump target) fun _ ↦
    (NoTrap.update _).precise

theorem precise_execBranch (res : ConcolicValue) : Precise s₀ (execBranch res) := by
  refine Precise.read_bind fun s _ ↦
    Precise.bind_keeps (Keeps.ite (unwritten_jump _) (Keeps.ret _)) fun _ ↦ ?_
  unfold trackAndTraceBranch
  split
  · exact (NoTrap.update _).precise
  · exact (NoTrap.ret _).precise

theorem precise_execLoad {s : State} {n : Nat} {load : ConcolicValue → IssM ConcolicValue}
    (hs : Unwritten s₀ s) (hload : (getValue ((s.regs s.rs1).add s.iImm)).toNat % n = 0 →
      Keeps (Unwritten s₀) (load ((s.regs s.rs1).add s.iImm))) :
    Triple (· = s) (execLoad n load) (fun _ _ ↦ True) (TrapUnwritten s₀) := by
  refine Triple.read_bind fun s' h ↦ ?_
  rw [h]
  refine Precise.start (Precise.bind_raiseTrapIf fun haligned ↦
    Precise.bind_keeps (hload (not_not.mp haligned)) fun _ ↦ ?_) hs
  exact (NoTrap.bind (NoTrap.update _) fun _ ↦
    NoTrap.ite (NoTrap.bind (NoTrap.update _) fun _ ↦ NoTrap.ret _) (NoTrap.ret _)).precise

theorem precise_execStore {s : State} {n : Nat} (hs : Unwritten s₀ s)
    (haccess : (getValue ((s.regs s.rs1).add s.sImm)).toNat % n = 0 →
      s₀.Accesses .STORE (getValue ((s.regs s.rs1).add s.sImm))) :
    Triple (· = s) (execStore n fun addr value ↦ symbolicStoreData addr (some value) n)
      (fun _ _ ↦ True) (TrapUnwritten s₀) := by
  refine Triple.read_bind fun s' h ↦ ?_
  rw [h]
  refine Precise.start (Precise.bind_raiseTrapIf fun haligned ↦
    Precise.bind_keeps (keeps_v2p_unwritten (haccess (not_not.mp haligned))) fun paddr ↦ ?_) hs
  exact Precise.read_bind fun _ _ ↦ Precise.bind_keeps (keeps_raiseTrapIf _ _) fun _ ↦
    (NoTrap.update _).precise

theorem precise_execEcall (env : Env) (h₀ : s₀.NotIntercepted) : Precise s₀ (execEcall env) := by
  refine Triple.of_start fun s hs ↦ triple_execEcall ?_ (Triple.pre ?_ fun _ h ↦ h ▸ hs) env
  · unfold State.NotIntercepted
    rw [hs.sys, hs.regs]
    exact h₀
  · exact Precise.of_keeps keeps_raiseEcall

theorem precise_executeOther (env : Env) (h₀ : s₀.NotIntercepted) {s : State}
    (hs : Unwritten s₀ s) (hdata : ∀ va, s.AccessesData va → s₀.Accesses .STORE va) :
    Triple (· = s) (executeOther env s.op) (fun _ _ ↦ True) (TrapUnwritten s₀) := by
  have hload : ∀ op, op ∈ [Opcode.LB, .LH, .LW, .LBU, .LHU] → s.op = op →
      (getValue ((s.regs s.rs1).add s.iImm)).toNat % dataBytes op = 0 →
      Keeps (Unwritten s₀) (v2p ((getValue ((s.regs s.rs1).add s.iImm)).setWidth 64) .STORE) := by
    intro op hmem hop haligned
    refine keeps_v2p_unwritten (hdata _ ⟨?_, by rwa [hop]⟩)
    unfold State.dataAddress
    rw [hop]
    simp only [List.mem_cons, List.not_mem_nil, or_false] at hmem
    obtain rfl | rfl | rfl | rfl | rfl := hmem <;> rfl
  have hstore : ∀ op, op ∈ [Opcode.SB, .SH, .SW] → s.op = op →
      (getValue ((s.regs s.rs1).add s.sImm)).toNat % dataBytes op = 0 →
      s₀.Accesses .STORE (getValue ((s.regs s.rs1).add s.sImm)) := by
    intro op hmem hop haligned
    refine hdata _ ⟨?_, by rwa [hop]⟩
    unfold State.dataAddress
    rw [hop]
    simp only [List.mem_cons, List.not_mem_nil, or_false] at hmem
    obtain rfl | rfl | rfl := hmem <;> rfl
  unfold executeOther
  split
  case h_1 => exact (Precise.of_keeps keeps_raiseIllegalInstruction).start hs
  case h_2 | h_3 =>
    exact Precise.start (Precise.read_bind fun _ _ ↦
      Precise.bind_noTrap (precise_jumpAndLink _) fun _ ↦ NoTrap.ret _) hs
  case h_4 hop | h_5 hop | h_6 hop =>
    exact triple_bind_noTrap (precise_execStore hs (hstore _ (by simp) hop)) fun _ ↦ NoTrap.ret _
  case h_7 hop | h_8 hop | h_9 hop =>
    exact precise_execLoad hs fun h ↦ keeps_loadSigned_of_v2p (hload _ (by simp) hop h) _
  case h_10 hop | h_11 hop =>
    exact precise_execLoad hs fun h ↦ keeps_loadUnsigned_of_v2p (hload _ (by simp) hop h) _
  case h_12 | h_13 => exact (NoTrap.ret _).precise.start hs
  case h_14 =>
    exact Precise.start (Precise.bind_noTrap (precise_execEcall env h₀) fun _ ↦ NoTrap.ret _) hs
  case h_15 => exact (NoTrap.bind (NoTrap.update _) fun _ ↦ NoTrap.ret _).precise.start hs
  case h_16 | h_17 | h_18 | h_19 | h_20 | h_21 =>
    exact Precise.start (Precise.bind_noTrap (precise_execCsr env _) fun _ ↦ NoTrap.ret _) hs
  case h_22 =>
    exact Precise.start (Precise.of_keeps (Keeps.bind unwritten_execWfi fun _ ↦ Keeps.ret _)) hs
  case h_23 => exact (NoTrap.bind (NoTrap.update _) fun _ ↦ NoTrap.ret _).precise.start hs
  case h_24 => exact (NoTrap.host _).precise.start hs

theorem precise_execute (env : Env) (h₀ : s₀.NotIntercepted) {s : State} (hs : Unwritten s₀ s)
    (hdata : ∀ va, s.AccessesData va → s₀.Accesses .STORE va) :
    Triple (· = s) (execute env) (fun _ _ ↦ True) (TrapUnwritten s₀) := by
  refine Triple.read_bind fun s' h ↦ ?_
  rw [h]
  split
  · exact (NoTrap.bind (NoTrap.update _) fun _ ↦ NoTrap.ret _).precise.start hs
  split
  · exact Precise.start (Precise.bind_noTrap (precise_execBranch _) fun _ ↦ NoTrap.ret _) hs
  · exact precise_executeOther env h₀ hs hdata

theorem noTrap_cover (env : Env) (flags : OperandFlags) : NoTrap (cover env flags) := by
  intro s _
  unfold cover
  cases s.coverage with
  | none => exact fun _ _ h ↦ by cases h
  | some cov =>
    dsimp only
    cases Coverage.coverSources (s.lastPc.setWidth 64) flags (env.getSources (s.lastPc.setWidth 64))
      cov with
    | ok _ _ => trivial
    | error _ _ => exact fun _ _ h ↦ by cases h

/-- The instruction of a step is executed in the state that its fetch and its decoding leave. -/
theorem unwritten_frontEnd (s : State) :
    Triple (· = s.started) (do fetch; decode)
      (fun _ d ↦ Unwritten s.started d ∧ s.frontEnd = some d) (fun _ ↦ Unwritten s.started) := by
  have hkeeps : Triple (· = s.started) (do fetch; decode) (fun _ ↦ Unwritten s.started)
      (fun _ ↦ Unwritten s.started) := Triple.bind unwritten_fetch fun _ ↦ unwritten_decode
  rintro _ rfl
  cases hrun : (do fetch; decode : IssM Unit) s.started with
  | ok _ d =>
    refine ⟨hkeeps.of_ok rfl hrun, ?_⟩
    rw [State.frontEnd, hrun]
  | error e s' => exact hkeeps.of_error rfl hrun

/-- Every trap of an instruction is raised before it writes its result. -/
theorem precise_execStep (env : Env) {s : State} (h₀ : s.started.NotIntercepted) :
    Triple (· = s.started) (execStep env) (fun _ _ ↦ True) (TrapUnwritten s.started) := by
  rw [execStep_eq_bind]
  refine Triple.bind ((unwritten_frontEnd s).conseq (fun _ h ↦ h) (fun _ _ h ↦ h) fun e _ h ↦
    h.trapUnwritten e) fun _ ↦ Triple.of_start fun d hd ↦ ?_
  have hdata : ∀ va, d.AccessesData va → s.started.Accesses .STORE va :=
    fun va hva ↦ .inr ⟨rfl, d, hd.2, hva⟩
  refine Triple.bind ((triple_classifyOperands d).conseq (fun _ h ↦ h) (fun _ _ h ↦ h)
    fun e _ h ↦ ?_) fun _ ↦ ?_
  · cases e with
    | trap reason mtval => exact h.elim
    | host error => trivial
  · exact triple_bind_noTrap (precise_execute env h₀ hd.1 hdata) fun _ ↦ noTrap_cover env _

end Instructions

namespace CsrTable

variable (csrs : CsrTable)

/-- The cause and the value of a trap are written to the registers of the mode that takes it. -/
def recorded (mode : Nat) (reason : ExceptionCode) (value : BitVec 32) : CsrTable :=
  (csrs.setCause (causeReg mode) 0#1 reason.toNat).set (tvalReg mode) value

theorem causeReg_ne_tvalReg (mode : Nat) : causeReg mode ≠ tvalReg mode :=
  causeReg_ne ⟨tvalReg_ne (by decide) mode, tvalReg_ne (by decide) mode,
    tvalReg_ne (by decide) mode⟩ mode

theorem recorded_causeReg (mode : Nat) (reason : ExceptionCode) (value : BitVec 32) :
    csrs.recorded mode reason value (causeReg mode) =
      setField (setField (csrs (causeReg mode)) 31 0#1) 0 (BitVec.ofNat 31 reason.toNat) := by
  rw [recorded, set_of_ne _ _ (causeReg_ne_tvalReg mode), setCause, set_self]

theorem recorded_tvalReg (mode : Nat) (reason : ExceptionCode) (value : BitVec 32) :
    csrs.recorded mode reason value (tvalReg mode) = value :=
  set_self _ _ _

theorem recorded_of_ne (mode : Nat) (reason : ExceptionCode) (value : BitVec 32) {r : CsrReg}
    (hcause : r ≠ causeReg mode) (htval : r ≠ tvalReg mode) :
    csrs.recorded mode reason value r = csrs r := by
  rw [recorded, set_of_ne _ _ htval, setCause, set_of_ne _ _ hcause]

end CsrTable

/-- The state after a trap. -/
def State.trapped (s : State) (reason : ExceptionCode) (mtval : BitVec 64) : State :=
  let target := s.csrs.trapTarget s.prv reason
  let csrs := s.csrs.recorded target reason (mtval.setWidth 32)
  { s with
    lrScCounter := 0
    prv := target
    csrs := csrs.enter target s.prv s.lastPc
    pc := csrs.handlerAddress target }

/-- A trap that user mode takes has been delegated twice. -/
theorem delegated_of_trapTarget {csrs : CsrTable} {prv : Nat} {reason : ExceptionCode}
    (h : csrs.trapTarget prv reason = UserMode) :
    (prv ≠ MachineMode ∧ (csrs .medeleg).getLsbD reason.toNat = true) ∧
      prv ≠ SupervisorMode ∧ (csrs .sedeleg).getLsbD reason.toNat = true := by
  unfold CsrTable.trapTarget at h
  split at h
  · cases h
  case isFalse hmachine =>
    split at h
    · cases h
    case isFalse hsupervisor =>
      rw [not_or, Bool.not_eq_false] at hmachine hsupervisor
      exact ⟨hmachine, hsupervisor⟩

theorem trapTarget_user {csrs : CsrTable} {prv : Nat} {reason : ExceptionCode}
    (hprv : prv = UserMode ∨ prv = SupervisorMode ∨ prv = MachineMode)
    (h : csrs.trapTarget prv reason = UserMode) : prv = UserMode := by
  obtain ⟨⟨hmachine, -⟩, hsupervisor, -⟩ := delegated_of_trapTarget h
  exact hprv.resolve_right (not_or.mpr ⟨hsupervisor, hmachine⟩)

theorem triple_takeTrap_trapped {s : State} {reason : ExceptionCode} {mtval : BitVec 64}
    (huser : s.csrs.trapTarget s.prv reason = UserMode → s.prv = UserMode)
    (hmtval : mtval.toNat < 2 ^ 32) :
    Triple (· = s) (takeTrap (.trap reason mtval)) (fun _ s' ↦ s' = s.trapped reason mtval)
      (fun _ _ ↦ False) := by
  let target := s.csrs.trapTarget s.prv reason
  let csrs := s.csrs.recorded target reason (mtval.setWidth 32)
  have htarget : target = MachineMode ∨ target = SupervisorMode ∨ target = UserMode :=
    s.csrs.trapTarget_mode s.prv reason
  refine Triple.bind
    (Q := fun mode s' ↦ mode = target ∧ s' = { s with pc := s.lastPc, csrs := csrs }) ?_
    fun mode ↦ Triple.of_start fun s' h ↦ ?_
  · refine Triple.bind (Q := fun _ s' ↦ s' = { s with pc := s.lastPc })
      (Triple.update fun s' h ↦ by rw [h]) fun _ ↦ Triple.read_bind fun s' h ↦ ?_
    rw [h]
    refine Triple.bind (Q := fun _ s' ↦ s' = { s with pc := s.lastPc })
      (triple_ensure (fun _ h _ ↦ h) fun _ _ hc ↦ hc huser) fun _ ↦ ?_
    refine Triple.bind (Q := fun _ s' ↦ s' = { s with pc := s.lastPc, csrs := csrs }) ?_
      fun _ ↦ Triple.ret fun _ h ↦ ⟨rfl, h⟩
    refine Triple.bind (Q := fun _ s' ↦ s' = { s with
      pc := s.lastPc, csrs := s.csrs.setCause (CsrTable.causeReg target) 0#1 reason.toNat })
      (Triple.update fun s' h ↦ by rw [h]) fun _ ↦ ?_
    rw [if_neg (Nat.not_le.mpr hmtval)]
    exact Triple.update fun s' h ↦ by rw [h]; rfl
  · rw [h.1, h.2]
    refine Triple.bind (Q := fun _ s' ↦ s' = { s with
      pc := s.lastPc, csrs := csrs, lrScCounter := 0 }) (Triple.update fun s' h ↦ by rw [h]) ?_
    intro _
    rw [if_pos htarget]
    exact Triple.update fun s' h ↦ by rw [h]; rfl

/-- A trap of another mode is not taken in user mode. -/
theorem triple_takeTrap_userTrap {s : State} {reason : ExceptionCode} {mtval : BitVec 64}
    (huser : ¬ (s.csrs.trapTarget s.prv reason = UserMode → s.prv = UserMode)) :
    Triple (· = s) (takeTrap (.trap reason mtval)) (fun _ _ ↦ False)
      fun e _ ↦ e = .host (.assertion .userTrap) := by
  refine Triple.bind (Q := fun _ _ ↦ False) ?_ fun _ _ h ↦ h.elim
  refine Triple.bind (Q := fun _ s' ↦ s' = { s with pc := s.lastPc })
    (Triple.update fun s' h ↦ by rw [h]) fun _ ↦ Triple.read_bind fun s' h ↦ ?_
  rw [h]
  refine Triple.bind (Q := fun _ _ ↦ False) ?_ fun _ _ h ↦ h.elim
  exact triple_ensure (fun _ _ hc ↦ huser hc) fun _ _ _ ↦ rfl

/-! ## Precise traps -/

/-- What a step that traps does to the state. -/
structure TrapTaken (s : State) (reason : ExceptionCode) (mtval : BitVec 64) (s' : State) :
    Prop where
  regs : ∀ i, i ≠ RegFile.zero → s'.regs i = s.regs i
  mem : EqUpToMarks s.MarkedEntry s.mem s'.mem
  untranslated : (∀ type, s.mmu = none ∨ ¬ s.Translates type) → s'.mem = s.mem
  mode : s'.prv = MachineMode ∨ s'.prv = SupervisorMode ∨ s'.prv = UserMode
  notBelow : s.prv ≤ s'.prv
  machine : s'.prv = MachineMode ↔
    s.prv = MachineMode ∨ (s.csrs .medeleg).getLsbD reason.toNat = false
  user : s'.prv = UserMode ↔ s.prv = UserMode ∧
    (s.csrs .medeleg).getLsbD reason.toNat = true ∧ (s.csrs .sedeleg).getLsbD reason.toNat = true
  epc : s'.csrs (CsrTable.epcReg s'.prv) = s.pc
  interrupt : s'.csrs.causeInterrupt (CsrTable.causeReg s'.prv) = 0#1
  cause : (s'.csrs.causeExceptionCode (CsrTable.causeReg s'.prv)).toNat = reason.toNat
  tval : (s'.csrs (CsrTable.tvalReg s'.prv)).toNat = mtval.toNat
  enable : s'.csrs.interruptEnable s'.prv = 0#1
  previous : s'.csrs.previousInterruptEnable s'.prv = s.csrs.interruptEnable s'.prv
  mpp : s'.prv = MachineMode → s'.csrs.mstatusMpp.toNat = s.prv
  spp : s'.prv = SupervisorMode → s'.csrs.mstatusSpp.toNat = s.prv
  pc : s'.pc = s.csrs.baseAddress (CsrTable.tvecReg s'.prv)

theorem ExceptionCode.toNat_lt (reason : ExceptionCode) : reason.toNat < 2 ^ 31 := by
  cases reason <;> decide

/-- The trap registers of a mode are distinct, and none is a counter or `mstatus`. -/
theorem trapRegs_of_mode {mode : Nat}
    (h : mode = MachineMode ∨ mode = SupervisorMode ∨ mode = UserMode) :
    (CsrTable.causeReg mode ≠ .mstatus ∧ CsrTable.tvalReg mode ≠ .mstatus ∧
      CsrTable.tvecReg mode ≠ .mstatus) ∧
    (CsrTable.causeReg mode ≠ CsrTable.epcReg mode ∧
      CsrTable.tvalReg mode ≠ CsrTable.epcReg mode) ∧
    (CsrTable.tvecReg mode ≠ CsrTable.causeReg mode ∧
      CsrTable.tvecReg mode ≠ CsrTable.tvalReg mode) ∧
    (CsrTable.epcReg mode).isCounter = false ∧ (CsrTable.causeReg mode).isCounter = false ∧
    (CsrTable.tvalReg mode).isCounter = false ∧ (CsrTable.tvecReg mode).isCounter = false := by
  rcases h with rfl | rfl | rfl <;> decide

theorem State.updatePerformance_csrs (s : State) :
    s.csrs.EqUpToCounters s.updatePerformance.csrs := by
  unfold State.updatePerformance
  dsimp only
  split
  · exact fun _ _ ↦ rfl
  · exact CsrTable.eqUpToCounters_set64 _ _ rfl rfl

theorem trapTarget_eq_machine_iff (csrs : CsrTable) (prv : Nat) (reason : ExceptionCode) :
    csrs.trapTarget prv reason = MachineMode ↔
      prv = MachineMode ∨ (csrs .medeleg).getLsbD reason.toNat = false := by
  unfold CsrTable.trapTarget
  split
  case isTrue h => exact iff_of_true rfl h
  case isFalse h =>
    refine iff_of_false ?_ h
    split <;> decide

theorem trapTarget_eq_user_iff {csrs : CsrTable} {prv : Nat} {reason : ExceptionCode}
    (hprv : prv = UserMode ∨ prv = SupervisorMode ∨ prv = MachineMode) :
    csrs.trapTarget prv reason = UserMode ↔ prv = UserMode ∧
      (csrs .medeleg).getLsbD reason.toNat = true ∧
      (csrs .sedeleg).getLsbD reason.toNat = true := by
  constructor
  · intro h
    obtain ⟨⟨-, hmedeleg⟩, -, hsedeleg⟩ := delegated_of_trapTarget h
    exact ⟨trapTarget_user hprv h, hmedeleg, hsedeleg⟩
  · rintro ⟨rfl, hmedeleg, hsedeleg⟩
    rw [CsrTable.trapTarget, hmedeleg, hsedeleg]
    rfl

theorem le_trapTarget {csrs : CsrTable} {prv : Nat} {reason : ExceptionCode}
    (hprv : prv = UserMode ∨ prv = SupervisorMode ∨ prv = MachineMode) :
    prv ≤ csrs.trapTarget prv reason := by
  rcases csrs.trapTarget_mode prv reason with h | h | h
  · rw [h]
    rcases hprv with rfl | rfl | rfl <;> decide
  · rw [h]
    rcases hprv with rfl | rfl | rfl
    · decide
    · decide
    · rw [CsrTable.trapTarget_machine] at h
      cases h
  · rw [h, trapTarget_user hprv h]

/-- What a trap leaves in the registers of the mode that takes it. -/
structure TrapReported (s : State) (reason : ExceptionCode) (mtval : BitVec 64) (s' : State) :
    Prop where
  prv : s'.prv = s.csrs.trapTarget s.prv reason
  epc : s'.csrs (CsrTable.epcReg s'.prv) = s.pc
  interrupt : s'.csrs.causeInterrupt (CsrTable.causeReg s'.prv) = 0#1
  cause : (s'.csrs.causeExceptionCode (CsrTable.causeReg s'.prv)).toNat = reason.toNat
  tval : (s'.csrs (CsrTable.tvalReg s'.prv)).toNat = mtval.toNat
  enable : s'.csrs.interruptEnable s'.prv = 0#1
  previous : s'.csrs.previousInterruptEnable s'.prv = s.csrs.interruptEnable s'.prv
  mpp : s'.prv = MachineMode → s'.csrs.mstatusMpp = BitVec.ofNat 2 s.prv
  spp : s'.prv = SupervisorMode → s'.csrs.mstatusSpp = BitVec.ofNat 1 s.prv
  pc : s'.pc = s.csrs.baseAddress (CsrTable.tvecReg s'.prv)

/-- The state after the step, from the untouched state in which the trap was raised. -/
theorem Untouched.trapReported {s s₁ : State} {reason : ExceptionCode} {mtval : BitVec 64}
    (h : Untouched s.started s₁) (hmtval : mtval.toNat < 2 ^ 32) :
    TrapReported s reason mtval (s₁.trapped reason mtval).finishStep.updatePerformance := by
  have hsame : ∀ r : CsrReg, r.isCounter = false → s₁.csrs r = s.csrs r := h.csrs
  have hprv₁ : s₁.prv = s.prv := h.prv
  have htarget : s₁.csrs.trapTarget s₁.prv reason = s.csrs.trapTarget s.prv reason := by
    rw [CsrTable.trapTarget, CsrTable.trapTarget, hprv₁, hsame .medeleg rfl, hsame .sedeleg rfl]
  set t := s.csrs.trapTarget s.prv reason with ht
  have hmode : t = MachineMode ∨ t = SupervisorMode ∨ t = UserMode := s.csrs.trapTarget_mode _ _
  set csrs := s₁.csrs.recorded t reason (mtval.setWidth 32) with hcsrs
  set s' := (s₁.trapped reason mtval).finishStep.updatePerformance with hs'
  have hprv' : s'.prv = t := htarget
  have hentered : CsrTable.Entered t s.prv s.pc csrs (csrs.enter t s.prv s.pc) :=
    csrs.entered_enter s.prv s.pc hmode
  have hstep : ∀ r : CsrReg, r.isCounter = false → s'.csrs r = csrs.enter t s.prv s.pc r := by
    intro r hr
    have hcount := State.updatePerformance_csrs (s₁.trapped reason mtval).finishStep r hr
    rw [hcount]
    change (s₁.csrs.recorded (s₁.csrs.trapTarget s₁.prv reason) reason _).enter
      (s₁.csrs.trapTarget s₁.prv reason) s₁.prv s₁.lastPc r = _
    rw [htarget, hprv₁, h.lastPc]
    rfl
  obtain ⟨⟨hcm, hvm, htm⟩, ⟨hce, hve⟩, ⟨htc, htv⟩, hec, hcc, hvc, htcc⟩ := trapRegs_of_mode hmode
  have hcause : s'.csrs (CsrTable.causeReg t) = setField (setField
      (s₁.csrs (CsrTable.causeReg t)) 31 0#1) 0 (BitVec.ofNat 31 reason.toNat) := by
    rw [hstep _ hcc, hentered.others _ hcm hce, hcsrs, CsrTable.recorded_causeReg]
  have hmstatus : csrs .mstatus = s.csrs .mstatus := by
    rw [hcsrs, CsrTable.recorded_of_ne _ _ _ _ hcm.symm hvm.symm, hsame _ rfl]
  have htvec : csrs (CsrTable.tvecReg t) = s.csrs (CsrTable.tvecReg t) := by
    rw [hcsrs, CsrTable.recorded_of_ne _ _ _ _ htc htv, hsame _ htcc]
  constructor
  case prv => exact hprv'
  all_goals rw [hprv']
  case epc => rw [hstep _ hec, hentered.epc]
  case interrupt =>
    rw [CsrTable.causeInterrupt, hcause, field_setField_of_disjoint _ _ (by decide) (by decide),
      field_setField_self _ _ (by decide)]
  case cause =>
    rw [CsrTable.causeExceptionCode, hcause, field_setField_self _ _ (by decide),
      BitVec.toNat_ofNat, Nat.mod_eq_of_lt reason.toNat_lt]
  case tval =>
    rw [hstep _ hvc, hentered.others _ hvm hve, hcsrs, CsrTable.recorded_tvalReg,
      BitVec.toNat_setWidth, Nat.mod_eq_of_lt hmtval]
  case enable => rw [CsrTable.interruptEnable_congr (hstep _ rfl), hentered.enable]
  case previous =>
    rw [CsrTable.previousInterruptEnable_congr (hstep _ rfl), hentered.previous,
      CsrTable.interruptEnable_congr hmstatus]
  case mpp =>
    intro heq
    rw [CsrTable.mstatusMpp, hstep _ rfl, ← CsrTable.mstatusMpp, hentered.mpp heq]
  case spp =>
    intro heq
    rw [CsrTable.mstatusSpp, hstep _ rfl, ← CsrTable.mstatusSpp, hentered.spp heq]
  case pc =>
    have hinterrupt : csrs.causeInterrupt (CsrTable.causeReg t) ≠ 1#1 := by
      rw [CsrTable.causeInterrupt, hcsrs, CsrTable.recorded_causeReg,
        field_setField_of_disjoint _ _ (by decide) (by decide), field_setField_self _ _ (by decide)]
      decide
    have hpc : s'.pc = csrs.handlerAddress t := by
      change (s₁.csrs.recorded (s₁.csrs.trapTarget s₁.prv reason) reason _).handlerAddress
        (s₁.csrs.trapTarget s₁.prv reason) = _
      rw [htarget]
    rw [hpc, CsrTable.handlerAddress, if_neg fun hc ↦ hinterrupt hc.1, CsrTable.baseAddress, htvec,
      CsrTable.baseAddress]

/-- A trap is taken by a mode that is not below the current one. -/
theorem Unwritten.trapTaken {s s₁ : State} {reason : ExceptionCode} {mtval : BitVec 64}
    (h : Unwritten s.started s₁)
    (hprv : s.prv = UserMode ∨ s.prv = SupervisorMode ∨ s.prv = MachineMode)
    (hmtval : mtval.toNat < 2 ^ 32) :
    TrapTaken s reason mtval (s₁.trapped reason mtval).finishStep.updatePerformance := by
  have hreported : TrapReported s reason mtval _ := h.toUntouched.trapReported hmtval
  have hle : s.prv ≤ s.csrs.trapTarget s.prv reason := le_trapTarget hprv
  refine ⟨fun i hi ↦ ?regs, h.mem, fun hnone ↦ h.unmarked fun paddr hpaddr ↦ ?untranslated, ?mode, ?notBelow, ?machine, ?user, hreported.epc,
    hreported.interrupt, hreported.cause, hreported.tval, hreported.enable, hreported.previous,
    fun hmachine ↦ ?mpp, fun hsupervisor ↦ ?spp, hreported.pc⟩
  case regs =>
    change s₁.regs.write RegFile.zero (constant 0#32) i = s.regs i
    rw [RegFile.write_of_ne _ _ hi, h.regs]
    rfl
  case untranslated =>
    obtain ⟨type, va, -, ⟨hmmu, htranslates⟩, -⟩ := hpaddr
    exact (hnone type).elim hmmu fun hnot ↦ hnot htranslates
  case mpp =>
    have hlt : s.prv < 2 ^ 2 := by
      rw [← hreported.prv, hmachine] at hle
      exact Nat.lt_of_le_of_lt hle (by decide)
    rw [hreported.mpp hmachine, BitVec.toNat_ofNat, Nat.mod_eq_of_lt hlt]
  case spp =>
    have hlt : s.prv < 2 ^ 1 := by
      rw [← hreported.prv, hsupervisor] at hle
      exact Nat.lt_of_le_of_lt hle (by decide)
    rw [hreported.spp hsupervisor, BitVec.toNat_ofNat, Nat.mod_eq_of_lt hlt]
  all_goals rw [hreported.prv]
  case mode => exact s.csrs.trapTarget_mode _ _
  case notBelow => exact hle
  case machine => exact trapTarget_eq_machine_iff _ _ _
  case user => exact trapTarget_eq_user_iff hprv

/-- If an instruction traps, the step takes the trap: the registers and the memory are those before
the instruction, and the trap registers of the mode that takes it tell what happened. -/
theorem runStep_takes_precise_trap {env : Env} {s s₁ : State} {reason : ExceptionCode}
    {mtval : BitVec 64} (hprv : s.prv = UserMode ∨ s.prv = SupervisorMode ∨ s.prv = MachineMode)
    (hcall : s.NotIntercepted) (hzero : getValue (s.regs RegFile.zero) = 0#32)
    (hbreak : ¬ (s.debugMode ∧ s.breakpoints s.pc))
    (htrap : execStep env s.started = .error (.trap reason mtval) s₁)
    (hmtval : mtval.toNat < 2 ^ 32) :
    ∃ s', runStep env s = .ok () s' ∧ TrapTaken s reason mtval s' := by
  have hunwritten : Unwritten s.started s₁ := (precise_execStep env hcall).of_error rfl htrap
  have hexec : Triple (· = s.started) (do execStep env; takePendingInterrupt) (fun _ _ ↦ False)
      (fun e s' ↦ e = .trap reason mtval ∧ s' = s₁) :=
    Triple.bind (Q := fun _ _ ↦ False) (Triple.of_run_error htrap ⟨rfl, rfl⟩) fun _ _ h ↦ h.elim
  have hprv₁ : s₁.prv = UserMode ∨ s₁.prv = SupervisorMode ∨ s₁.prv = MachineMode := by
    rw [hunwritten.prv]
    exact hprv
  have hrun : Triple (· = s) (runStep env) (fun _ s' ↦ TrapTaken s reason mtval s')
      (fun _ _ ↦ False) := by
    refine Triple.read_bind fun s' h ↦ ?_
    rw [h]
    refine Triple.bind (Q := fun _ s' ↦ s' = s)
      (triple_ensure (fun _ h _ ↦ h) fun _ _ hc ↦ hc hzero) fun _ ↦ ?_
    rw [if_neg hbreak]
    refine Triple.bind (Q := fun _ s' ↦ s' = s.started) (Triple.update fun s' h ↦ by rw [h]) ?_
    intro _
    refine Triple.bind (Q := fun _ s' ↦ s' = s₁.trapped reason mtval) (Triple.handle
      (hexec.post fun _ _ h ↦ h.elim) fun e ↦ Triple.of_start fun s' h ↦ ?_)
      fun _ ↦ Triple.update fun s' h ↦ ?_
    · rw [h.1, h.2]
      exact triple_takeTrap_trapped (trapTarget_user hprv₁) hmtval
    · rw [h]
      exact hunwritten.trapTaken hprv hmtval
  obtain ⟨_, s', hok, htaken⟩ := hrun.exists_ok rfl
  exact ⟨s', hok, htaken⟩

/-- `lw x1, 1(x0)` -/
def misalignedLoad : List (BitVec 8) := [0x83#8, 0x20#8, 0x10#8, 0x00#8]

theorem runStep_takes_precise_trap_misalignedLoad :
    ∃ s', runStep bootEnv (bootState misalignedLoad) = .ok () s' ∧
      TrapTaken (bootState misalignedLoad) .LOAD_ADDR_MISALIGNED 1#64 s' :=
  runStep_takes_precise_trap (.inr (.inr rfl)) (.inl rfl) (by decide +kernel) (by decide)
    (eq_error_of_thrown (by decide +kernel)) (by decide)

end CoverageVP.Iss
