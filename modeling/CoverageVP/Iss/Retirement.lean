import CoverageVP.Iss.Accesses
import CoverageVP.Iss.CsrViews
import CoverageVP.Iss.Failures

/-!
# Retiring instructions

Which instructions retire and which trap, as a condition on the state in which they are executed. An
instruction that the core supports does one or the other; it is counted only if it retires, so that
the coverage is needed only then.
-/

namespace CoverageVP.Iss

open Lib Clover Instr Csr

/-! ## Programs that return under a condition -/

/-- The program returns only if the condition holds, and traps only if it does not. -/
def Settles {α : Type} (c : Prop) (P : State → Prop) (m : IssM α) (Q : α → State → Prop) : Prop :=
  Triple P m (fun a s ↦ c ∧ Q a s) fun e _ ↦ e.IsTrap → ¬ c

namespace Settles

variable {α β : Type} {c c' : Prop} {P : State → Prop} {m : IssM α} {Q : α → State → Prop}

theorem iff (h : Settles c P m Q) (hc : c ↔ c') : Settles c' P m Q := by
  rwa [← hc]

theorem post {Q' : α → State → Prop} (h : Settles c P m Q) (hQ : ∀ a s, Q a s → Q' a s) :
    Settles c P m Q' :=
  Triple.post h fun a s h ↦ ⟨h.1, hQ a s h.2⟩

theorem bind {f : α → IssM β} {R : β → State → Prop} (hm : Settles c P m Q)
    (hf : ∀ a, Settles c' (Q a) (f a) R) : Settles (c ∧ c') P (m >>= f) R := by
  refine Triple.bind (Q := fun a s ↦ c ∧ Q a s)
    (hm.conseq (fun _ h ↦ h) (fun _ _ h ↦ h) fun e _ h ht hc ↦ h ht hc.1) fun a ↦ ?_
  refine Triple.of_start fun s hs ↦ (Triple.pre (hf a) fun s' (h : s' = s) ↦ h ▸ hs.2).conseq
    (fun _ h ↦ h) (fun _ _ h ↦ ⟨⟨hs.1, h.1⟩, h.2⟩) fun e _ h ht hc ↦ h ht hc.2

theorem read_bind {f : State → IssM β} {R : β → State → Prop}
    (hf : ∀ s, P s → Settles c (· = s) (f s) R) : Settles c P (get >>= f) R :=
  Triple.read_bind hf

/-- Nothing traps before the condition is decided. -/
theorem bind_of_returns {f : α → IssM β} {R : β → State → Prop} (hm : Triple P m Q fun e _ ↦ ¬ e.IsTrap)
    (hf : ∀ a, Settles c (Q a) (f a) R) : Settles c P (m >>= f) R :=
  Triple.bind (hm.conseq (fun _ h ↦ h) (fun _ _ h ↦ h) fun _ _ h ht ↦ absurd ht h) hf

theorem of_returns (hm : Triple P m Q fun e _ ↦ ¬ e.IsTrap) (hc : c) : Settles c P m Q :=
  hm.conseq (fun _ h ↦ h) (fun _ _ h ↦ ⟨hc, h⟩) fun _ _ h ht ↦ absurd ht h

/-- Nothing traps after the condition is decided. -/
theorem returns_bind {f : α → IssM β} {R : β → State → Prop} (hm : Settles c P m Q)
    (hf : ∀ a, Triple (Q a) (f a) R fun e _ ↦ ¬ e.IsTrap) : Settles c P (m >>= f) R :=
  (hm.bind fun a ↦ of_returns (hf a) trivial).iff (and_iff_left trivial)

theorem raise {reason : ExceptionCode} {mtval : BitVec 64} (hc : ¬ c) :
    Settles c P (raiseTrap reason mtval : IssM α) Q :=
  Triple.raise fun _ _ _ ↦ hc

theorem raiseIllegalInstruction (hc : ¬ c) : Settles c P (raiseIllegalInstruction : IssM α) Q :=
  triple_raiseIllegalInstruction fun _ _ _ ↦ hc

theorem raiseTrapIf {d : Prop} [Decidable d] (reason : ExceptionCode) (mtval : BitVec 64) :
    Settles (¬ d) P (raiseTrapIf d reason mtval) fun _ ↦ P :=
  triple_raiseTrapIf (fun _ h hd ↦ ⟨hd, h⟩) fun _ _ hd _ h ↦ h hd

theorem raiseIllegalInstructionIf {d : Prop} [Decidable d] :
    Settles (¬ d) P (raiseIllegalInstructionIf d) fun _ ↦ P :=
  triple_raiseIllegalInstructionIf (fun _ h hd ↦ ⟨hd, h⟩) fun _ _ hd _ h ↦ h hd

theorem of_result {s : State} (hm : Triple (· = s) m Q fun _ _ ↦ True) :
    Settles ((result m s).isSome = true) (· = s) m Q := by
  intro s' hs'
  rw [hs', result]
  have hrun := hm s rfl
  cases h : m s with
  | ok a s' =>
    rw [h] at hrun
    exact ⟨rfl, hrun⟩
  | error e s' => exact fun _ ↦ Bool.noConfusion

/-- The value that a program returns decides how it goes on. -/
theorem bind_result {f : α → IssM β} {R : β → State → Prop} {d : α → Prop} {s : State}
    (hf : ∀ a s', m s = .ok a s' → Settles (d a) (· = s') (f a) R) :
    Settles (∃ a, result m s = some a ∧ d a) (· = s) (m >>= f) R := by
  cases hm : m s with
  | ok a s' =>
    have hresult : result m s = some a := by rw [result, hm]
    have hiff : d a ↔ ∃ a, result m s = some a ∧ d a := by simp [hresult]
    rintro _ rfl
    rw [bind_of_ok hm]
    exact (hf a s' hm).iff hiff s' rfl
  | error e s' =>
    have hresult : result m s = none := by rw [result, hm]
    rintro _ rfl
    rw [bind_of_error hm]
    intro _ h
    obtain ⟨a, ha, -⟩ := h
    rw [hresult] at ha
    cases ha

end Settles

/-! ## CSR instructions -/

/-- What a CSR instruction needs: its address exists, and its accesses are not refused. -/
structure State.CsrRetires (s : State) (addr : Nat) (isRead isWrite : Bool) : Prop where
  float : ¬ ((addr = FFLAGS_ADDR ∨ addr = FRM_ADDR ∨ addr = FCSR_ADDR) ∧
    s.csrs.hasFExtension = false)
  valid : s.csrAccessInvalid addr isWrite = false
  read : isRead = true → ¬ s.CsrHidden addr ∧ (readSource addr).isSome = true
  write : isWrite = true → Settable s.csrs addr

section Csr

variable {s : State} {addr : Nat}

/-- A register that can be read can be written. -/
theorem settable_of_readable (hidden : ¬ s.CsrHidden addr) (hsource : (readSource addr).isSome = true) :
    Settable s.csrs addr where
  satp := fun haddr htvm ↦ hidden (.inr ⟨haddr, htvm⟩)
  known := by
    unfold readSource at hsource
    split at hsource
    case h_1 hmask => exact .inr (.inl (by rw [hmask]; rfl))
    case h_2 =>
      split at hsource
      case h_7 => exact .inr (.inr (.inl rfl))
      case h_8 => exact .inr (.inr (.inr (.inl rfl)))
      case h_9 => exact .inr (.inr (.inr (.inr (by decide))))
      case h_10 =>
        split at hsource
        case isTrue h => exact .inr (.inr (.inr (.inr h)))
        case isFalse => exact .inl (by rwa [Option.isSome_map] at hsource)
      all_goals exact .inl (by decide +kernel)

theorem settles_getCsrValue (env : Env) :
    Settles (¬ s.CsrHidden addr ∧ (readSource addr).isSome = true) (· = s) (getCsrValue env addr)
      fun _ s' ↦ Settable s'.csrs addr := by
  classical
  refine (Settles.of_result (Triple.pre (triple_getCsrValue_settable env addr) fun _ _ ↦ trivial)).iff ?_
  rw [result_getCsrValue]
  split
  case isTrue h => exact iff_of_false Bool.noConfusion fun h' ↦ h'.1 h
  case isFalse h => rw [Option.isSome_map, and_iff_right h]

/-- A register that was written can be written. -/
theorem triple_setCsrValue_ok (addr : Nat) (value : BitVec 32) :
    Triple (· = s) (setCsrValue addr value) (fun _ _ ↦ Settable s.csrs addr) fun _ _ ↦ True := by
  refine Triple.read_bind fun s' hs' ↦ ?_
  rw [hs']
  split
  case h_1 r mask hmask =>
    refine Triple.update fun _ _ ↦ ?_
    unfold writeMask at hmask
    split at hmask
    case h_24 => cases hmask
    all_goals exact ⟨fun h ↦ absurd h (by decide), by decide +kernel⟩
  case h_2 =>
    split
    case h_1 => exact Triple.ret fun _ _ ↦ ⟨fun h ↦ absurd h (by decide), .inl (by decide +kernel)⟩
    case h_2 =>
      refine Triple.bind (Q := fun _ _ ↦ s.csrs.mstatusTvm ≠ 1#1) ?_ fun _ ↦
        Triple.update fun _ h ↦ ⟨fun _ ↦ h, .inl (by decide +kernel)⟩
      exact triple_raiseIllegalInstructionIf (fun _ _ h ↦ h) fun _ _ _ ↦ trivial
    case h_3 => exact Triple.update fun _ _ ↦ ⟨fun h ↦ absurd h (by decide), .inr (.inr (.inl rfl))⟩
    case h_4 =>
      exact Triple.update fun _ _ ↦ ⟨fun h ↦ absurd h (by decide), .inr (.inr (.inr (.inl rfl)))⟩
    case h_5 hsatp _ _ =>
      refine Triple.ite (fun h ↦ Triple.ret fun _ _ ↦ ⟨fun h' ↦ absurd h' hsatp,
        .inr (.inr (.inr (.inr h)))⟩) fun _ ↦ ?_
      unfold defaultWrite32
      split
      case h_1 r hr =>
        exact Triple.update fun _ _ ↦ ⟨fun h' ↦ absurd h' hsatp, .inl (by rw [hr]; rfl)⟩
      case h_2 => exact triple_raiseIllegalInstruction fun _ _ ↦ trivial

theorem not_isTrap_of_ne {e : Thrown} (h : ∀ reason mtval, e ≠ .trap reason mtval) : ¬ e.IsTrap := by
  cases e with
  | trap reason mtval => exact absurd rfl (h reason mtval)
  | host error => exact id

theorem returns_setCsrValue (addr : Nat) (value : BitVec 32) :
    Triple (fun s ↦ Settable s.csrs addr) (setCsrValue addr value) (fun _ _ ↦ True)
      fun e _ ↦ ¬ e.IsTrap :=
  (triple_setCsrValue_settable addr value).conseq (fun _ h ↦ h) (fun _ _ h ↦ h) fun _ _ h ↦
    not_isTrap_of_ne h

theorem settles_setCsrValue (addr : Nat) (value : BitVec 32) :
    Settles (Settable s.csrs addr) (· = s) (setCsrValue addr value) fun _ _ ↦ True := by
  by_cases h : Settable s.csrs addr
  · exact Settles.of_returns (Triple.pre (returns_setCsrValue addr value) fun _ hs ↦ hs ▸ h) h
  · exact (triple_setCsrValue_ok addr value).conseq (fun _ h ↦ h) (fun _ _ hok ↦ absurd hok h)
      fun _ _ _ _ ↦ h

theorem settable_writeOldValue (old : BitVec 32) :
    Triple (fun s ↦ Settable s.csrs addr) (writeOldValue old) (fun _ s ↦ Settable s.csrs addr)
      fun e _ ↦ ¬ e.IsTrap := by
  refine Triple.read_bind fun s hs ↦ Triple.ite (fun _ ↦ Triple.update fun s' h ↦ ?_)
    fun _ ↦ Triple.ret fun s' h ↦ ?_
  · rw [h]
    exact hs
  · rw [h]
    exact hs

theorem settles_isInvalidCsrAccess (addr : Nat) (isWrite : Bool) :
    Settles (¬ ((addr = FFLAGS_ADDR ∨ addr = FRM_ADDR ∨ addr = FCSR_ADDR) ∧
        s.csrs.hasFExtension = false)) (· = s) (isInvalidCsrAccess addr isWrite)
      fun invalid s' ↦ s' = s ∧ invalid = s.csrAccessInvalid addr isWrite := by
  refine Settles.read_bind fun s' hs' ↦ ?_
  rw [hs']
  refine Settles.returns_bind Settles.raiseIllegalInstructionIf fun _ ↦ Triple.ret fun _ h ↦ ⟨h, rfl⟩

/-- The accesses of a CSR instruction, after its address has been checked. -/
theorem settles_of_valid {m : IssM Unit} {c : Prop} {isWrite : Bool}
    (hm : s.csrAccessInvalid addr isWrite = false → Settles c (· = s) m fun _ _ ↦ True) :
    Settles (¬ ((addr = FFLAGS_ADDR ∨ addr = FRM_ADDR ∨ addr = FCSR_ADDR) ∧
        s.csrs.hasFExtension = false) ∧ s.csrAccessInvalid addr isWrite = false ∧ c) (· = s)
      (do
        let invalid ← isInvalidCsrAccess addr isWrite
        if invalid then raiseIllegalInstruction else m) fun _ _ ↦ True := by
  refine Settles.bind (settles_isInvalidCsrAccess addr isWrite) fun invalid ↦ ?_
  refine Triple.of_start fun s' hs' ↦ ?_
  obtain ⟨rfl, rfl⟩ := hs'
  cases hinvalid : s'.csrAccessInvalid addr isWrite with
  | true => exact Settles.raiseIllegalInstruction fun h ↦ Bool.noConfusion h.1
  | false => exact (hm hinvalid).iff (by simp)

theorem settles_csrReadWrite (env : Env) (value : BitVec 32) :
    Settles (s.CsrRetires s.instr.csr.toNat (s.rd ≠ RegFile.zero) true) (· = s)
      (csrReadWrite env value) fun _ _ ↦ True := by
  refine Settles.read_bind fun s' hs' ↦ ?_
  rw [hs']
  by_cases hrd : s.rd ≠ RegFile.zero
  · rw [if_pos hrd]
    refine (settles_of_valid fun _ ↦ Settles.returns_bind (settles_getCsrValue env) fun old ↦
      Triple.bind (settable_writeOldValue old) fun _ ↦ returns_setCsrValue _ _).iff ?_
    refine ⟨fun h ↦ ⟨h.1, h.2.1, fun _ ↦ h.2.2, fun _ ↦ settable_of_readable h.2.2.1 h.2.2.2⟩,
      fun h ↦ ⟨h.float, h.valid, h.read (decide_eq_true hrd)⟩⟩
  · rw [if_neg hrd]
    refine (settles_of_valid fun _ ↦ settles_setCsrValue _ value).iff ?_
    exact ⟨fun h ↦ ⟨h.1, h.2.1, fun hread ↦ absurd (of_decide_eq_true hread) hrd, fun _ ↦ h.2.2⟩,
      fun h ↦ ⟨h.float, h.valid, h.write rfl⟩⟩

theorem settles_csrReadModify (env : Env) (write : Bool) (update : BitVec 32 → BitVec 32) :
    Settles (s.CsrRetires s.instr.csr.toNat true write) (· = s) (csrReadModify env write update)
      fun _ _ ↦ True := by
  refine Settles.read_bind fun s' hs' ↦ ?_
  rw [hs']
  refine (settles_of_valid fun _ ↦ Settles.returns_bind (settles_getCsrValue env) fun old ↦
    Triple.bind (settable_writeOldValue old) fun _ ↦ Triple.ite (fun _ ↦ returns_setCsrValue _ _)
      fun _ ↦ Triple.ret fun _ _ ↦ trivial).iff ?_
  exact ⟨fun h ↦ ⟨h.1, h.2.1, fun _ ↦ h.2.2, fun _ ↦ settable_of_readable h.2.2.1 h.2.2.2⟩,
    fun h ↦ ⟨h.float, h.valid, h.read rfl⟩⟩

end Csr

/-- What a load or store needs: an aligned address that is translated into the memory. -/
structure State.AccessRetires (s : State) (va : BitVec 32) (n : Nat) : Prop where
  aligned : va.toNat % n = 0
  mapped : ∃ paddr, result (v2p (va.setWidth 64) .STORE) s = some paddr ∧ paddr.toNat + n ≤ s.memSize

/-- An access that starts with the check of its address and the translation. -/
def IsAccess (s : State) (va : BitVec 32) (n : Nat) (m : IssM Bool) : Prop :=
  ∃ (reason : ExceptionCode) (rest : BitVec 64 → IssM Bool), m s = (do
      raiseTrapIf (va.toNat % n ≠ 0) reason (va.setWidth 64)
      let paddr ← v2p (va.setWidth 64) .STORE
      rest paddr : IssM Bool) s ∧
    ∀ paddr size, Settles (paddr.toNat + n ≤ size) (fun s ↦ s.memSize = size) (rest paddr)
      fun _ _ ↦ True

section Accesses

variable {s : State} {va : BitVec 32} {n : Nat} {m : IssM Bool}

theorem settles_transportRead (paddr : BitVec 64) {n : Nat} (hn : 0 < n) (size : Nat) :
    Settles (paddr.toNat + n ≤ size) (fun s ↦ s.memSize = size) (transportRead paddr n)
      fun _ _ ↦ True := by
  refine Triple.of_start fun s hs ↦ (triple_transportRead s paddr hn).conseq (fun _ h ↦ h)
    (fun _ _ h ↦ ⟨hs ▸ h.2.1, trivial⟩) fun _ _ h _ ↦ ?_
  rw [← hs]
  exact Nat.not_le.mpr h.2.1

theorem settles_transportWrite (paddr : BitVec 64) (data : ConcolicValue) (n size : Nat) :
    Settles (paddr.toNat + n ≤ size) (fun s ↦ s.memSize = size) (transportWrite paddr data n)
      fun _ _ ↦ True := by
  refine Triple.of_start fun s hs ↦ (triple_transportWrite s paddr data n).conseq (fun _ h ↦ h)
    (fun _ _ h ↦ ⟨hs ▸ h.1, trivial⟩) fun _ _ h _ ↦ ?_
  rw [← hs]
  exact Nat.not_le.mpr h.2.1

theorem isAccess_execLoad (load : LoadOp) (hn : 0 < load.numBytes) :
    IsAccess s (getValue ((s.regs s.rs1).add s.iImm)) load.numBytes
      (execLoad load.numBytes load.run) := by
  refine ⟨.LOAD_ADDR_MISALIGNED, fun paddr ↦ do
    let value ← load.transaction paddr
    modify (·.writeReg s.rd value)
    taintLoaded ((s.regs s.rs1).add s.iImm), ?_, fun paddr size ↦ ?_⟩
  · rw [execLoad, get_bind, LoadOp.run_eq, LoadOp.translation, bind_assoc]
    rfl
  · have hload : Settles (paddr.toNat + load.numBytes ≤ size) (fun s ↦ s.memSize = size)
        (load.transaction paddr) fun _ _ ↦ True :=
      Settles.returns_bind (settles_transportRead paddr hn size) fun _ ↦ Triple.ret fun _ h ↦ h
    refine Settles.returns_bind hload fun value ↦ Triple.bind (Q := fun _ _ ↦ True)
      (Triple.update fun _ h ↦ h) fun _ ↦ ?_
    exact Triple.ite (fun _ ↦ Triple.bind (Q := fun _ _ ↦ True) (Triple.update fun _ h ↦ h) fun _ ↦
      Triple.ret fun _ h ↦ h) fun _ ↦ Triple.ret fun _ h ↦ h

theorem isAccess_execStore (store : StoreOp) :
    IsAccess s (getValue ((s.regs s.rs1).add s.sImm)) store.numBytes (do
      execStore store.numBytes store.run
      return false) := by
  refine ⟨.STORE_AMO_ADDR_MISALIGNED, fun paddr ↦ do
    transportWrite paddr (s.regs s.rs2) store.numBytes
    return false, ?_, fun paddr size ↦ ?_⟩
  · rw [execStore, bind_assoc, get_bind]
    simp only [bind_assoc, StoreOp.run_eq]
    rfl
  · exact Settles.returns_bind (settles_transportWrite paddr _ _ size) fun _ ↦ Triple.ret fun _ h ↦ h

/-- Every load and store is such an access. -/
theorem isAccess_execute (env : Env) (hva : s.dataAddress = some va) :
    IsAccess s va (dataBytes s.op) (execute env) := by
  have hother : ∀ op, s.registerResult op = none → s.branchResult op = none → s.op = op →
      execute env s = executeOther env op s := by
    intro op hregister hbranch hop
    rw [execute, get_bind, hop, hregister, hbranch]
  have hof : ∀ {m m' : IssM Bool} {va n}, m s = m' s → IsAccess s va n m' → IsAccess s va n m := by
    rintro m m' va n heq ⟨reason, rest, hm, hrest⟩
    exact ⟨reason, rest, heq.trans hm, hrest⟩
  unfold State.dataAddress at hva
  cases hop : s.op
  all_goals
    rw [hop] at hva
    cases hva
  case LB => exact hof (hother _ rfl rfl hop) (isAccess_execLoad .LB (by decide))
  case LH => exact hof (hother _ rfl rfl hop) (isAccess_execLoad .LH (by decide))
  case LW => exact hof (hother _ rfl rfl hop) (isAccess_execLoad .LW (by decide))
  case LBU => exact hof (hother _ rfl rfl hop) (isAccess_execLoad .LBU (by decide))
  case LHU => exact hof (hother _ rfl rfl hop) (isAccess_execLoad .LHU (by decide))
  case SB => exact hof (hother _ rfl rfl hop) (isAccess_execStore .SB)
  case SH => exact hof (hother _ rfl rfl hop) (isAccess_execStore .SH)
  case SW => exact hof (hother _ rfl rfl hop) (isAccess_execStore .SW)

/-- A misaligned address traps, whether it is mapped or not. -/
theorem IsAccess.misaligned (h : IsAccess s va n m) (hva : va.toNat % n ≠ 0) :
    Triple (· = s) m (fun _ _ ↦ False) fun e _ ↦ e.IsTrap := by
  obtain ⟨reason, rest, hm, -⟩ := h
  intro s' hs'
  rw [hs', hm]
  refine Triple.bind (P := (· = s)) (Q := fun _ _ ↦ False) ?_ (fun _ _ h ↦ h.elim) s rfl
  exact triple_raiseTrapIf (fun _ _ hc ↦ absurd hva hc) fun _ _ _ ↦ trivial

/-- An aligned address is translated, and the reserved mode is rejected. -/
theorem IsAccess.rejected (h : IsAccess s va n m) (hva : va.toNat % n = 0)
    (hmode : ¬ s.Translatable .STORE) : Triple (· = s) m (fun _ _ ↦ False) fun e _ ↦ isHost e := by
  obtain ⟨reason, rest, hm, -⟩ := h
  intro s' hs'
  rw [hs', hm]
  refine Triple.bind (P := (· = s)) (Q := fun _ s' ↦ s' = s) ?_ (fun _ ↦ ?_) s rfl
  · exact triple_raiseTrapIf (fun _ h _ ↦ h) fun _ _ hc ↦ absurd hva hc
  · refine Triple.bind (Q := fun _ _ ↦ False) ((triple_v2p_of_not_translatable hmode _).conseq
      (fun _ h ↦ h) (fun _ _ h ↦ h) fun e _ h ↦ ?_) fun _ _ h ↦ h.elim
    rw [h]
    trivial

theorem IsAccess.settles (h : IsAccess s va n m) :
    Settles (s.AccessRetires va n) (· = s) m fun _ _ ↦ True := by
  obtain ⟨reason, rest, hm, hrest⟩ := h
  have hsize : ∀ paddr s', v2p (va.setWidth 64) .STORE s = .ok paddr s' → s'.memSize = s.memSize := by
    intro paddr s' hrun
    have hkeeps : Keeps (fun s' : State ↦ s'.memSize = s.memSize) (v2p (va.setWidth 64) .STORE) :=
      keeps_v2p (IgnoresMemory.keptByMarks ⟨fun _ _ h ↦ h, fun _ _ h ↦ h⟩) _ _
    exact hkeeps.of_ok rfl hrun
  intro s' hs'
  rw [hs', hm]
  refine ((Settles.raiseTrapIf reason _).bind fun _ ↦ Settles.bind_result fun paddr s' hrun ↦
    Triple.pre (hrest paddr s.memSize) fun s'' h ↦ ?_).iff ?_ s rfl
  · rw [h]
    exact hsize paddr s' hrun
  · exact ⟨fun h ↦ ⟨not_not.mp h.1, h.2⟩, fun h ↦ ⟨not_not.mpr h.aligned, h.mapped⟩⟩

end Accesses

/-! ## Instructions -/

/-- A CSR instruction without a destination does not read the register it writes. -/
def State.readsCsr (s : State) : Bool :=
  match s.op with
  | .CSRRW | .CSRRWI => s.rd ≠ RegFile.zero
  | _ => true

/-- A CSR instruction without an operand does not set or clear bits. -/
def State.writesCsr (s : State) : Bool :=
  match s.op with
  | .CSRRW | .CSRRWI => true
  | .CSRRS | .CSRRC => s.rs1 ≠ RegFile.zero
  | _ => s.instr.zimm ≠ 0#32

/-- The decoded instruction of a state retires. -/
structure State.Retires (s : State) : Prop where
  implemented : implemented s.op = true
  defined : s.op ≠ .UNDEF
  call : s.op ≠ .ECALL
  access : ∀ va, s.dataAddress = some va → s.AccessRetires va (dataBytes s.op)
  csr : isCsr s.op = true → s.CsrRetires s.instr.csr.toNat s.readsCsr s.writesCsr
  wait : s.op = .WFI → ¬ (s.prv = SupervisorMode ∧ s.csrs.mstatusTw = 1#1) ∧
    ¬ (s.prv = UserMode ∧ s.csrs.hasSupervisorModeExtension = true)

/-- The core supports the operation, calls from the current mode, and data accesses in it. -/
structure State.Supports (s : State) : Prop where
  implemented : implemented s.op = true
  call : s.op = .ECALL → s.prv ≠ 2
  access : ∀ va, s.AccessesData va → s.Translatable .STORE

section Instructions

variable {s : State}

/-- The operations that retire in every state. -/
def alwaysRetires (op : Opcode) : Bool :=
  implemented op && !isCsr op && !accessesData op && op ≠ .UNDEF && op ≠ .ECALL && op ≠ .WFI

theorem dataAddress_of_not_accessesData (h : accessesData s.op = false) : s.dataAddress = none := by
  unfold State.dataAddress
  unfold accessesData at h
  split
  case h_9 => rfl
  all_goals
    rename_i hop
    rw [hop] at h
    cases h

theorem retires_of_always (h : alwaysRetires s.op = true) : s.Retires := by
  simp only [alwaysRetires, Bool.and_eq_true, Bool.not_eq_true', decide_eq_true_eq] at h
  obtain ⟨⟨⟨⟨⟨himplemented, hcsr⟩, haccess⟩, hundef⟩, hecall⟩, hwfi⟩ := h
  refine ⟨himplemented, hundef, hecall, fun va hva ↦ ?_, fun h ↦ ?_, fun h ↦ absurd h hwfi⟩
  · rw [dataAddress_of_not_accessesData haccess] at hva
    cases hva
  · rw [hcsr] at h
    cases h

theorem plain_of_accessesData {op : Opcode} (h : accessesData op = true) :
    implemented op = true ∧ op ≠ .UNDEF ∧ op ≠ .ECALL ∧ isCsr op = false ∧ op ≠ .WFI := by
  cases op <;> first
    | decide
    | cases h

theorem plain_of_isCsr {op : Opcode} (h : isCsr op = true) :
    implemented op = true ∧ op ≠ .UNDEF ∧ op ≠ .ECALL ∧ accessesData op = false ∧ op ≠ .WFI := by
  cases op <;> first
    | decide
    | cases h

theorem retires_iff_of_access {va : BitVec 32} (hva : s.dataAddress = some va) :
    s.Retires ↔ s.AccessRetires va (dataBytes s.op) := by
  refine ⟨fun h ↦ h.access va hva, fun h ↦ ?_⟩
  have haccess : accessesData s.op = true := by
    by_contra hnot
    rw [dataAddress_of_not_accessesData (Bool.eq_false_iff.mpr hnot)] at hva
    cases hva
  obtain ⟨himplemented, hundef, hecall, hcsr, hwfi⟩ := plain_of_accessesData haccess
  refine ⟨himplemented, hundef, hecall, fun va' hva' ↦ ?_, fun h ↦ ?_, fun h ↦ absurd h hwfi⟩
  · obtain rfl := Option.some.inj (hva.symm.trans hva')
    exact h
  · exact absurd (hcsr.symm.trans h) Bool.noConfusion

theorem retires_iff_of_isCsr (h : isCsr s.op = true) :
    s.Retires ↔ s.CsrRetires s.instr.csr.toNat s.readsCsr s.writesCsr := by
  obtain ⟨himplemented, hundef, hecall, haccess, hwfi⟩ := plain_of_isCsr h
  refine ⟨fun hr ↦ hr.csr h, fun hc ↦
    ⟨himplemented, hundef, hecall, fun va hva ↦ ?_, fun _ ↦ hc, fun h ↦ absurd h hwfi⟩⟩
  rw [dataAddress_of_not_accessesData haccess] at hva
  cases hva

theorem retires_iff_of_WFI (h : s.op = .WFI) :
    s.Retires ↔ ¬ (s.prv = SupervisorMode ∧ s.csrs.mstatusTw = 1#1) ∧
      ¬ (s.prv = UserMode ∧ s.csrs.hasSupervisorModeExtension = true) := by
  refine ⟨fun hr ↦ hr.wait h, fun hw ↦ ⟨?_, ?_, ?_, fun va hva ↦ ?_, fun hcsr ↦ ?_, fun _ ↦ hw⟩⟩
  · rw [h]
    rfl
  · rw [h]
    exact Opcode.noConfusion
  · rw [h]
    exact Opcode.noConfusion
  · rw [State.dataAddress, h] at hva
    cases hva
  · rw [h] at hcsr
    cases hcsr

theorem settles_execCsr (env : Env) (h : isCsr s.op = true) :
    Settles (s.CsrRetires s.instr.csr.toNat s.readsCsr s.writesCsr) (· = s) (execCsr env s.op)
      fun _ _ ↦ True := by
  refine Settles.read_bind fun s' hs' ↦ ?_
  rw [hs', State.readsCsr, State.writesCsr]
  cases hop : s.op
  case CSRRW | CSRRWI => exact settles_csrReadWrite env _
  case CSRRS | CSRRC | CSRRSI | CSRRCI => exact settles_csrReadModify env _ _
  all_goals
    rw [hop] at h
    cases h

theorem returns_jump (target : BitVec 32) :
    Triple (fun s ↦ s.csrs.hasCExtension = true) (jump target)
      (fun _ s ↦ s.csrs.hasCExtension = true) fun e _ ↦ ¬ e.IsTrap := by
  refine Triple.bind (Q := fun _ s ↦ s.csrs.hasCExtension = true) (Triple.update fun _ h ↦ h) fun _ ↦
    Triple.read_bind fun s hs ↦ Triple.bind (Q := fun _ s' ↦ s' = s)
      (triple_ensure (fun _ h _ ↦ h) fun _ _ _ ↦ id) fun _ ↦ triple_raiseTrapIf (fun _ h _ ↦ h ▸ hs)
      fun _ _ hc ↦ ?_
  rw [hs] at hc
  exact absurd hc.2 Bool.noConfusion

theorem returns_jumpAndLink (target : BitVec 32) :
    Triple (fun s ↦ s.csrs.hasCExtension = true) (jumpAndLink target) (fun _ _ ↦ True)
      fun e _ ↦ ¬ e.IsTrap := by
  refine Triple.read_bind fun s hs ↦ Triple.bind (Triple.pre (returns_jump target) fun _ h ↦ ?_)
    fun _ ↦ Triple.update fun _ _ ↦ trivial
  rw [h]
  exact hs

theorem returns_execBranch (res : ConcolicValue) :
    Triple (fun s ↦ s.csrs.hasCExtension = true) (execBranch res) (fun _ _ ↦ True)
      fun e _ ↦ ¬ e.IsTrap := by
  refine Triple.read_bind fun s hs ↦ Triple.bind (Q := fun _ _ ↦ True) ?_ fun _ ↦ ?_
  · refine Triple.ite (fun _ ↦ ?_) fun _ ↦ Triple.ret fun _ _ ↦ trivial
    exact (returns_jump _).conseq (fun _ h ↦ h ▸ hs) (fun _ _ _ ↦ trivial) fun _ _ h ↦ h
  · unfold trackAndTraceBranch
    split
    · exact Triple.update fun _ h ↦ h
    · exact Triple.ret fun _ h ↦ h

theorem settles_raiseEcall (hop : s.op = .ECALL) :
    Settles s.Retires (· = s) raiseEcall fun _ _ ↦ True := by
  have hnot : ¬ s.Retires := fun h ↦ h.call hop
  refine Triple.read_bind fun s' _ ↦ Triple.ite (fun _ ↦ Settles.raise hnot) fun _ ↦
    Triple.ite (fun _ ↦ Settles.raise hnot) fun _ ↦ Triple.ite (fun _ ↦ Settles.raise hnot) fun _ ↦ ?_
  exact Triple.raise fun _ _ ht ↦ ht.elim

/-- The operations that neither compute a value nor decide a branch. -/
theorem settles_executeOther (env : Env) (hC : s.csrs.hasCExtension = true)
    (hcall : s.NotIntercepted) (haccess : s.dataAddress = none) :
    Settles s.Retires (· = s) (executeOther env s.op) fun _ _ ↦ True := by
  have hreturns : ∀ {m : IssM Bool}, alwaysRetires s.op = true →
      Triple (· = s) m (fun _ _ ↦ True) (fun e _ ↦ ¬ e.IsTrap) →
      Settles s.Retires (· = s) m fun _ _ ↦ True :=
    fun halways hm ↦ Settles.of_returns hm (retires_of_always halways)
  have hjump : ∀ {f : State → BitVec 32}, alwaysRetires s.op = true →
      Settles s.Retires (· = s) (do
        let s ← get
        jumpAndLink (f s)
        return false) fun _ _ ↦ True :=
    fun halways ↦ hreturns halways (Triple.read_bind fun s' hs' ↦ Triple.bind (Triple.pre
      (returns_jumpAndLink _) fun _ h ↦ by rw [h, hs']; exact hC) fun _ ↦ Triple.ret fun _ h ↦ h)
  cases hop : s.op
  case UNDEF => exact Settles.raiseIllegalInstruction fun h ↦ h.defined hop
  case JAL | JALR => exact hjump (by rw [hop]; rfl)
  case LB | LH | LW | LBU | LHU | SB | SH | SW =>
    rw [State.dataAddress, hop] at haccess
    cases haccess
  case FENCE | FENCE_I => exact hreturns (by rw [hop]; rfl) (Triple.ret fun _ _ ↦ trivial)
  case ECALL =>
    refine Settles.returns_bind (Q := fun _ _ ↦ True) ?_ fun _ ↦ Triple.ret fun _ h ↦ h
    exact triple_execEcall hcall (settles_raiseEcall hop) env
  case EBREAK | MRET =>
    exact hreturns (by rw [hop]; rfl) (Triple.bind (Q := fun _ _ ↦ True)
      (Triple.update fun _ _ ↦ trivial) fun _ ↦ Triple.ret fun _ h ↦ h)
  case CSRRW | CSRRS | CSRRC | CSRRWI | CSRRSI | CSRRCI =>
    have hcsr : isCsr s.op = true := by rw [hop]; rfl
    have hexec := settles_execCsr env hcsr
    rw [hop] at hexec
    exact (Settles.returns_bind hexec fun _ ↦ Triple.ret fun _ h ↦ h).iff
      (retires_iff_of_isCsr hcsr).symm
  case WFI =>
    have hwfi : Settles s.Retires (· = s) execWfi fun _ _ ↦ True := by
      refine Settles.bind_of_returns (Q := fun _ s' ↦ s'.prv = s.prv ∧ s'.csrs = s.csrs)
        (Triple.update fun s' h ↦ by rw [h]; exact ⟨rfl, rfl⟩) fun _ ↦
        Settles.read_bind fun s' hs' ↦ ?_
      rw [hs'.1, hs'.2]
      exact ((Settles.raiseIllegalInstructionIf.bind fun _ ↦
        Settles.raiseIllegalInstructionIf.post fun _ _ _ ↦ trivial).iff (retires_iff_of_WFI hop).symm)
    exact Settles.returns_bind hwfi fun _ ↦ Triple.ret fun _ h ↦ h
  all_goals exact Triple.raise fun _ _ ht ↦ ht.elim

/-- An instruction returns only if it retires, and traps only if it does not. -/
theorem settles_execute (env : Env) (hC : s.csrs.hasCExtension = true) (hcall : s.NotIntercepted) :
    Settles s.Retires (· = s) (execute env) fun _ _ ↦ True := by
  cases hva : s.dataAddress with
  | some va => exact (isAccess_execute env hva).settles.iff (retires_iff_of_access hva).symm
  | none =>
    refine Settles.read_bind fun s' hs' ↦ ?_
    rw [hs']
    split
    case h_1 value hvalue =>
      refine Settles.of_returns (Triple.bind (Q := fun _ _ ↦ True) (Triple.update fun _ _ ↦ trivial)
        fun _ ↦ Triple.ret fun _ h ↦ h) (retires_of_always ?_)
      cases hop : s.op <;> rw [hop] at hvalue <;> first
        | rfl
        | cases hvalue
    case h_2 =>
      split
      case h_1 res hres =>
        refine Settles.of_returns (Triple.bind (Triple.pre (returns_execBranch res) fun _ h ↦ ?_)
          fun _ ↦ Triple.ret fun _ h ↦ h) (retires_of_always ?_)
        · rw [h]
          exact hC
        · cases hop : s.op <;> rw [hop] at hres <;> first
            | rfl
            | cases hres
      case h_2 => exact settles_executeOther env hC hcall hva

theorem exists_dataAddress_of_accessesData (h : accessesData s.op = true) :
    ∃ va, s.dataAddress = some va := by
  unfold State.dataAddress
  unfold accessesData at h
  split
  case h_9 =>
    split at h
    case h_9 => cases h
    all_goals contradiction
  all_goals exact ⟨_, rfl⟩

/-- What the core does not support ends with an exception of the host. -/
theorem triple_execute_of_not_supports (env : Env) (hcall : s.NotIntercepted) (h : ¬ s.Supports) :
    Triple (· = s) (execute env) (fun _ _ ↦ False) fun e _ ↦ isHost e := by
  by_cases hop : implemented s.op = true
  case neg => exact triple_execute_of_not_implemented env (Bool.eq_false_iff.mpr hop)
  by_cases hecall : s.op = .ECALL ∧ s.prv = 2
  case pos =>
    have hraise : Triple (· = s) raiseEcall (fun _ _ ↦ False) fun e _ ↦ isHost e := by
      refine Triple.read_bind fun s' hs' ↦ ?_
      rw [hs', hecall.2]
      exact Triple.raise fun _ _ ↦ trivial
    refine Triple.read_bind fun s' hs' ↦ ?_
    rw [hs', hecall.1]
    exact Triple.bind (triple_execEcall hcall hraise env) fun _ _ h ↦ h.elim
  case neg =>
    have haccess : ∃ va, s.AccessesData va ∧ ¬ s.Translatable .STORE := by
      by_contra hnone
      refine h ⟨hop, fun hop' hprv ↦ hecall ⟨hop', hprv⟩, fun va hva ↦ ?_⟩
      exact by_contra fun hmode ↦ hnone ⟨va, hva, hmode⟩
    obtain ⟨va, ⟨hva, haligned⟩, hmode⟩ := haccess
    exact (isAccess_execute env hva).rejected haligned hmode

/-- What the core supports is executed without an exception of the host. -/
theorem State.Supports.execute (h : s.Supports) (env : Env) (hprv : s.prv ≤ MachineMode)
    (hpc : s.lastPc &&& 1#32 = 0#32) (hcall : s.NotIntercepted) :
    TrapsOnly (· = s) (execute env) fun _ ↦ Located s := by
  by_cases hva : ∃ va, s.dataAddress = some va ∧ va.toNat % dataBytes s.op ≠ 0
  case pos =>
    obtain ⟨va, hva, hmisaligned⟩ := hva
    exact Triple.post ((isAccess_execute env hva).misaligned hmisaligned) fun _ _ h ↦ h.elim
  case neg =>
    have houtcome : Outcome env s s.op (Located s) Thrown.IsTrap :=
      { traps := fun _ h ↦ h
        retires := fun _ h ↦ h
        access := by
          intro haccess
          obtain ⟨va, hsome⟩ := exists_dataAddress_of_accessesData haccess
          have haligned : va.toNat % dataBytes s.op = 0 :=
            by_contra fun hmisaligned ↦ hva ⟨va, hsome, hmisaligned⟩
          exact fetched_v2p hprv (h.access va ⟨hsome, haligned⟩)
        call := by
          intro hop
          refine Triple.of_start fun s' hs' ↦ Triple.post (Q := fun _ _ ↦ False)
            (triple_execEcall ?_ (trapsOnly_raiseEcall ?_ ?_) env) fun _ _ h ↦ h.elim
          · rw [State.NotIntercepted, hs'.sys, hs'.regs]
            exact hcall
          · rw [hs'.prv]
            exact hprv
          · rw [hs'.prv]
            exact h.call hop
        unknown := fun hop ↦ absurd (h.implemented.symm.trans hop) Bool.noConfusion }
    refine Triple.pre (houtcome.execute hpc) fun s' hs' ↦ ?_
    rw [hs']
    exact ⟨Fetched.refl s, rfl⟩

end Instructions

/-! ## Steps -/

/-- The decoded instruction of a state retires or traps: it is supported and, if it retires, its
address can be counted. -/
structure Executable (env : Env) (s : State) : Prop extends s.Supports where
  coverage : s.Retires →
    ∃ cov, s.coverage = some cov ∧ cov.Knows (env.getSources (s.lastPc.setWidth 64))

/-- The second half of a step. -/
def executeDecoded (env : Env) : IssM Unit := do
  let flags ← classifyOperands
  let init ← execute env
  cover env ⟨flags.1, flags.2, init⟩

section Steps

variable {env : Env} {s : State}

theorem trapsOnly_iff {m : IssM Unit} :
    TrapsOnly (· = s) m (fun _ _ ↦ True) ↔
      (∃ s', m s = .ok () s') ∨ ∃ reason mtval s', m s = .error (.trap reason mtval) s' := by
  constructor
  · intro h
    have hrun := h s rfl
    cases hm : m s with
    | ok _ s' => exact .inl ⟨s', rfl⟩
    | error e s' =>
      rw [hm] at hrun
      cases e with
      | trap reason mtval => exact .inr ⟨reason, mtval, s', rfl⟩
      | host error => exact hrun.elim
  · rintro h _ rfl
    rcases h with ⟨s', h⟩ | ⟨reason, mtval, s', h⟩
    · rw [h]
      trivial
    · rw [h]
      trivial

theorem not_trapsOnly_of_isHost {α : Type} {m : IssM α}
    (h : Triple (· = s) m (fun _ _ ↦ False) fun e _ ↦ isHost e) :
    ¬ TrapsOnly (· = s) m fun _ _ ↦ True := by
  intro htraps
  have hboth := (htraps.and h) s rfl
  cases hm : m s with
  | ok a s' =>
    rw [hm] at hboth
    exact hboth.2
  | error e s' =>
    rw [hm] at hboth
    cases e with
    | trap reason mtval => exact hboth.2
    | host error => exact hboth.1

/-- After a part that returns, the rest decides. -/
theorem trapsOnly_bind_iff {α β : Type} {m : IssM α} {f : α → IssM β} {a : α} {s' : State}
    (hm : m s = .ok a s') :
    TrapsOnly (· = s) (m >>= f) (fun _ _ ↦ True) ↔ TrapsOnly (· = s') (f a) fun _ _ ↦ True := by
  have hrun := bind_of_ok hm f
  constructor
  · rintro h _ rfl
    rw [← hrun]
    exact h s rfl
  · rintro h _ rfl
    rw [hrun]
    exact h s' rfl

theorem Executable.trapsOnly (h : Executable env s) (hC : s.csrs.hasCExtension = true)
    (hprv : s.prv ≤ MachineMode) (hpc : s.lastPc &&& 1#32 = 0#32) (hcall : s.NotIntercepted) :
    TrapsOnly (· = s) (executeDecoded env) fun _ _ ↦ True := by
  have hclassify := Triple.pre (trapsOnly_classifyOperands (I := (· = s)) h.implemented)
    fun s' (hs' : s' = s) ↦ ⟨hs', congrArg State.op hs'⟩
  refine TrapsOnly.bind (Triple.post hclassify fun _ _ h ↦ h.1) fun flags ↦ ?_
  have hexecute := (h.toSupports.execute env hprv hpc hcall).and (settles_execute env hC hcall)
  refine TrapsOnly.bind (hexecute.conseq (fun _ h ↦ h) (fun _ _ h ↦ h) fun _ _ h ↦ h.1) fun init ↦
    Triple.of_start fun s' hs' ↦ ?_
  obtain ⟨cov, hcov, hknows⟩ := h.coverage hs'.2.1
  refine trapsOnly_cover (hs'.1.coverage.trans hcov) ?_ _
  rw [hs'.1.lastPc]
  exact hknows

theorem executable_of_trapsOnly (h : TrapsOnly (· = s) (executeDecoded env) fun _ _ ↦ True)
    (hC : s.csrs.hasCExtension = true) (hprv : s.prv ≤ MachineMode)
    (hpc : s.lastPc &&& 1#32 = 0#32) (hcall : s.NotIntercepted) : Executable env s := by
  have hclassify := triple_classifyOperands s s rfl
  unfold executeDecoded at h
  cases hflags : classifyOperands s with
  | error e s' =>
    rw [hflags] at hclassify
    have hrun := h s rfl
    rw [bind_of_error hflags] at hrun
    cases e with
    | trap reason mtval => exact hclassify.elim
    | host error => exact hrun.elim
  | ok flags s' =>
    rw [hflags] at hclassify
    obtain rfl : s' = s := hclassify
    rw [trapsOnly_bind_iff hflags] at h
    have hsupports : s'.Supports := by
      by_contra hnot
      refine not_trapsOnly_of_isHost (Triple.bind (triple_execute_of_not_supports env hcall hnot)
        fun _ _ h ↦ h.elim) h
    refine ⟨hsupports, fun hretires ↦ ?_⟩
    have hexecute := ((hsupports.execute env hprv hpc hcall).and (settles_execute env hC hcall)) s' rfl
    cases hinit : execute env s' with
    | error e s₁ =>
      rw [hinit] at hexecute
      exact absurd hretires (hexecute.2 hexecute.1)
    | ok init s₁ =>
      rw [hinit] at hexecute
      have hlocated : Located s' s₁ := hexecute.1
      rw [trapsOnly_bind_iff hinit] at h
      have hcover := (exists_cover_iff env ⟨flags.1, flags.2, init⟩ s₁).mp ?_
      · rwa [hlocated.coverage, hlocated.lastPc] at hcover
      · have hrun := h s₁ rfl
        have hhost := triple_cover env ⟨flags.1, flags.2, init⟩ s₁ s₁ rfl
        cases hrun' : cover env ⟨flags.1, flags.2, init⟩ s₁ with
        | ok _ s₂ => exact ⟨s₂, rfl⟩
        | error e s₂ =>
          rw [hrun'] at hrun hhost
          cases e with
          | trap reason mtval => exact hhost.elim
          | host error => exact hrun.elim

/-- A fetch in the reserved mode is rejected. -/
theorem triple_fetch_of_not_translatable (h : ¬ s.Translatable .FETCH) :
    Triple (· = s) fetch (fun _ _ ↦ False) fun e _ ↦ isHost e := by
  refine Triple.read_bind fun s' hs' ↦ Triple.bind (Q := fun _ s' ↦ s' = s)
    (triple_ensure (fun _ h _ ↦ h.trans hs') fun _ _ _ ↦ trivial) fun _ ↦
    Triple.bind (Q := fun _ _ ↦ False) (Triple.handle (F := fun e _ ↦ isHost e) ?_ fun e ↦ ?_)
    fun _ _ h ↦ h.elim
  · refine Triple.bind (Q := fun _ _ ↦ False) ((triple_v2p_of_not_translatable h _).conseq
      (fun _ h ↦ h) (fun _ _ h ↦ h) fun e _ h ↦ ?_) fun _ _ h ↦ h.elim
    rw [h]
    trivial
  · cases e with
    | trap reason mtval => exact fun _ h ↦ h.elim
    | host error => exact Triple.raise fun _ h ↦ h

theorem trapsOnly_frontEnd (hprv : s.prv ≤ MachineMode)
    (halign : s.pc &&& ~~~s.pcAlignmentMask = 0#32) (hfetch : s.Translatable .FETCH) :
    TrapsOnly (· = s) (do fetch; decode) fun _ _ ↦ True := by
  refine TrapsOnly.bind (triple_fetched_fetch (fun _ h ↦ h) halign (fetched_v2p hprv hfetch))
    fun _ ↦ Triple.of_start fun s₁ h₁ ↦ ?_
  refine (fetched_decode s s₁.instr).conseq (fun s' h ↦ ?_) (fun _ _ _ ↦ trivial) fun _ _ h ↦ h
  rw [h]
  exact ⟨h₁.1, rfl⟩

end Steps

/-- `lw x6, 0(x5)` with a symbolic `x5`, after `li a7, 0` -/
def uninterceptedLoad : State :=
  stateAfter (runSteps bootEnv 4)
    (bootSystem (assemble (makeSymbolic ++ [0x00000893#32, 0x0002a303#32])))

/-- `mul x1, x1, x1` -/
def mulProgram : List (BitVec 8) := assemble [0x021080b3#32]

end CoverageVP.Iss
