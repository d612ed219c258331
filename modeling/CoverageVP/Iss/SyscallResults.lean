import CoverageVP.Iss.Failures

/-!
# Results of intercepted calls

A result reaches the guest if it is not negative and fits into an `int`. A negative result fails an
assertion of the core, a large one does not pass the checked conversion, and calls that need host
memory fail the assertion of its pointer.
-/

namespace CoverageVP.Iss

open Lib Clover

/-- The calls that the handler knows. -/
def supportedSyscalls : List Nat :=
  [SYS_fstat, SYS_gettimeofday, SYS_brk, SYS_time, SYS_write, SYS_read, SYS_lseek, SYS_open,
    SYS_close, SYS_sym_reg, SYS_sym_mem, SYS_host_error, SYS_exit, SYS_host_test_pass,
    SYS_host_test_fail]

/-- The exceptions that an assertion or a checked conversion raises. -/
def Thrown.Aborts : Thrown → Prop
  | .host (.assertion _) => True
  | .host .badLexicalCast => True
  | _ => False

section Call

variable (env : Env) (sys : SyscallHandler) (s : State)

def State.syscallNumber : Nat := (getValue (s.regs s.syscallRegisterIndex)).toNat

def State.syscallResult : IssM Int :=
  dispatchSyscall env sys s.syscallNumber (getValue (s.regs RegFile.a0))
    (getValue (s.regs RegFile.a1))

/-- The result of the call is delivered in `a0`, nothing aborts the simulator, and an empty range of
memory is left alone. -/
structure SyscallDelivered : Prop where
  delivered : ∀ r s₁, s.syscallResult env sys s = .ok r s₁ →
    ∃ s', executeSyscall env sys s = .ok () s' ∧ s'.regs RegFile.a0 = constant (BitVec.ofInt 32 r)
  completed : ∀ e s', executeSyscall env sys s = .error e s' → ¬ e.Aborts
  unchanged : s.syscallNumber = SYS_sym_mem → getValue (s.regs RegFile.a1) = 0#32 →
    s.syscallResult env sys s = .ok 0 s

/-- The arguments, the host's answer and the mode for which a result is delivered. -/
def SyscallDelivers (n : Nat) (a0 a1 : BitVec 32) (answer : Int) : Prop :=
  if n = SYS_fstat then 0 < answer
  else if n = SYS_brk then (if a0 = 0#32 then sys.hp.toNat else a0.toNat) < 2 ^ 31
  else if n = SYS_time then a0 = 0#32 ∧ 0 ≤ answer ∧ answer < 2 ^ 31
  else if n = SYS_gettimeofday ∨ n = SYS_write ∨ n = SYS_read ∨ n = SYS_open then False
  else if n = SYS_lseek then 0 ≤ (BitVec.ofInt 32 answer).toInt
  else if n = SYS_close then a0.toNat ≤ 2 ∨ 0 ≤ answer
  else if n = SYS_sym_reg then a0.toNat < 32
  else if n = SYS_sym_mem then a1 ≠ 0#32 ∧ s.Translatable .STORE
  else True

end Call

/-! ## Each call -/

/-- A call returns a result that can be delivered or is left by an exception of the guest if and only
if `C` holds. -/
def SettledBy (C : Prop) (s : State) (m : IssM Int) : Prop :=
  Triple (· = s) m (fun r _ ↦ 0 ≤ r ↔ C) fun e _ ↦ ¬ e.Aborts ↔ C

theorem SettledBy.congr {C C' : Prop} {s : State} {m : IssM Int} (h : SettledBy C s m)
    (hC : C ↔ C') : SettledBy C' s m :=
  Triple.conseq h (fun _ h ↦ h) (fun _ _ h ↦ h.trans hC) fun _ _ h ↦ h.trans hC

theorem triple_callHost (env : Env) (s : State) :
    Triple (· = s) (callHost env) (fun r _ ↦ r = env.hostResult s.hostCalls) fun _ _ ↦ False := by
  refine Triple.read_bind fun s' hs' ↦ Triple.bind (Q := fun _ _ ↦ True)
    (Triple.update fun _ _ ↦ trivial) fun _ ↦ Triple.ret fun _ _ ↦ ?_
  rw [hs']

theorem settledBy_callHost {env : Env} {s : State} {C : Prop} {f : Int → IssM Int}
    (h : ∀ s', SettledBy C s' (f (env.hostResult s.hostCalls))) :
    SettledBy C s (callHost env >>= f) := by
  refine Triple.bind ((triple_callHost env s).conseq (fun _ h ↦ h) (fun _ _ h ↦ h)
    fun _ _ h ↦ h.elim) fun r ↦ Triple.of_start fun s' hs' ↦ ?_
  rw [hs']
  exact h s'

theorem settledBy_ret {C : Prop} {s : State} {r : Int} (h : 0 ≤ r ↔ C) : SettledBy C s (pure r) :=
  Triple.ret fun _ _ ↦ h

theorem settledBy_hostError {C : Prop} {s : State} {error : HostError}
    (h : ¬ (Thrown.host error).Aborts ↔ C) : SettledBy C s (hostError error) :=
  Triple.raise fun _ _ ↦ h

theorem settledBy_update {C : Prop} {s : State} {f : State → State} {m : IssM Int}
    (h : ∀ s', SettledBy C s' m) : SettledBy C s (do modify f; m) :=
  Triple.bind (Q := fun _ _ ↦ True) (Triple.update fun _ _ ↦ trivial) fun _ ↦
    Triple.of_start fun s' _ ↦ h s'

theorem settledBy_ite {C c : Prop} [Decidable c] {s : State} {m m' : IssM Int}
    (hm : c → SettledBy C s m) (hm' : ¬ c → SettledBy C s m') :
    SettledBy C s (if c then m else m') :=
  Triple.ite hm hm'

theorem settledBy_lexicalCastInt {s : State} {value : Int} (h : 0 ≤ value) :
    SettledBy (value < 2 ^ 31) s (lexicalCastInt value) := by
  unfold lexicalCastInt
  refine settledBy_ite (fun hrange ↦ settledBy_ret ?_) fun hrange ↦ settledBy_hostError ?_
  · exact iff_of_true h hrange.2
  · refine iff_of_false (fun h ↦ h trivial) fun hlt ↦ hrange ⟨?_, hlt⟩
    omega

theorem settledBy_guestToHostPointer (s : State) : SettledBy False s guestToHostPointer :=
  settledBy_hostError (iff_of_false (fun h ↦ h trivial) not_false)

section Calls

variable (env : Env) (sys : SyscallHandler) (s : State)

theorem settledBy_sysFstat : SettledBy (0 < env.hostResult s.hostCalls) s (sysFstat env) := by
  refine settledBy_callHost fun s' ↦ settledBy_ite (fun hzero ↦ ?_) fun hzero ↦ settledBy_ret ?_
  · exact (settledBy_guestToHostPointer s').congr (iff_of_false not_false (by omega))
  · omega

theorem settledBy_sysBrk (addr : BitVec 32) :
    SettledBy ((if addr = 0#32 then sys.hp.toNat else addr.toNat) < 2 ^ 31) s (sysBrk sys addr) := by
  have hcast : ∀ (n : Nat) s', SettledBy (n < 2 ^ 31) s' (lexicalCastInt n) := by
    intro n s'
    have hiff : (n : Int) < 2 ^ 31 ↔ n < 2 ^ 31 := by omega
    exact (settledBy_lexicalCastInt (Int.natCast_nonneg n)).congr hiff
  unfold sysBrk
  split
  · exact hcast _ _
  · exact settledBy_update fun s' ↦ hcast _ _

theorem settledBy_sysTime (tloc : BitVec 32) :
    SettledBy (tloc = 0#32 ∧ 0 ≤ env.hostResult s.hostCalls ∧ env.hostResult s.hostCalls < 2 ^ 31) s
      (sysTime env tloc) := by
  refine settledBy_callHost fun s' ↦ ?_
  unfold lexicalCastInt
  by_cases hrange : -(2 : Int) ^ 31 ≤ env.hostResult s.hostCalls ∧
      env.hostResult s.hostCalls < 2 ^ 31
  · rw [if_pos hrange, pure_bind]
    refine settledBy_ite (fun hloc ↦ ?_) fun hloc ↦ settledBy_ret ?_
    · exact (settledBy_guestToHostPointer s').congr (iff_of_false not_false fun h ↦ hloc h.1)
    · rw [and_iff_right (not_not.mp hloc), and_iff_left hrange.2]
  · rw [if_neg hrange]
    refine Triple.bind (Q := fun _ _ ↦ False) (Triple.raise fun _ _ ↦ ?_) fun _ ↦ fun _ h ↦ h.elim
    exact iff_of_false (fun h ↦ h trivial) fun h ↦ hrange ⟨by omega, h.2.2⟩

theorem settledBy_sysLseek :
    SettledBy (0 ≤ (BitVec.ofInt 32 (env.hostResult s.hostCalls)).toInt) s (sysLseek env) :=
  settledBy_callHost fun _ ↦ settledBy_ret Iff.rfl

theorem settledBy_sysClose (fd : BitVec 32) :
    SettledBy (fd.toNat ≤ 2 ∨ 0 ≤ env.hostResult s.hostCalls) s (sysClose env fd) := by
  refine settledBy_ite (fun hfd ↦ settledBy_ret (iff_of_true (Int.le_refl 0) (.inl hfd)))
    fun hfd ↦ ?_
  refine (triple_callHost env s).conseq (fun _ h ↦ h) (fun r _ h ↦ ?_) fun _ _ h ↦ h.elim
  rw [h, or_iff_right hfd]

theorem settledBy_sysSymReg (index : BitVec 32) :
    SettledBy (index.toNat < 32) s (sysSymReg env index) := by
  refine settledBy_ite (fun h ↦ settledBy_ret (iff_of_false (by decide) (by omega))) fun h ↦ ?_
  exact settledBy_update fun _ ↦ settledBy_ret (iff_of_true (Int.le_refl 0) (by omega))

theorem settledBy_sysExit : SettledBy True s (sysExit sys) :=
  settledBy_update fun _ ↦ settledBy_ret (iff_of_true (Int.le_refl 0) trivial)

theorem exists_getSymbolicBytes (name : String) {size : Nat} (h : size ≠ 0) :
    ∃ value, env.getSymbolicBytes name size = some value := by
  obtain ⟨n, rfl⟩ := Nat.exists_eq_succ_of_ne_zero h
  rw [Env.getSymbolicBytes, List.range_succ, List.foldl_concat]
  unfold Solver.concatByte
  split
  · exact ⟨_, rfl⟩
  · exact ⟨_, rfl⟩

theorem not_aborts_of_isTrap {e : Thrown} (h : e.IsTrap) : ¬ e.Aborts := by
  cases e with
  | trap => exact not_false
  | host => exact absurd h not_false

theorem settledBy_sysSymMem (hprv : s.prv ≤ MachineMode) (addr : BitVec 32) {size : BitVec 32}
    (hsize : size ≠ 0#32) :
    SettledBy (s.Translatable .STORE) s (sysSymMem env addr size) := by
  have hne : size.toNat ≠ 0 := fun h ↦ hsize (BitVec.eq_of_toNat_eq h)
  obtain ⟨value, hvalue⟩ := exists_getSymbolicBytes env (memoryName addr.toNat) hne
  refine Triple.bind (Q := fun _ _ ↦ s.Translatable .STORE) ?_ fun _ ↦
    Triple.ret fun _ h ↦ iff_of_true (Int.le_refl 0) h
  rw [makeSymbolicMemory, hvalue]
  by_cases h : s.Translatable .STORE
  · have hstore : TrapsOnly (· = s) (symbolicStoreData (constant addr) (some value) size.toNat)
        fun _ _ ↦ True :=
      TrapsOnly.bind (trapsOnly_v2p hprv _ h) fun _ ↦ trapsOnly_transportWrite _ _ _
    exact Triple.conseq hstore (fun _ h ↦ h) (fun _ _ _ ↦ h) fun _ _ htrap ↦
      iff_of_true (not_aborts_of_isTrap htrap) h
  · refine Triple.bind (Q := fun _ _ ↦ False) ?_ fun _ ↦ fun _ h ↦ h.elim
    refine (triple_v2p_of_not_translatable h _).conseq (fun _ h ↦ h) (fun _ _ h ↦ h) fun e _ he ↦ ?_
    rw [he]
    exact iff_of_false (fun h ↦ h trivial) h

/-- An empty range is stored as a null pointer. -/
theorem sysSymMem_zero (addr : BitVec 32) :
    Triple (· = s) (sysSymMem env addr 0#32) (fun _ _ ↦ False) fun _ _ ↦ True := by
  refine Triple.bind (Q := fun _ _ ↦ False) ?_ fun _ ↦ fun _ h ↦ h.elim
  refine Triple.bind (Triple.true_true _) fun _ ↦ ?_
  exact Triple.raise fun _ _ ↦ trivial

end Calls

/-! ## Delivery -/

section Delivery

variable {env : Env} {sys : SyscallHandler} {s : State}

theorem settledBy_dispatchSyscall (hprv : s.prv ≤ MachineMode) {n : Nat}
    (hn : n ∈ supportedSyscalls) (a0 : BitVec 32) {a1 : BitVec 32}
    (hsize : n = SYS_sym_mem → a1 ≠ 0#32) :
    SettledBy (SyscallDelivers sys s n a0 a1 (env.hostResult s.hostCalls)) s
      (dispatchSyscall env sys n a0 a1) := by
  unfold SyscallDelivers dispatchSyscall
  by_cases hfstat : n = SYS_fstat
  · rw [if_pos hfstat, if_pos hfstat]
    exact settledBy_sysFstat env s
  rw [if_neg hfstat, if_neg hfstat]
  by_cases hbrk : n = SYS_brk
  · rw [if_pos hbrk, if_pos hbrk]
    exact settledBy_sysBrk sys s a0
  rw [if_neg hbrk, if_neg hbrk]
  by_cases htime : n = SYS_time
  · rw [if_pos htime, if_pos htime]
    exact settledBy_sysTime env s a0
  rw [if_neg htime, if_neg htime]
  by_cases hpointer : n = SYS_gettimeofday ∨ n = SYS_write ∨ n = SYS_read ∨ n = SYS_open
  · rw [if_pos hpointer, if_pos hpointer]
    exact settledBy_guestToHostPointer s
  rw [if_neg hpointer, if_neg hpointer]
  by_cases hlseek : n = SYS_lseek
  · rw [if_pos hlseek, if_pos hlseek]
    exact settledBy_sysLseek env s
  rw [if_neg hlseek, if_neg hlseek]
  by_cases hclose : n = SYS_close
  · rw [if_pos hclose, if_pos hclose]
    exact settledBy_sysClose env s a0
  rw [if_neg hclose, if_neg hclose]
  by_cases hreg : n = SYS_sym_reg
  · rw [if_pos hreg, if_pos hreg]
    exact settledBy_sysSymReg env s a0
  rw [if_neg hreg, if_neg hreg]
  by_cases hmem : n = SYS_sym_mem
  · rw [if_pos hmem, if_pos hmem]
    exact (settledBy_sysSymMem env s hprv a0 (hsize hmem)).congr (and_iff_right (hsize hmem)).symm
  rw [if_neg hmem, if_neg hmem]
  by_cases hreport : n = SYS_host_error
  · rw [if_pos hreport]
    exact settledBy_hostError (iff_of_true not_false trivial)
  rw [if_neg hreport, if_pos]
  · exact settledBy_sysExit sys s
  · simp only [supportedSyscalls, List.mem_cons, List.not_mem_nil, or_false] at hn
    tauto

theorem executeSyscall_eq (env : Env) (sys : SyscallHandler) (s : State) :
    executeSyscall env sys s =
      (s.syscallResult env sys >>= fun r ↦ (do writeResult r; passExit : IssM Unit)) s := rfl

theorem writeResult_of_nonneg {r : Int} (h : 0 ≤ r) (s : State) :
    writeResult r s = .ok () (s.writeReg RegFile.a0 (constant (BitVec.ofInt 32 r))) := by
  rw [writeResult, ensure, if_pos h]
  rfl

theorem writeResult_of_neg {r : Int} (h : ¬ 0 ≤ r) (s : State) :
    writeResult r s = .error (.host (.assertion .sysResult)) s := by
  rw [writeResult, ensure, if_neg h]
  rfl

theorem syscallDelivered_iff_of_settledBy {C : Prop} (h : SettledBy C s (s.syscallResult env sys))
    (hsize : s.syscallNumber = SYS_sym_mem → getValue (s.regs RegFile.a1) ≠ 0#32) :
    SyscallDelivered env sys s ↔ C := by
  cases hm : s.syscallResult env sys s with
  | ok r s₁ =>
    have hC : 0 ≤ r ↔ C := h.of_ok rfl hm
    rw [← hC]
    constructor
    · intro hd
      by_contra hr
      have hexec : executeSyscall env sys s = .error (.host (.assertion .sysResult)) s₁ := by
        rw [executeSyscall_eq, bind_of_ok hm, bind_of_error (writeResult_of_neg hr s₁)]
      exact hd.completed _ s₁ hexec trivial
    · intro hr
      have hexec : executeSyscall env sys s =
          passExit (s₁.writeReg RegFile.a0 (constant (BitVec.ofInt 32 r))) := by
        rw [executeSyscall_eq, bind_of_ok hm, bind_of_ok (writeResult_of_nonneg hr s₁)]
      refine ⟨?_, ?_, fun hn h0 ↦ absurd h0 (hsize hn)⟩
      · intro r' s' heq
        obtain ⟨rfl, rfl⟩ : r = r' ∧ s₁ = s' := by
          rw [hm] at heq
          cases heq
          exact ⟨rfl, rfl⟩
        exact ⟨_, hexec, RegFile.write_constant_self s₁.regs RegFile.a0 _⟩
      · intro e s' herror
        rw [hexec] at herror
        cases herror
  | error e s₁ =>
    have hC : ¬ e.Aborts ↔ C := h.of_error rfl hm
    have hexec : executeSyscall env sys s = .error e s₁ := by
      rw [executeSyscall_eq, bind_of_error hm]
    rw [← hC]
    constructor
    · intro hd
      exact hd.completed e s₁ hexec
    · intro he
      refine ⟨?_, ?_, fun hn h0 ↦ absurd h0 (hsize hn)⟩
      · intro r s' heq
        rw [hm] at heq
        cases heq
      · intro e' s' herror
        rw [hexec] at herror
        cases herror
        exact he

/-- The result of a supported call reaches the guest exactly if its arguments, the host's answer and
the mode allow it. -/
theorem syscall_delivered_iff (hprv : s.prv ≤ MachineMode)
    (hn : s.syscallNumber ∈ supportedSyscalls) :
    SyscallDelivered env sys s ↔
      SyscallDelivers sys s s.syscallNumber (getValue (s.regs RegFile.a0))
        (getValue (s.regs RegFile.a1)) (env.hostResult s.hostCalls) := by
  by_cases hzero : s.syscallNumber = SYS_sym_mem ∧ getValue (s.regs RegFile.a1) = 0#32
  · obtain ⟨hmem, hsize⟩ := hzero
    refine iff_of_false (fun hd ↦ ?_) ?_
    · have hok := hd.unchanged hmem hsize
      rw [State.syscallResult, hmem, hsize] at hok
      exact (sysSymMem_zero env s _).of_ok rfl hok
    · rw [hmem, hsize]
      intro h
      exact h.1 rfl
  · have hsize : s.syscallNumber = SYS_sym_mem → getValue (s.regs RegFile.a1) ≠ 0#32 :=
      fun hmem hsize ↦ hzero ⟨hmem, hsize⟩
    exact syscallDelivered_iff_of_settledBy (settledBy_dispatchSyscall hprv hn _ hsize) hsize

end Delivery

/-- A core that has called number `n` with two arguments. -/
def callState (n a0 a1 : BitVec 32) : State :=
  ((bootState []).writeReg RegFile.a7 (constant n)).writeReg RegFile.a0 (constant a0)
    |>.writeReg RegFile.a1 (constant a1)

theorem syscall_delivered_brk :
    SyscallDelivered bootEnv ⟨0x1000#64, 0#64, false⟩ (callState 214#32 0x2000#32 0#32) := by
  rw [syscall_delivered_iff (by decide +kernel) (by decide +kernel)]
  have hnumber : (callState 214#32 0x2000#32 0#32).syscallNumber = SYS_brk := by decide +kernel
  rw [hnumber]
  change (if _ then _ else _) < 2 ^ 31
  decide +kernel

/-- A failing `close`, a break in the upper half of the address space, and an empty range. -/
theorem not_syscallDelivered :
    ¬ SyscallDelivered { bootEnv with hostResult := fun _ ↦ -1 } ⟨0#64, 0#64, false⟩
        (callState 57#32 5#32 0#32) ∧
      ¬ SyscallDelivered bootEnv ⟨0#64, 0#64, false⟩ (callState 214#32 0x80000000#32 0#32) ∧
      ¬ SyscallDelivered bootEnv ⟨0#64, 0#64, false⟩ (callState 96#32 0x100#32 0#32) := by
  refine ⟨fun h ↦ ?_, fun h ↦ ?_, fun h ↦ ?_⟩
  · exact h.completed (.host (.assertion .sysResult)) _ (eq_error_of_thrown (by decide +kernel))
      trivial
  · exact h.completed (.host .badLexicalCast) _ (eq_error_of_thrown (by decide +kernel)) trivial
  · have hok := h.unchanged (by decide +kernel) (by decide +kernel)
    have herror := eq_error_of_thrown (e := .host .nullPointer) (m := (callState 96#32 0x100#32
      0#32).syscallResult bootEnv ⟨0#64, 0#64, false⟩) (s := callState 96#32 0x100#32 0#32)
      (by decide +kernel)
    rw [hok] at herror
    cases herror

end CoverageVP.Iss
