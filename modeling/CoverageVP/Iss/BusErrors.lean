import CoverageVP.Iss.Fetches
import CoverageVP.Iss.Reachable

/-!
# Reports of bus errors

A transaction that the bus answers with an error raises a trap. The transaction knows its command
and its physical address, but not the access that it is a part of, so that the trap describes the
access only where these happen to agree.
-/

namespace CoverageVP.Iss

open Lib Clover Instr

/-! ## Accesses -/

/-- The accesses of the core. -/
inductive CoreAccess
  | fetch (pc : BitVec 32)
  | load (addr : ConcolicValue) (numBytes : Nat)
  | store (addr data : ConcolicValue) (numBytes : Nat)

namespace CoreAccess

def run : CoreAccess → IssM Unit
  | fetch pc => do
    let _ ← loadInstr pc
  | load addr numBytes => do
    let _ ← symbolicLoadData addr numBytes
  | store addr data numBytes => symbolicStoreData addr (some data) numBytes

def vaddr : CoreAccess → BitVec 32
  | fetch pc => pc
  | load addr _ => getValue addr
  | store addr _ _ => getValue addr

def numBytes : CoreAccess → Nat
  | fetch _ => 4
  | load _ numBytes => numBytes
  | store _ _ numBytes => numBytes

/-- What the access is. -/
def type : CoreAccess → MemoryAccessType
  | fetch _ => .FETCH
  | load _ _ => .LOAD
  | store _ _ _ => .STORE

/-- The type that the address of the access is translated as. -/
def translatedAs : CoreAccess → MemoryAccessType
  | fetch _ => .FETCH
  | load _ _ => .STORE
  | store _ _ _ => .STORE

/-- The fault of the command of the transaction. -/
def busFault : CoreAccess → ExceptionCode
  | fetch _ => .LOAD_PAGE_FAULT
  | load _ _ => .LOAD_PAGE_FAULT
  | store _ _ _ => .STORE_AMO_PAGE_FAULT

end CoreAccess

/-- The faults of an access. -/
def IsFaultOf : MemoryAccessType → ExceptionCode → Prop
  | .FETCH, reason => reason = .INSTR_ACCESS_FAULT ∨ reason = .INSTR_PAGE_FAULT
  | .LOAD, reason => reason = .LOAD_ACCESS_FAULT ∨ reason = .LOAD_PAGE_FAULT
  | .STORE, reason => reason = .STORE_AMO_ACCESS_FAULT ∨ reason = .STORE_AMO_PAGE_FAULT

/-- The transactions of an access: reads of page table entries, and the access itself. -/
inductive Stage
  | pageTable
  | transaction
  deriving DecidableEq

/-- A transaction of the access at a physical address is answered with an error. -/
def BusError (s : State) (access : CoreAccess) : Stage → BitVec 64 → Prop
  | .pageTable, paddr =>
    ¬ s.Untranslated access.translatedAs ∧ ¬ s.CachesPage access.translatedAs access.vaddr ∧
      ∃ entry, s.prescribed access.translatedAs access.vaddr = .accessFault entry ∧
        paddr = entry.setWidth 64
  | .transaction, paddr =>
    ∃ s', v2p (access.vaddr.setWidth 64) access.translatedAs s = .ok paddr s' ∧
      s'.memSize < paddr.toNat + access.numBytes

/-- The trap of an access names the access and its address, and can be taken. -/
def ReportsAccess (s : State) (access : CoreAccess) : Prop :=
  ∃ reason mtval, thrown access.run s = some (.trap reason mtval) ∧
    IsFaultOf access.type reason ∧ mtval = access.vaddr.setWidth 64 ∧
    ∃ mode s', prepareTrap reason mtval (stateAfter access.run s) = .ok mode s' ∧
      s'.csrs (CsrTable.tvalReg mode) = access.vaddr

/-! ## Traps of failed transactions -/

theorem raiseTrapIf_of_true {condition : Prop} [Decidable condition] (h : condition) {s : State}
    {reason : ExceptionCode} {mtval : BitVec 64} :
    raiseTrapIf condition reason mtval s = .error (.trap reason mtval) s := by
  rw [raiseTrapIf, if_pos h]
  rfl

theorem transportRead_of_lt {s : State} {addr : BitVec 64} {numBytes : Nat}
    (h : s.memSize < addr.toNat + numBytes) :
    transportRead addr numBytes s = .error (.trap .LOAD_PAGE_FAULT addr) s :=
  (bind_of_ok rfl _).trans (bind_of_error (raiseTrapIf_of_true h) _)

theorem transportWrite_of_lt {s : State} {addr : BitVec 64} (data : ConcolicValue) {numBytes : Nat}
    (h : s.memSize < addr.toNat + numBytes) :
    transportWrite addr data numBytes s = .error (.trap .STORE_AMO_PAGE_FAULT addr) s :=
  (bind_of_ok rfl _).trans (bind_of_error (raiseTrapIf_of_true h) _)

/-- An access throws what its translation throws. -/
theorem run_of_v2p_error {s s' : State} (access : CoreAccess) {e : Thrown}
    (h : v2p (access.vaddr.setWidth 64) access.translatedAs s = .error e s') :
    access.run s = .error e s' := by
  cases access with
  | fetch pc => exact bind_of_error (bind_of_error h _) _
  | load addr numBytes => exact bind_of_error (bind_of_error h _) _
  | store addr data numBytes => exact bind_of_error h _

/-- A transaction that fails raises the fault of its command with the physical address. -/
theorem run_of_transaction_error {s s' : State} (access : CoreAccess) {paddr : BitVec 64}
    (h : v2p (access.vaddr.setWidth 64) access.translatedAs s = .ok paddr s')
    (hsize : s'.memSize < paddr.toNat + access.numBytes) :
    access.run s = .error (.trap access.busFault paddr) s' := by
  cases access with
  | fetch pc =>
    have hload : loadInstr pc s = .error (.trap .LOAD_PAGE_FAULT paddr) s' :=
      (loadInstr_of_v2p h).trans (if_neg (Nat.not_le.mpr hsize))
    exact bind_of_error hload _
  | load addr numBytes =>
    have hload : symbolicLoadData addr numBytes s = .error (.trap .LOAD_PAGE_FAULT paddr) s' :=
      (bind_of_ok h _).trans (transportRead_of_lt hsize)
    exact bind_of_error hload _
  | store addr data numBytes => exact (bind_of_ok h _).trans (transportWrite_of_lt data hsize)

/-- The fault of a failed transaction. -/
def CoreAccess.errorFault (access : CoreAccess) : Stage → ExceptionCode
  | .pageTable => .LOAD_PAGE_FAULT
  | .transaction => access.busFault

/-- Failed transactions leave the mode and the registers alone. -/
theorem v2p_frame (s : State) (vaddr : BitVec 64) (type : MemoryAccessType) :
    Triple (· = s) (v2p vaddr type) (fun _ s' ↦ s'.prv = s.prv ∧ s'.csrs = s.csrs)
      fun _ s' ↦ s'.prv = s.prv ∧ s'.csrs = s.csrs := by
  have hkeeps : Keeps (fun s' : State ↦ s'.prv = s.prv ∧ s'.csrs = s.csrs) (v2p vaddr type) :=
    keeps_v2p (IgnoresMemory.keptByMarks ⟨fun _ _ h ↦ h, fun _ _ h ↦ h⟩) vaddr type
  exact Triple.pre hkeeps fun s' h ↦ h ▸ ⟨rfl, rfl⟩

/-- A bus error raises a trap with the physical address. -/
theorem run_of_busError {s : State} (hs : s.Walkable) {access : CoreAccess} {stage : Stage}
    {paddr : BitVec 64} (h : BusError s access stage paddr) :
    ∃ s', access.run s = .error (.trap (access.errorFault stage) paddr) s' ∧ s'.prv = s.prv := by
  cases stage with
  | pageTable =>
    obtain ⟨htranslated, hcached, entry, hentry, rfl⟩ := h
    have hrun := v2p_of_not_cachesPage hs htranslated hcached
    rw [hentry] at hrun
    exact ⟨s, run_of_v2p_error access hrun, rfl⟩
  | transaction =>
    obtain ⟨s', hrun, hsize⟩ := h
    exact ⟨s', run_of_transaction_error access hrun hsize,
      ((v2p_frame s _ _).of_ok rfl hrun).1⟩

/-! ## Reports -/

/-- A trap with an address of 32 bits can be taken. -/
theorem prepareTrap_of_lt {s : State} (hprv : IsMode s.prv) (reason : ExceptionCode)
    (va : BitVec 32) :
    ∃ mode s', prepareTrap reason (va.setWidth 64) s = .ok mode s' ∧
      s'.csrs (CsrTable.tvalReg mode) = va := by
  have htarget : s.csrs.trapTarget s.prv reason = UserMode → s.prv = UserMode := by
    intro h
    rcases hprv with hprv | hprv | hprv
    · rw [CsrTable.trapTarget, if_pos (.inl hprv)] at h
      exact absurd h (by decide)
    · rw [CsrTable.trapTarget] at h
      split at h
      · exact absurd h (by decide)
      · rw [if_pos (.inl hprv)] at h
        exact absurd h (by decide)
    · exact hprv
  have hlt : ¬ 2 ^ 32 ≤ (va.setWidth 64).toNat := by
    have hva := va.isLt
    rw [BitVec.toNat_setWidth]
    omega
  have hprepare : Triple (· = s) (prepareTrap reason (va.setWidth 64))
      (fun mode s' ↦ s'.csrs (CsrTable.tvalReg mode) = va) fun _ _ ↦ False := by
    refine Triple.bind (Q := fun _ s' ↦ s' = { s with pc := s.lastPc })
      (Triple.update fun s' h ↦ by rw [h]) fun _ ↦ Triple.read_bind fun s' h ↦ ?_
    rw [h]
    refine Triple.bind (Q := fun _ _ ↦ True) (triple_ensure (fun _ _ _ ↦ trivial)
      fun _ _ hfalse ↦ hfalse htarget) fun _ ↦ ?_
    refine Triple.bind (Q := fun _ s'' ↦
      s''.csrs (CsrTable.tvalReg (s.csrs.trapTarget s.prv reason)) = va) ?_ fun _ ↦
        Triple.ret fun _ h' ↦ h'
    refine Triple.bind (Triple.update (Q := fun _ _ ↦ True) fun _ _ ↦ trivial) fun _ ↦ ?_
    rw [if_neg hlt]
    refine Triple.update fun s'' _ ↦ ?_
    rw [BitVec.setWidth_setWidth_of_le _ (by decide), BitVec.setWidth_eq]
    exact CsrTable.set_self _ _ _
  exact hprepare.exists_ok rfl

/-- The address of a failed access is that of the failed transaction, and the command of the
transaction is that of the access. -/
structure AgreesWithTransaction (access : CoreAccess) (stage : Stage) (paddr : BitVec 64) : Prop where
  type : access.type ≠ .FETCH
  store : access.type = .STORE → stage = .transaction
  address : paddr = access.vaddr.setWidth 64

/-- A bus error is reported against the access exactly if the transaction that fails agrees with
it. -/
theorem reportsAccess_iff (s : State) (hs : s.Walkable) (access : CoreAccess) (stage : Stage)
    (paddr : BitVec 64) (h : BusError s access stage paddr) :
    ReportsAccess s access ↔ AgreesWithTransaction access stage paddr := by
  obtain ⟨s', hrun, hprv⟩ := run_of_busError hs h
  have hthrown : thrown access.run s = some (.trap (access.errorFault stage) paddr) := by
    rw [thrown, hrun]
  have hafter : stateAfter access.run s = s' := by
    rw [stateAfter, hrun]
  have hmode : IsMode s'.prv := by
    have hfetch := hs.mode .FETCH
    rw [List.mem_cons, List.mem_cons, List.mem_singleton] at hfetch
    rw [hprv]
    rcases hfetch with hfetch | hfetch | hfetch
    · exact .inr (.inr hfetch)
    · exact .inr (.inl hfetch)
    · exact .inl hfetch
  have hkind : IsFaultOf access.type (access.errorFault stage) ↔
      access.type ≠ .FETCH ∧ (access.type = .STORE → stage = .transaction) := by
    cases access <;> cases stage <;>
      simp [IsFaultOf, CoreAccess.type, CoreAccess.errorFault, CoreAccess.busFault]
  constructor
  · rintro ⟨reason, mtval, hreason, hfault, hmtval, -⟩
    rw [hthrown] at hreason
    cases hreason
    exact ⟨(hkind.mp hfault).1, (hkind.mp hfault).2, hmtval⟩
  · rintro ⟨htype, hstore, hpaddr⟩
    refine ⟨_, _, hthrown, hkind.mpr ⟨htype, hstore⟩, hpaddr, ?_⟩
    rw [hafter, hpaddr]
    exact prepareTrap_of_lt hmode _ _

theorem bootState_walkable : (bootState []).Walkable where
  marks := nofun
  mode := by
    intro type
    cases type <;> decide +kernel

/-- A load beyond the end of the memory whose address is not translated. -/
theorem reportsAccess_load_beyond_memory :
    BusError (bootState []) (.load (constant 4096#32) 4) .transaction 4096#64 ∧
      ReportsAccess (bootState []) (.load (constant 4096#32) 4) := by
  have herror : BusError (bootState []) (.load (constant 4096#32) 4) .transaction 4096#64 :=
    ⟨bootState [], rfl, by decide +kernel⟩
  exact ⟨herror, (reportsAccess_iff (bootState []) bootState_walkable _ _ _ herror).mpr
    ⟨by decide, nofun, rfl⟩⟩

/-- A page at the physical address of four gigabytes. -/
def highPageState : State :=
  { userPageState with mem := bootMemory [0xd7#8, 0x00#8, 0x00#8, 0x40#8] }

/-- A fetch beyond the end of the memory raises the fault of a load, and the trap of a load from a
high page cannot be taken. -/
theorem not_reportsAccess_fetch_beyond_memory :
    (BusError (bootState []) (.fetch 4096#32) .transaction 4096#64 ∧
      thrown (CoreAccess.fetch 4096#32).run (bootState []) =
        some (.trap .LOAD_PAGE_FAULT 4096#64) ∧
      ¬ ReportsAccess (bootState []) (.fetch 4096#32)) ∧
    (thrown (CoreAccess.load (constant 4#32) 4).run highPageState =
        some (.trap .LOAD_PAGE_FAULT 0x100000004#64) ∧
      thrown (prepareTrap .LOAD_PAGE_FAULT 0x100000004#64)
        (stateAfter (CoreAccess.load (constant 4#32) 4).run highPageState) =
          some (.host .badLexicalCast)) := by
  have hthrown : thrown (CoreAccess.fetch 4096#32).run (bootState []) =
      some (.trap .LOAD_PAGE_FAULT 4096#64) := by
    decide +kernel
  refine ⟨⟨⟨bootState [], rfl, by decide +kernel⟩, hthrown, ?_⟩, by decide +kernel,
    by decide +kernel⟩
  rintro ⟨reason, mtval, hreason, hfault, -⟩
  rw [hthrown] at hreason
  cases hreason
  rcases hfault with hfault | hfault <;> cases hfault

end CoverageVP.Iss
