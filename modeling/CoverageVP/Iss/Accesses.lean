import CoverageVP.Iss.PageWalk

/-!
# The type that data accesses are translated as

Loads and stores share one translation, that of a store. A load then needs a page that can be
written, faults as a store, and marks the page as dirty.
-/

namespace CoverageVP.Iss

open Lib Clover

/-! ## Loads and stores -/

inductive LoadOp
  | LB | LH | LW | LBU | LHU

inductive StoreOp
  | SB | SH | SW

namespace LoadOp

def run : LoadOp → ConcolicValue → IssM ConcolicValue
  | LB => loadByte
  | LH => loadHalf
  | LW => loadWord
  | LBU => loadUbyte
  | LHU => loadUhalf

def numBytes : LoadOp → Nat
  | LB | LBU => 1
  | LH | LHU => 2
  | LW => 4

def extend (load : LoadOp) (data : ConcolicValue) : ConcolicValue :=
  match load with
  | LB | LH | LW => data.sext 32
  | LBU | LHU => if data.getWidth < 32 then data.zext 32 else data

/-- The translation with which a load starts. -/
def translation (_ : LoadOp) (addr : ConcolicValue) : IssM (BitVec 64) :=
  v2p ((getValue addr).setWidth 64) .STORE

/-- The transaction of a load at a physical address. -/
def transaction (load : LoadOp) (paddr : BitVec 64) : IssM ConcolicValue := do
  let data ← transportRead paddr load.numBytes
  return load.extend data

theorem run_eq (load : LoadOp) (addr : ConcolicValue) :
    load.run addr = load.translation addr >>= load.transaction := by
  cases load <;> exact bind_assoc _ _ _

end LoadOp

namespace StoreOp

def run : StoreOp → ConcolicValue → ConcolicValue → IssM Unit
  | SB => storeByte
  | SH => storeHalf
  | SW => storeWord

def numBytes : StoreOp → Nat
  | SB => 1
  | SH => 2
  | SW => 4

theorem run_eq (store : StoreOp) (addr value : ConcolicValue) :
    store.run addr value = v2p ((getValue addr).setWidth 64) .STORE >>= fun paddr ↦
      transportWrite paddr value store.numBytes := by
  cases store <;> rfl

end StoreOp

/-! ## Translations -/

/-- Accesses of the type are not translated. -/
def State.Untranslated (s : State) (type : MemoryAccessType) : Prop :=
  s.mmu = none ∨ s.csrs.satpMode = 0#1 ∨ s.accessMode type = MachineMode

/-- A page for the address is cached for accesses of the type. -/
def State.CachesPage (s : State) (type : MemoryAccessType) (va : BitVec 32) : Prop :=
  ∃ mmu, s.mmu = some mmu ∧ mmu.Caches (s.accessMode type) type (va.setWidth 64)

/-- The translation that the scheme prescribes for an access in the current mode. -/
def State.prescribed (s : State) (type : MemoryAccessType) (va : BitVec 32) : Sv32.Outcome :=
  s.translation type (s.accessMode type) va

/-- The page tables allow the access. -/
def State.AllowsAccess (s : State) (type : MemoryAccessType) (va : BitVec 32) : Prop :=
  ∃ pa leaf pte, s.prescribed type va = .translated pa leaf pte

/-- The MMU marks pages, and the mode of data accesses is one that there is. -/
structure State.Walkable (s : State) : Prop where
  marks : ∀ mmu, s.mmu = some mmu → mmu.pageFaultOnAD = false
  mode : ∀ type, s.accessMode type ∈ [UserMode, SupervisorMode, MachineMode]

section Translations

variable {s : State}

theorem v2p_of_untranslated {type : MemoryAccessType} (h : s.Untranslated type)
    (vaddr : BitVec 64) : v2p vaddr type s = .ok vaddr s := by
  cases hmmu : s.mmu with
  | none =>
    rw [v2p, Lib.get_bind, hmmu]
    rfl
  | some mmu =>
    rw [v2p_of_mmu hmmu]
    change (if s.csrs.satpMode = 0#1 then _ else if s.accessMode type = MachineMode then _ else _ :
      IssM (BitVec 64)) s = _
    rcases h with h | h | h
    · rw [hmmu] at h
      cases h
    · rw [if_pos h]
      rfl
    · rw [if_pos h]
      split <;> rfl

theorem State.Walkable.translates (hs : s.Walkable) {type : MemoryAccessType}
    (h : ¬ s.Untranslated type) :
    ∃ mmu, s.mmu = some mmu ∧ mmu.pageFaultOnAD = false ∧ s.Translates type := by
  rw [State.Untranslated, not_or, not_or] at h
  obtain ⟨mmu, hmmu⟩ := Option.ne_none_iff_exists'.mp h.1
  have hsatp : s.csrs.satpMode = 1#1 := by
    have hne := h.2.1
    generalize s.csrs.satpMode = mode at hne
    revert mode
    decide
  have hmode := hs.mode type
  rw [List.mem_cons, List.mem_cons, List.mem_singleton] at hmode
  refine ⟨mmu, hmmu, hs.marks mmu hmmu, hsatp, ?_⟩
  rcases hmode with hmode | hmode | hmode
  · rw [hmode]
    exact Nat.zero_le _
  · exact Nat.le_of_eq hmode
  · exact absurd hmode h.2.2

theorem v2p_of_cachesPage (hs : s.Walkable) {type : MemoryAccessType} {va : BitVec 32}
    (h : ¬ s.Untranslated type) (hcached : s.CachesPage type va) :
    ∃ paddr, v2p (va.setWidth 64) type s = .ok paddr s := by
  obtain ⟨mmu, hmmu, -, htranslates⟩ := hs.translates h
  obtain ⟨mmu', hmmu', hcaches⟩ := hcached
  cases hmmu.symm.trans hmmu'
  rw [v2p_of_mmu hmmu, translate_of_translates mmu htranslates, if_pos hcaches]
  exact ⟨_, rfl⟩

/-- Addresses of pages that are not cached are translated as the scheme prescribes. -/
theorem v2p_of_not_cachesPage (hs : s.Walkable) {type : MemoryAccessType} {va : BitVec 32}
    (h : ¬ s.Untranslated type) (hcached : ¬ s.CachesPage type va) :
    match s.prescribed type va with
    | .pageFault =>
      v2p (va.setWidth 64) type s = .error (.trap (pageFault type) (va.setWidth 64)) s
    | .accessFault entry =>
      v2p (va.setWidth 64) type s = .error (.trap .LOAD_PAGE_FAULT (entry.setWidth 64)) s
    | .translated pa leaf _ =>
      ∃ mmu, v2p (va.setWidth 64) type s =
        .ok (pa.setWidth 64) { s with mem := markedLeaf s.mem leaf type, mmu := mmu } := by
  obtain ⟨mmu, hmmu, honAD, htranslates⟩ := hs.translates h
  have hcaches : ¬ mmu.Caches (s.accessMode type) type (va.setWidth 64) :=
    fun h' ↦ hcached ⟨mmu, hmmu, h'⟩
  rw [v2p_of_mmu hmmu, translate_of_translates mmu htranslates, if_neg hcaches, honAD]
  cases houtcome : s.prescribed type va with
  | pageFault =>
    rw [walk_of_pageFault s type htranslates.1 htranslates.2 houtcome]
  | accessFault entry =>
    rw [walk_of_accessFault s type htranslates.1 htranslates.2 houtcome]
  | translated pa leaf pte =>
    rw [walk_of_translated s type htranslates.1 htranslates.2 houtcome]
    exact ⟨_, rfl⟩

end Translations

/-! ## The type of an access -/

/-- A translation treats an address as that of an access of the type: it returns if the page tables
allow such an access, refuses the access with the page fault of the type, and only stores set dirty
bits. -/
structure TranslatedAs (s : State) (type : MemoryAccessType) (va : BitVec 32)
    (m : IssM (BitVec 64)) : Prop where
  returns : returns m s = true ↔ s.Untranslated type ∨ s.AllowsAccess type va
  refused : ¬ s.Untranslated type → s.prescribed type va = .pageFault →
    thrown m s = some (.trap (pageFault type) (va.setWidth 64))
  dirty : type ≠ .STORE → ∀ a, Sv32.Entry.d (wordAt (stateAfter m s).mem a) =
    Sv32.Entry.d (wordAt s.mem a)

/-- Loads are translated as loads, and stores as stores. -/
structure AccessesTranslated (s : State) (addr : ConcolicValue) : Prop where
  loads : ∀ load : LoadOp, load.run addr = load.translation addr >>= load.transaction ∧
    TranslatedAs s .LOAD (getValue addr) (load.translation addr)
  stores : ∀ (store : StoreOp) (value : ConcolicValue),
    store.run addr value = v2p ((getValue addr).setWidth 64) .STORE >>= fun paddr ↦
      transportWrite paddr value store.numBytes

/-- It makes no difference that a load at the address is translated as a store: the address is not
translated, or the page is cached for stores and may be read, or it is not cached, and a page table
cannot be read or the page may be written and is dirty already. -/
def State.LoadsAsStores (s : State) (va : BitVec 32) : Prop :=
  s.Untranslated .LOAD ∨ (s.CachesPage .STORE va ∧ s.AllowsAccess .LOAD va) ∨
    (¬ s.CachesPage .STORE va ∧
      ((∃ entry, s.prescribed .STORE va = .accessFault entry) ∨
        ∃ pa leaf pte, s.prescribed .STORE va = .translated pa leaf pte ∧
          Sv32.Entry.d pte = true))

section AccessType

variable {s : State}

/-- Data accesses are made in the same mode. -/
theorem accessMode_load (s : State) : s.accessMode .LOAD = s.accessMode .STORE := by
  simp [State.accessMode]

theorem untranslated_load : s.Untranslated .LOAD ↔ s.Untranslated .STORE := by
  rw [State.Untranslated, State.Untranslated, accessMode_load]

theorem prescribed_load_of_accessFault {va : BitVec 32} {entry : BitVec 34}
    (h : s.prescribed .STORE va = .accessFault entry) :
    s.prescribed .LOAD va = .accessFault entry := by
  rw [State.prescribed, accessMode_load]
  exact Sv32.walk_of_accessFault h .load

theorem prescribed_store_of_accessFault {va : BitVec 32} {entry : BitVec 34}
    (h : s.prescribed .LOAD va = .accessFault entry) :
    s.prescribed .STORE va = .accessFault entry := by
  rw [State.prescribed, ← accessMode_load]
  exact Sv32.walk_of_accessFault h .store

theorem prescribed_load_of_translated {va : BitVec 32} {pa leaf : BitVec 34} {pte : Sv32.Entry}
    (h : s.prescribed .STORE va = .translated pa leaf pte) :
    s.prescribed .LOAD va = .translated pa leaf pte := by
  rw [State.prescribed, accessMode_load]
  exact Sv32.load_of_store h

theorem wordAt_of_translated {type : MemoryAccessType} {va : BitVec 32} {pa leaf : BitVec 34}
    {pte : Sv32.Entry} (h : s.prescribed type va = .translated pa leaf pte) :
    wordAt s.mem (leaf.setWidth 32) = pte := by
  have hread : s.readEntry leaf = some pte := Sv32.read_of_translated h
  rw [State.readEntry] at hread
  split at hread
  · exact Option.some.inj hread
  · cases hread

/-- The dirty bit of an entry is a bit of its first byte. -/
theorem dirty_wordAt (m : ConcolicMemory) (a : BitVec 32) :
    Sv32.Entry.d (wordAt m a) = (m.concreteByte a).getLsbD 7 := by
  have hbyte := congrArg (·.getLsbD 7) (extract_wordAt m a (show 0 < 4 by decide))
  simpa [Sv32.Entry.d] using hbyte

theorem dirty_markedLeaf (m : ConcolicMemory) (leaf : BitVec 34) (a : BitVec 32) :
    Sv32.Entry.d (wordAt (markedLeaf m leaf .STORE) a) =
      (Sv32.Entry.d (wordAt m a) || decide (a = leaf.setWidth 32)) := by
  rw [dirty_wordAt, dirty_wordAt, concreteByte_markedLeaf, BitVec.getLsbD_or]
  split
  case isTrue h =>
    rw [decide_eq_true h]
    rfl
  case isFalse h =>
    rw [decide_eq_false h]
    rfl

/-- An address that is not translated. -/
theorem translatedAs_of_untranslated {va : BitVec 32} (h : s.Untranslated .LOAD) :
    TranslatedAs s .LOAD va (v2p (va.setWidth 64) .STORE) := by
  have hrun := v2p_of_untranslated (untranslated_load.mp h) (va.setWidth 64)
  refine ⟨?_, fun h' ↦ absurd h h', fun _ a ↦ ?_⟩
  · rw [returns, hrun]
    exact iff_of_true rfl (.inl h)
  · rw [stateAfter, hrun]

/-- A page that is cached for stores. -/
theorem translatedAs_of_cachesPage (hs : s.Walkable) {va : BitVec 32}
    (h : ¬ s.Untranslated .LOAD) (hcached : s.CachesPage .STORE va) :
    TranslatedAs s .LOAD va (v2p (va.setWidth 64) .STORE) ↔ s.AllowsAccess .LOAD va := by
  obtain ⟨paddr, hrun⟩ := v2p_of_cachesPage hs (mt untranslated_load.mpr h) hcached
  have hreturns : returns (v2p (va.setWidth 64) .STORE) s = true := by
    rw [returns, hrun]
  constructor
  · intro htranslated
    exact (htranslated.returns.mp hreturns).resolve_left h
  · intro hallows
    refine ⟨iff_of_true hreturns (.inr hallows), fun _ hfault ↦ ?_, fun _ a ↦ ?_⟩
    · obtain ⟨pa, leaf, pte, htranslated⟩ := hallows
      rw [htranslated] at hfault
      cases hfault
    · rw [stateAfter, hrun]

/-- A page that has to be looked up. -/
theorem translatedAs_of_not_cachesPage (hs : s.Walkable) {va : BitVec 32}
    (h : ¬ s.Untranslated .LOAD) (hcached : ¬ s.CachesPage .STORE va) :
    TranslatedAs s .LOAD va (v2p (va.setWidth 64) .STORE) ↔
      (∃ entry, s.prescribed .STORE va = .accessFault entry) ∨
        ∃ pa leaf pte, s.prescribed .STORE va = .translated pa leaf pte ∧
          Sv32.Entry.d pte = true := by
  have hrun := v2p_of_not_cachesPage hs (mt untranslated_load.mpr h) hcached
  cases houtcome : s.prescribed .STORE va with
  | pageFault =>
    rw [houtcome] at hrun
    refine iff_of_false (fun htranslated ↦ ?_) (by simp)
    have hreturns : ¬ returns (v2p (va.setWidth 64) .STORE) s = true := by
      rw [returns, hrun]
      exact Bool.false_ne_true
    cases hload : s.prescribed .LOAD va with
    | pageFault =>
      have hthrown := htranslated.refused h hload
      rw [thrown, hrun] at hthrown
      cases hthrown
    | accessFault entry =>
      rw [prescribed_store_of_accessFault hload] at houtcome
      cases houtcome
    | translated pa leaf pte =>
      exact hreturns (htranslated.returns.mpr (.inr ⟨pa, leaf, pte, hload⟩))
  | accessFault entry =>
    rw [houtcome] at hrun
    have hload := prescribed_load_of_accessFault houtcome
    refine iff_of_true ⟨?_, fun _ hfault ↦ ?_, fun _ a ↦ ?_⟩ (.inl ⟨entry, rfl⟩)
    · rw [returns, hrun]
      refine iff_of_false Bool.false_ne_true ?_
      rintro (h' | ⟨pa, leaf, pte, h'⟩)
      · exact h h'
      · rw [hload] at h'
        cases h'
    · rw [hload] at hfault
      cases hfault
    · rw [stateAfter, hrun]
  | translated pa leaf pte =>
    rw [houtcome] at hrun
    obtain ⟨mmu, hrun⟩ := hrun
    have hload := prescribed_load_of_translated houtcome
    have hdirty : ∀ a, Sv32.Entry.d (wordAt (stateAfter (v2p (va.setWidth 64) .STORE) s).mem a) =
        (Sv32.Entry.d (wordAt s.mem a) || decide (a = leaf.setWidth 32)) := by
      intro a
      rw [stateAfter, hrun]
      exact dirty_markedLeaf s.mem leaf a
    constructor
    · intro htranslated
      have hleaf := htranslated.dirty (by simp) (leaf.setWidth 32)
      rw [hdirty, decide_eq_true rfl, Bool.or_true, wordAt_of_translated houtcome] at hleaf
      exact .inr ⟨pa, leaf, pte, rfl, hleaf.symm⟩
    · rintro (⟨entry, h'⟩ | ⟨pa', leaf', pte', h', hd⟩)
      · cases h'
      · cases h'
        refine ⟨?_, fun _ hfault ↦ ?_, fun _ a ↦ ?_⟩
        · rw [returns, hrun]
          exact iff_of_true rfl (.inr ⟨pa, leaf, pte, hload⟩)
        · rw [hload] at hfault
          cases hfault
        · rw [hdirty]
          by_cases ha : a = leaf.setWidth 32
          · rw [ha, wordAt_of_translated houtcome, hd, Bool.true_or]
          · rw [decide_eq_false ha, Bool.or_false]

end AccessType

/-- Data accesses are translated as what they are exactly if it makes no difference that loads are
translated as stores. -/
theorem accessesTranslated_iff (s : State) (hs : s.Walkable) (addr : ConcolicValue) :
    AccessesTranslated s addr ↔ s.LoadsAsStores (getValue addr) := by
  have hload : AccessesTranslated s addr ↔
      TranslatedAs s .LOAD (getValue addr) (v2p ((getValue addr).setWidth 64) .STORE) :=
    ⟨fun h ↦ (h.loads .LB).2, fun h ↦ ⟨fun load ↦ ⟨load.run_eq addr, h⟩,
      fun store value ↦ store.run_eq addr value⟩⟩
  rw [hload, State.LoadsAsStores]
  by_cases huntranslated : s.Untranslated .LOAD
  · exact iff_of_true (translatedAs_of_untranslated huntranslated) (.inl huntranslated)
  · by_cases hcached : s.CachesPage .STORE (getValue addr)
    · rw [translatedAs_of_cachesPage hs huntranslated hcached]
      simp [huntranslated, hcached]
    · rw [translatedAs_of_not_cachesPage hs huntranslated hcached]
      simp [huntranslated, hcached]

theorem userPageState_walkable : userPageState.Walkable where
  marks := by
    intro mmu hmmu
    cases hmmu
    rfl
  mode := by
    intro type
    cases type <;> decide +kernel

/-- A page that may be written and is dirty. -/
theorem accessesTranslated_userPage :
    userPageState.Walkable ∧ AccessesTranslated userPageState (constant 4#32) := by
  refine ⟨userPageState_walkable, (accessesTranslated_iff userPageState
    userPageState_walkable (constant 4#32)).mpr (.inr (.inr ⟨?_, .inr ?_⟩))⟩
  · rintro ⟨mmu, hmmu, hcaches⟩
    cases hmmu
    exact Mmu.not_caches_flush _ _ _ _ hcaches
  · exact ⟨4#34, 0#34, 0xd7#32, by decide +kernel, by decide⟩

/-- The same with a page that can be read only. -/
def readOnlyPageState : State := { userPageState with mem := bootMemory [0x53#8] }

/-- A load from a page that can be read is refused with the page fault of a store. -/
theorem readOnlyPage_load_refused :
    readOnlyPageState.prescribed .LOAD 4#32 = .translated 4#34 0#34 0x53#32 ∧
      thrown (LoadOp.LW.run (constant 4#32)) readOnlyPageState =
        some (.trap .STORE_AMO_PAGE_FAULT 4#64) ∧
      ¬ AccessesTranslated readOnlyPageState (constant 4#32) := by
  have hallows : readOnlyPageState.prescribed .LOAD 4#32 = .translated 4#34 0#34 0x53#32 := by
    decide +kernel
  refine ⟨hallows, by decide +kernel, fun h ↦ ?_⟩
  have hreturns : returns (v2p 4#64 .STORE) readOnlyPageState = true :=
    (h.loads .LW).2.returns.mpr (.inr ⟨_, _, _, hallows⟩)
  exact absurd hreturns (by decide +kernel)

end CoverageVP.Iss
