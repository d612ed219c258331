import CoverageVP.Iss.Control

/-!
# Cached translations

The MMU remembers the pages it has found, for each mode and type of access. A walk depends on the
page tables, on the root that `satp` points to, and on the bits of `mstatus` that grant rights; none
of these is part of the key. So long as they do not change under a cached page, and pages lie below
four gigabytes, a remembered page is the page that a walk would find.
-/

namespace CoverageVP.Iss

open Lib Clover

/-! ## The page that a walk finds -/

/-- What an access is allowed by the mode and by `mstatus`. -/
structure Rights where
  supervisor : Bool
  sum : Bool
  mxr : Bool

/-- The address of the entry of a level for a page number. -/
def pteAddress (base vpn : BitVec 64) (level : Nat) : BitVec 64 :=
  base + ((vpn >>> (level * 10)) &&& 1023#64) * 4#64

/-- The page that a leaf entry maps a page number to. -/
def leafPage (pte : Pte) (vpn : BitVec 64) (ptshift : Nat) : BitVec 64 :=
  ((pte.ppn &&& ~~~((1#64 <<< ptshift) - 1#64)) ||| (vpn &&& ((1#64 <<< ptshift) - 1#64))) <<<
    PGSHIFT

/-- The page that the levels of the page table below the given one map a page number to. -/
def findPage (m : ConcolicMemory) (size : Nat) (vpn : BitVec 64) (type : MemoryAccessType)
    (rights : Rights) (onAD : Bool) : Nat → BitVec 64 → Except Thrown (Option (BitVec 64))
  | 0, _ => .ok none
  | level + 1, base =>
    let paddr := pteAddress base vpn level
    let pte := entryAt m paddr
    if size < paddr.toNat + 4 then .error (.trap .LOAD_PAGE_FAULT paddr)
    else if !pte.V || (!pte.R && pte.W) then .ok none
    else if !pte.R && !pte.X then
      findPage m size vpn type rights onAD level (pte.ppn <<< PGSHIFT)
    else if leafFault pte type rights.supervisor rights.sum rights.mxr then .ok none
    else if pte.ppn &&& ((1#64 <<< (level * 10)) - 1#64) ≠ 0#64 then .ok none
    else if onAD = true ∧ pte.value &&& adBits type ≠ adBits type then .ok none
    else .ok (some (leafPage pte vpn (level * 10)))

theorem ptePaddr_eq_pteAddress (root vaddr base : BitVec 64) (level : Nat) :
    ptePaddr (sv32 root) vaddr base level = pteAddress base (vaddr >>> PGSHIFT) level := by
  have hmask : (1#64 <<< 10) - 1#64 = 1023#64 := by decide
  rw [ptePaddr, pteAddress, BitVec.shiftRight_add, ← hmask]
  rfl

/-- The upper bits of an address are not checked by this architecture. -/
theorem checkVaddrExtension_sv32 (vaddr root : BitVec 64) :
    checkVaddrExtension vaddr (sv32 root) = true := by
  have hbit : ∀ x : BitVec 64, x &&& 1#64 = 0#64 ∨ x &&& 1#64 = 1#64 := by
    intro x
    rw [BitVec.and_one_eq_setWidth_ofBool_getLsbD]
    cases x.getLsbD 0
    · exact .inl rfl
    · exact .inr rfl
  have hsplit := hbit (vaddr >>> 31)
  have hmask : (1#64 <<< (32 - 31)) - 1#64 = 1#64 := by decide
  change (decide (vaddr >>> 31 &&& ((1#64 <<< (32 - 31)) - 1#64) = 0#64) ||
    decide (vaddr >>> 31 &&& ((1#64 <<< (32 - 31)) - 1#64) = (1#64 <<< (32 - 31)) - 1#64)) = true
  rw [hmask]
  simpa using hsplit

/-- The memories differ in accessed and dirty bits only, if the MMU sets these at all. -/
structure MarkedFrom (onAD : Bool) (m m' : ConcolicMemory) : Prop where
  same : onAD = true → m' = m
  bits : ∀ word : BitVec 32, word.toNat % 4 = 0 → ∀ j, j < 6 ∨ 8 ≤ j →
    (wordAt m' word).getLsbD j = (wordAt m word).getLsbD j

theorem MarkedFrom.refl (onAD : Bool) (m : ConcolicMemory) : MarkedFrom onAD m m :=
  ⟨fun _ ↦ rfl, fun _ _ _ _ ↦ rfl⟩

theorem markedFrom_markEntry (m : ConcolicMemory) {paddr : BitVec 64} (hpaddr : paddr.toNat % 4 = 0)
    (type : MemoryAccessType) : MarkedFrom false m (markEntry m paddr type) where
  same := nofun
  bits := by
    intro word hword j hj
    have haligned : ∀ paddr', paddr' = paddr → (paddr'.setWidth 32).toNat % 4 = 0 := by
      rintro _ rfl
      exact setWidth_aligned hpaddr
    have heq : EqUpToMarks (· = paddr) m (markEntry m paddr type) :=
      (EqUpToMarks.refl m).mark haligned rfl type
    exact heq.getLsbD_wordAt haligned hword hj

theorem MarkedFrom.entryAt {onAD : Bool} {m m' : ConcolicMemory} (h : MarkedFrom onAD m m')
    {paddr : BitVec 64} (hpaddr : (paddr.setWidth 32).toNat % 4 = 0) {j : Nat}
    (hj : j < 6 ∨ 8 ≤ j) :
    (entryAt m' paddr).value.getLsbD j = (entryAt m paddr).value.getLsbD j := by
  rw [Iss.entryAt, Iss.entryAt, BitVec.getLsbD_setWidth, BitVec.getLsbD_setWidth,
    h.bits _ hpaddr j hj]

theorem MarkedFrom.ppn {onAD : Bool} {m m' : ConcolicMemory} (h : MarkedFrom onAD m m')
    {paddr : BitVec 64} (hpaddr : (paddr.setWidth 32).toNat % 4 = 0) :
    (Iss.entryAt m' paddr).ppn = (Iss.entryAt m paddr).ppn := by
  apply BitVec.eq_of_getLsbD_eq
  intro i _
  rw [Pte.ppn, Pte.ppn, BitVec.getLsbD_ushiftRight, BitVec.getLsbD_ushiftRight,
    h.entryAt hpaddr (by rw [PTE_PPN_SHIFT]; omega)]

theorem pteAddress_aligned {base : BitVec 64} (hbase : base.toNat % 4 = 0) (vpn : BitVec 64)
    (level : Nat) : (pteAddress base vpn level).toNat % 4 = 0 := by
  rw [pteAddress, BitVec.toNat_add, BitVec.toNat_mul]
  change (base.toNat + ((vpn >>> (level * 10)) &&& 1023#64).toNat * 4 % 2 ^ 64) % 2 ^ 64 % 4 = 0
  omega

/-- Marks do not change which page is found. -/
theorem findPage_of_markedFrom {onAD : Bool} {m m' : ConcolicMemory} (h : MarkedFrom onAD m m')
    (size : Nat) (vpn : BitVec 64) (type : MemoryAccessType) (rights : Rights) (level : Nat)
    {base : BitVec 64} (hbase : base.toNat % 4 = 0) :
    findPage m' size vpn type rights onAD level base =
      findPage m size vpn type rights onAD level base := by
  cases onAD with
  | true => rw [h.same rfl]
  | false =>
    induction level generalizing base with
    | zero => rfl
    | succ level ih =>
      have haligned := setWidth_aligned (pteAddress_aligned hbase vpn level)
      have hbit : ∀ {j : Nat}, j < 6 ∨ 8 ≤ j →
          (entryAt m' (pteAddress base vpn level)).value.getLsbD j =
            (entryAt m (pteAddress base vpn level)).value.getLsbD j := h.entryAt haligned
      simp only [findPage, leafFault, leafPage, Pte.V, Pte.R, Pte.W, Pte.X, Pte.U,
        hbit (show 0 < 6 ∨ 8 ≤ 0 by decide), hbit (show 1 < 6 ∨ 8 ≤ 1 by decide),
        hbit (show 2 < 6 ∨ 8 ≤ 2 by decide), hbit (show 3 < 6 ∨ 8 ≤ 3 by decide),
        hbit (show 4 < 6 ∨ 8 ≤ 4 by decide), h.ppn haligned, ih (page_aligned _),
        Bool.false_eq_true, false_and]
      rfl

/-! ## Walks -/

/-- The states differ in marks only. -/
def MarkedState (onAD : Bool) (s s' : State) : Prop :=
  ∃ m, s' = { s with mem := m } ∧ MarkedFrom onAD s.mem m

theorem MarkedState.refl (onAD : Bool) (s : State) : MarkedState onAD s s :=
  ⟨s.mem, rfl, .refl onAD s.mem⟩

theorem triple_markLeaf_marked (s : State) {paddr : BitVec 64} (hpaddr : paddr.toNat % 4 = 0)
    (hrange : ¬ s.memSize < paddr.toNat + 4) (type : MemoryAccessType) (onAD : Bool) :
    Triple (· = s) (markLeaf paddr (entryAt s.mem paddr) type onAD)
      (fun marked s' ↦ MarkedState onAD s s' ∧ (marked = true ↔ ¬ (onAD = true ∧
        (entryAt s.mem paddr).value &&& adBits type ≠ adBits type)))
      fun _ _ ↦ False := by
  refine Triple.ite (fun hset ↦ Triple.ret fun s' h ↦ ?_) fun hset ↦ Triple.ite
    (fun hon ↦ Triple.ret fun s' h ↦ ?_) fun hon ↦ ?_
  · rw [h]
    exact ⟨.refl onAD s, iff_of_true rfl fun hnot ↦ hnot.2 hset⟩
  · rw [h]
    exact ⟨.refl onAD s, iff_of_false Bool.false_ne_true fun hnot ↦ hnot ⟨hon, hset⟩⟩
  · rw [concreteStoreData_eq]
    refine Triple.bind (Q := fun _ s' ↦ s' = { s with mem := markEntry s.mem paddr type })
      ((triple_transportWrite s paddr _ 4).conseq (fun _ h ↦ h) (fun _ _ h ↦ h.2)
        fun _ _ h ↦ hrange h.2.1) fun _ ↦ Triple.ret fun s' h ↦ ?_
    rw [h]
    obtain rfl : onAD = false := Bool.eq_false_iff.mpr hon
    refine ⟨⟨_, rfl, markedFrom_markEntry s.mem hpaddr type⟩, iff_of_true rfl fun hnot ↦ ?_⟩
    exact hon hnot.1

/-- The levels of the page table, as a function of the memory. -/
theorem triple_walkLevels_findPage (root vaddr : BitVec 64) (type : MemoryAccessType)
    (rights : Rights) (onAD : Bool) (s : State) (level : Nat) {base : BitVec 64}
    (hbase : base.toNat % 4 = 0) :
    Triple (· = s)
      (walkLevels (sv32 root) vaddr type rights.supervisor rights.sum rights.mxr onAD level base)
      (fun paddr s' ↦ MarkedState onAD s s' ∧ ∃ page,
        findPage s.mem s.memSize (vaddr >>> PGSHIFT) type rights onAD level base = .ok page ∧
          paddr = page.map (· ||| (vaddr &&& 0xfff#64)))
      (fun e s' ↦ s' = s ∧
        findPage s.mem s.memSize (vaddr >>> PGSHIFT) type rights onAD level base = .error e) := by
  induction level generalizing base with
  | zero => exact Triple.ret fun s' h ↦ ⟨h ▸ .refl onAD s, none, rfl, rfl⟩
  | succ level ih =>
    have haligned := pteAddress_aligned hbase (vaddr >>> PGSHIFT) level
    rw [walkLevels, ptePaddr_eq_pteAddress]
    unfold findPage
    dsimp only
    set paddr := pteAddress base (vaddr >>> PGSHIFT) level with hpaddr
    refine Triple.bind ((triple_mmuLoadPte32 s paddr).conseq (fun _ h ↦ h) (fun _ _ h ↦ h)
      fun e s' h ↦ ?_) fun pte ↦ Triple.of_start fun s' h ↦ ?_
    · rw [if_pos h.2.1, h.2.2]
      exact ⟨h.1, rfl⟩
    obtain ⟨rfl, rfl, hrange⟩ := h
    rw [if_neg (Nat.not_lt.mpr hrange)]
    have hstop : Triple (· = s') (pure none : IssM (Option (BitVec 64)))
        (fun paddr s'' ↦ MarkedState onAD s' s'' ∧ ∃ page,
          (.ok none : Except Thrown (Option (BitVec 64))) = .ok page ∧
            paddr = page.map (· ||| (vaddr &&& 0xfff#64)))
        (fun e s'' ↦ s'' = s' ∧ (.ok none : Except Thrown (Option (BitVec 64))) = .error e) :=
      Triple.ret fun s'' h ↦ ⟨h ▸ .refl onAD s', none, rfl, rfl⟩
    have hidx : (sv32 root).idxbits = 10 := rfl
    simp only [hidx]
    split
    · exact hstop
    split
    · exact ih (page_aligned _)
    split
    · exact hstop
    split
    · exact hstop
    refine Triple.bind ((triple_markLeaf_marked s' haligned (Nat.not_lt.mpr hrange) type
      onAD).conseq (fun _ h ↦ h) (fun _ _ h ↦ h) fun _ _ h ↦ h.elim) fun marked ↦ ?_
    refine Triple.ite (fun hmarked ↦ Triple.ret fun s'' h ↦ ?_) fun hmarked ↦
      Triple.ret fun s'' h ↦ ?_
    · rw [if_neg (h.2.mp hmarked)]
      exact ⟨h.1, _, rfl, rfl⟩
    · rw [if_pos (not_not.mp fun hnot ↦ hmarked (h.2.mpr hnot))]
      exact ⟨h.1, _, rfl, rfl⟩

/-- The rights of an access in a mode. -/
def CsrTable.rights (csrs : CsrTable) (mode : Nat) : Rights where
  supervisor := mode = SupervisorMode
  sum := csrs.mstatusSum = 1#1
  mxr := csrs.mstatusMxr = 1#1

/-- The page that a walk finds. -/
def State.pageOf (s : State) (onAD : Bool) (vpn : BitVec 64) (type : MemoryAccessType)
    (mode : Nat) : Except Thrown (Option (BitVec 64)) :=
  findPage s.mem s.memSize vpn type (s.csrs.rights mode) onAD 2 s.pageTable

/-- The answer of a walk that found a page or none. -/
def walkAnswer (vaddr : BitVec 64) (type : MemoryAccessType) :
    Except Thrown (Option (BitVec 64)) → Except Thrown (BitVec 64)
  | .ok (some page) => .ok (page ||| (vaddr &&& 0xfff#64))
  | .ok none => .error (.trap (pageFault type) vaddr)
  | .error e => .error e

/-- The levels of the page table determine a walk. -/
theorem triple_walk_of_levels {s : State} (hsatp : s.csrs.satpMode = 1#1) {onAD : Bool}
    {vaddr : BitVec 64} {type : MemoryAccessType} {mode : Nat} (hmode : mode ≤ SupervisorMode)
    {R : Option (BitVec 64) → State → Prop} {F : Thrown → State → Prop}
    (hlevels : Triple (· = s)
      (walkLevels (sv32 s.pageTable) vaddr type (s.csrs.rights mode).supervisor
        (s.csrs.rights mode).sum (s.csrs.rights mode).mxr onAD 2 s.pageTable) R F) :
    Triple (· = s) (walk onAD vaddr type mode) (fun paddr ↦ R (some paddr))
      (fun e s' ↦ F e s' ∨ R none s' ∧ e = .trap (pageFault type) vaddr) := by
  refine Triple.read_bind fun s' hs' ↦ ?_
  rw [hs']
  refine Triple.bind ((triple_decodeVmInfo s mode).conseq (fun _ h ↦ h) (fun _ _ h ↦ h)
    fun e s' h ↦ ?_) fun vm ↦ Triple.of_start fun s' h ↦ ?_
  · rcases h.2 with h' | h'
    · exact absurd hmode (Nat.not_le.mpr h'.1)
    · exact absurd hsatp h'
  obtain ⟨rfl, rfl⟩ := h
  rw [checkVaddrExtension_sv32]
  refine Triple.bind (hlevels.conseq (fun _ h ↦ h) (fun _ _ h ↦ h) fun _ _ h ↦ .inl h)
    fun paddr ↦ ?_
  cases paddr with
  | some paddr => exact Triple.ret fun _ h ↦ h
  | none => exact Triple.raise fun _ h ↦ .inr ⟨h, rfl⟩

theorem triple_walk (s : State) (hsatp : s.csrs.satpMode = 1#1) (onAD : Bool) (vaddr : BitVec 64)
    (type : MemoryAccessType) {mode : Nat} (hmode : mode ≤ SupervisorMode) :
    Triple (· = s) (walk onAD vaddr type mode)
      (fun paddr s' ↦ MarkedState onAD s s' ∧ ∃ page,
        s.pageOf onAD (vaddr >>> PGSHIFT) type mode = .ok (some page) ∧
          paddr = page ||| (vaddr &&& 0xfff#64))
      (fun e s' ↦ MarkedState onAD s s' ∧
        walkAnswer vaddr type (s.pageOf onAD (vaddr >>> PGSHIFT) type mode) = .error e) := by
  have hlevels := triple_walkLevels_findPage s.pageTable vaddr type (s.csrs.rights mode) onAD s 2
    s.pageTable_aligned
  refine (triple_walk_of_levels hsatp hmode hlevels).conseq (fun _ h ↦ h) (fun paddr s' h ↦ ?_)
    fun e s' h ↦ ?_
  · obtain ⟨hmarked, page, hpage, hpaddr⟩ := h
    cases page with
    | some page => exact ⟨hmarked, page, hpage, Option.some.inj hpaddr⟩
    | none => cases hpaddr
  · rcases h with ⟨hs', herror⟩ | ⟨⟨hmarked, page, hpage, hpaddr⟩, rfl⟩
    · refine ⟨hs' ▸ .refl onAD s, ?_⟩
      rw [State.pageOf, herror]
      rfl
    · obtain rfl := Option.map_eq_none_iff.mp hpaddr.symm
      refine ⟨hmarked, ?_⟩
      rw [State.pageOf, hpage]
      rfl

theorem answer_walk (s : State) (hsatp : s.csrs.satpMode = 1#1) (onAD : Bool) (vaddr : BitVec 64)
    (type : MemoryAccessType) {mode : Nat} (hmode : mode ≤ SupervisorMode) :
    answer (walk onAD vaddr type mode) s =
      walkAnswer vaddr type (s.pageOf onAD (vaddr >>> PGSHIFT) type mode) := by
  have hwalk := triple_walk s hsatp onAD vaddr type hmode s rfl
  unfold answer
  cases hrun : walk onAD vaddr type mode s with
  | ok paddr s' =>
    rw [hrun] at hwalk
    obtain ⟨-, page, hpage, rfl⟩ := hwalk
    rw [hpage]
    rfl
  | error e s' =>
    rw [hrun] at hwalk
    exact hwalk.2.symm

/-! ## Pages below four gigabytes -/

/-- The leaf entry for a page number; the tables above it do not grant rights. -/
def findLeaf (m : ConcolicMemory) (vpn : BitVec 64) : Nat → BitVec 64 → Pte
  | 0, _ => ⟨0#64⟩
  | level + 1, base =>
    let pte := entryAt m (pteAddress base vpn level)
    if !pte.R && !pte.X then findLeaf m vpn level (pte.ppn <<< PGSHIFT) else pte

def State.leafOf (s : State) (vpn : BitVec 64) : Pte := findLeaf s.mem vpn 2 s.pageTable

/-- The page of an address has an address of 32 bits. -/
def State.LowPage (s : State) (vaddr : BitVec 64) : Prop :=
  (s.leafOf (vaddr >>> PGSHIFT)).ppn.toNat < 2 ^ 20

instance (s : State) (vaddr : BitVec 64) : Decidable (s.LowPage vaddr) :=
  inferInstanceAs (Decidable (_ < _))

/-- The mask of a cached page keeps a page of 32 bits. -/
theorem cachedPage_eq {x : BitVec 64} (hx : x.toNat < 2 ^ 20) :
    (x <<< PGSHIFT) &&& 0xfffff000#64 = x <<< PGSHIFT := by
  have hmask : ∀ i < 64, 12 ≤ i → i < 32 → (0xfffff000#64).getLsbD i = true := by decide
  apply BitVec.eq_of_getLsbD_eq
  intro i hi
  rw [BitVec.getLsbD_and, BitVec.getLsbD_shiftLeft]
  by_cases hlow : i < PGSHIFT
  · simp [hlow]
  · by_cases hhigh : i < 32
    · rw [hmask i hi (Nat.not_lt.mp hlow) hhigh, Bool.and_true]
    · have hzero : x.getLsbD (i - PGSHIFT) = false := by
        refine Nat.testBit_lt_two_pow (Nat.lt_of_lt_of_le hx (Nat.pow_le_pow_right (by decide) ?_))
        rw [PGSHIFT]
        omega
      rw [hzero, Bool.and_false, Bool.false_and]

theorem leafPage_low {pte : Pte} (hppn : pte.ppn.toNat < 2 ^ 20) (vpn : BitVec 64) {level : Nat}
    (hlevel : level ≤ 1) :
    leafPage pte vpn (level * 10) &&& 0xfffff000#64 = leafPage pte vpn (level * 10) := by
  refine cachedPage_eq ?_
  rw [BitVec.toNat_or, BitVec.toNat_and, BitVec.toNat_and]
  refine Nat.or_lt_two_pow (Nat.lt_of_le_of_lt Nat.and_le_left hppn)
    (Nat.lt_of_le_of_lt Nat.and_le_right ?_)
  rcases Nat.le_one_iff_eq_zero_or_eq_one.mp hlevel with rfl | rfl <;> decide

/-- A page that is found at a low address is cached without loss. -/
theorem findPage_low {m : ConcolicMemory} {size : Nat} {vpn : BitVec 64} {type : MemoryAccessType}
    {rights : Rights} {onAD : Bool} {level : Nat} (hlevel : level ≤ 2) {base page : BitVec 64}
    (hlow : (findLeaf m vpn level base).ppn.toNat < 2 ^ 20)
    (h : findPage m size vpn type rights onAD level base = .ok (some page)) :
    page &&& 0xfffff000#64 = page := by
  induction level generalizing base with
  | zero => cases h
  | succ level ih =>
    unfold findPage at h
    unfold findLeaf at hlow
    dsimp only at h hlow
    split at h
    · cases h
    split at h
    · cases h
    split at h
    case isTrue hnext =>
      rw [if_pos hnext] at hlow
      exact ih (by omega) hlow h
    case isFalse hleaf =>
      rw [if_neg hleaf] at hlow
      split at h
      · cases h
      split at h
      · cases h
      split at h
      · cases h
      obtain rfl := Option.some.inj (Except.ok.inj h)
      exact leafPage_low hlow vpn (by omega)

/-- A page that is found for some rights is found for others that the leaf entry allows. -/
theorem findPage_of_leaf {m : ConcolicMemory} {size : Nat} {vpn : BitVec 64}
    {type : MemoryAccessType} {rights rights' : Rights} {onAD : Bool} {level : Nat}
    {base page : BitVec 64} (hleaf : leafFault (findLeaf m vpn level base) type rights'.supervisor
      rights'.sum rights'.mxr = false)
    (h : findPage m size vpn type rights onAD level base = .ok (some page)) :
    findPage m size vpn type rights' onAD level base = .ok (some page) := by
  induction level generalizing base with
  | zero => cases h
  | succ level ih =>
    unfold findPage at h ⊢
    unfold findLeaf at hleaf
    dsimp only at h hleaf ⊢
    split at h
    · cases h
    split at h
    · cases h
    split at h
    case isTrue hrange hvalid hnext =>
      rw [if_pos hnext] at hleaf
      rw [if_neg hrange, if_neg hvalid, if_pos hnext]
      exact ih hleaf h
    case isFalse hrange hvalid hnext =>
      rw [if_neg hnext] at hleaf
      split at h
      · cases h
      · rw [if_neg hrange, if_neg hvalid, if_neg hnext, if_neg (Bool.eq_false_iff.mp hleaf)]
        exact h

/-- The entry that is looked up for an address. -/
def Mmu.lookup (mmu : Mmu) (mode : Nat) (type : MemoryAccessType) (vaddr : BitVec 64) : TlbEntry :=
  mmu.tlb mode type ((vaddr >>> PGSHIFT).toNat % TLB_ENTRIES)

/-- The page of the address is cached for accesses of the mode and type. -/
def Mmu.Caches (mmu : Mmu) (mode : Nat) (type : MemoryAccessType) (vaddr : BitVec 64) : Prop :=
  (mmu.lookup mode type vaddr).vpn = vaddr >>> PGSHIFT

instance (mmu : Mmu) (mode : Nat) (type : MemoryAccessType) (vaddr : BitVec 64) :
    Decidable (mmu.Caches mode type vaddr) :=
  inferInstanceAs (Decidable (_ = _))

/-- A flushed entry is all ones, which is no page number. -/
theorem Mmu.not_caches_flush (mmu : Mmu) (mode : Nat) (type : MemoryAccessType)
    (vaddr : BitVec 64) : ¬ mmu.flush.Caches mode type vaddr := by
  intro h
  have htop : (BitVec.allOnes 64).getLsbD 63 = (vaddr >>> PGSHIFT).getLsbD 63 :=
    congrArg (·.getLsbD 63) h
  rw [BitVec.getLsbD_ushiftRight, BitVec.getLsbD_of_ge vaddr (PGSHIFT + 63) (by decide)] at htop
  exact absurd htop (by decide)

/-- What is cached is what walks find. -/
def Mmu.Coherent (mmu : Mmu) (s : State) : Prop :=
  ∀ mode type vaddr, mmu.Caches mode type vaddr →
    s.pageOf mmu.pageFaultOnAD (vaddr >>> PGSHIFT) type mode =
      .ok (some (mmu.lookup mode type vaddr).ppn)

theorem State.pageOf_of_marked {onAD : Bool} {s s' : State} (h : MarkedState onAD s s')
    (vpn : BitVec 64) (type : MemoryAccessType) (mode : Nat) :
    s'.pageOf onAD vpn type mode = s.pageOf onAD vpn type mode := by
  obtain ⟨m, rfl, hm⟩ := h
  exact findPage_of_markedFrom hm _ _ _ _ 2 s.pageTable_aligned

theorem Mmu.Coherent.of_marked {mmu : Mmu} {s s' : State} (h : mmu.Coherent s)
    (hmarked : MarkedState mmu.pageFaultOnAD s s') : mmu.Coherent s' := by
  intro mode type vaddr hcached
  rw [State.pageOf_of_marked hmarked]
  exact h mode type vaddr hcached

theorem lookup_setTlb (mmu : Mmu) (mode : Nat) (type : MemoryAccessType) (vaddr : BitVec 64)
    (entry : TlbEntry) (mode' : Nat) (type' : MemoryAccessType) (vaddr' : BitVec 64) :
    (mmu.setTlb mode type ((vaddr >>> PGSHIFT).toNat % TLB_ENTRIES) entry).lookup mode' type' vaddr'
      = entry ∧ mode' = mode ∧ type' = type ∨
    (mmu.setTlb mode type ((vaddr >>> PGSHIFT).toNat % TLB_ENTRIES) entry).lookup mode' type' vaddr'
      = mmu.lookup mode' type' vaddr' := by
  simp only [Mmu.lookup, Mmu.setTlb]
  split
  case isTrue h => exact .inl ⟨rfl, h.1, h.2.1⟩
  case isFalse => exact .inr rfl

/-- A page that a walk found may be cached. -/
theorem Mmu.Coherent.setTlb {mmu : Mmu} {s : State} (h : mmu.Coherent s) {mode : Nat}
    {type : MemoryAccessType} {vaddr page : BitVec 64}
    (hpage : s.pageOf mmu.pageFaultOnAD (vaddr >>> PGSHIFT) type mode = .ok (some page)) :
    (mmu.setTlb mode type ((vaddr >>> PGSHIFT).toNat % TLB_ENTRIES)
      ⟨page, vaddr >>> PGSHIFT⟩).Coherent s := by
  intro mode' type' vaddr' hcached
  rcases lookup_setTlb mmu mode type vaddr ⟨page, vaddr >>> PGSHIFT⟩ mode' type' vaddr' with
    ⟨hlookup, rfl, rfl⟩ | hlookup
  · rw [Mmu.Caches, hlookup] at hcached
    rw [hlookup, ← hcached]
    exact hpage
  · rw [Mmu.Caches, hlookup] at hcached
    rw [hlookup]
    exact h mode' type' vaddr' hcached

/-- An access that is translated looks into the cache first. -/
theorem translate_of_translates (mmu : Mmu) {s : State} {type : MemoryAccessType}
    (h : s.Translates type) (vaddr : BitVec 64) :
    translateVirtualToPhysicalAddr mmu vaddr type s =
      if mmu.Caches (s.accessMode type) type vaddr then
        .ok ((mmu.lookup (s.accessMode type) type vaddr).ppn ||| (vaddr &&& 0xfff#64)) s
      else
        match walk mmu.pageFaultOnAD vaddr type (s.accessMode type) s with
        | .ok paddr s' =>
          .ok paddr { s' with mmu := some (mmu.setTlb (s.accessMode type) type
            ((vaddr >>> PGSHIFT).toNat % TLB_ENTRIES)
            ⟨paddr &&& 0xfffff000#64, vaddr >>> PGSHIFT⟩) }
        | .error e s' => .error e s' := by
  have hsatp : s.csrs.satpMode ≠ 0#1 := by
    rw [h.1]
    decide
  have hmachine : s.accessMode type ≠ MachineMode :=
    Nat.ne_of_lt (Nat.lt_of_le_of_lt h.2 (by decide))
  have hmode : s.accessMode type = 0 ∨ s.accessMode type = 1 :=
    Nat.le_one_iff_eq_zero_or_eq_one.mp h.2
  rw [translateVirtualToPhysicalAddr]
  change (if s.csrs.satpMode = 0#1 then _ else _ : IssM (BitVec 64)) s = _
  rw [if_neg hsatp, if_neg hmachine, ensure, if_pos hmode]
  change (if mmu.Caches (s.accessMode type) type vaddr then _ else _ : IssM (BitVec 64)) s = _
  split
  case isTrue => rfl
  case isFalse =>
    change EStateM.bind (walk mmu.pageFaultOnAD vaddr type (s.accessMode type)) _ s = _
    unfold EStateM.bind
    cases walk mmu.pageFaultOnAD vaddr type (s.accessMode type) s with
    | ok paddr s' => rfl
    | error e s' => rfl

theorem v2p_of_mmu {s : State} {mmu : Mmu} (hmmu : s.mmu = some mmu) (vaddr : BitVec 64)
    (type : MemoryAccessType) :
    v2p vaddr type s = translateVirtualToPhysicalAddr mmu vaddr type s := by
  rw [v2p, Lib.get_bind, hmmu]

/-- A coherent cache is not seen. -/
theorem answer_translate {mmu : Mmu} {s : State} (hcoherent : mmu.Coherent s)
    {type : MemoryAccessType} (h : s.Translates type) (vaddr : BitVec 64) :
    answer (translateVirtualToPhysicalAddr mmu vaddr type) s =
      answer (walk mmu.pageFaultOnAD vaddr type (s.accessMode type)) s := by
  have hwalk := answer_walk s h.1 mmu.pageFaultOnAD vaddr type h.2
  unfold answer at hwalk ⊢
  rw [translate_of_translates mmu h]
  by_cases hcached : mmu.Caches (s.accessMode type) type vaddr
  · rw [if_pos hcached, hwalk, hcoherent _ _ _ hcached]
    rfl
  · rw [if_neg hcached]
    cases walk mmu.pageFaultOnAD vaddr type (s.accessMode type) s with
    | ok paddr s' => rfl
    | error e s' => rfl

/-- The MMU is present and its cache is coherent. -/
def State.Cached (s : State) : Prop := ∃ mmu, s.mmu = some mmu ∧ mmu.Coherent s

/-- The offset in the page is not cached. -/
theorem cached_page_or_offset (page vaddr : BitVec 64) :
    (page ||| (vaddr &&& 0xfff#64)) &&& 0xfffff000#64 = page &&& 0xfffff000#64 := by
  have hmask : (0xfff#64) &&& 0xfffff000#64 = 0#64 := by decide
  rw [BitVec.and_or_distrib_right, BitVec.and_assoc, hmask, BitVec.and_zero, BitVec.or_zero]

/-- A translation keeps the cache coherent if the page has a low address. -/
theorem keeps_cached_translate {mmu : Mmu} {s : State} (hmmu : s.mmu = some mmu)
    (hcoherent : mmu.Coherent s) {type : MemoryAccessType}
    {vaddr : BitVec 64} (hlow : s.Translates type → s.LowPage vaddr) :
    Triple (· = s) (translateVirtualToPhysicalAddr mmu vaddr type) (fun _ ↦ State.Cached)
      fun _ ↦ State.Cached := by
  have hcached : s.Cached := ⟨mmu, hmmu, hcoherent⟩
  have hmarked : ∀ s', MarkedState mmu.pageFaultOnAD s s' → mmu.Coherent s' ∧ s'.mmu = some mmu := by
    rintro _ ⟨m, rfl, hm⟩
    exact ⟨hcoherent.of_marked ⟨m, rfl, hm⟩, hmmu⟩
  refine Triple.read_bind fun s₁ hs₁ ↦ ?_
  rw [hs₁]
  refine Triple.ite (fun _ ↦ Triple.ret fun _ h ↦ h ▸ hcached) fun hsatp ↦
    Triple.ite (fun _ ↦ Triple.ret fun _ h ↦ h ▸ hcached) fun _ ↦ ?_
  have hsatp : s.csrs.satpMode = 1#1 := by
    generalize s.csrs.satpMode = mode at hsatp
    revert mode
    decide
  refine Triple.bind (triple_ensure (Q := fun _ s' ↦ s' = s ∧ s.accessMode type ≤ SupervisorMode)
    (fun s' h hmode ↦ ⟨h, Nat.le_one_iff_eq_zero_or_eq_one.mpr hmode⟩) fun s' h _ ↦ h ▸ hcached)
    fun _ ↦ Triple.of_start fun s' h ↦ ?_
  obtain ⟨rfl, hmode⟩ := h
  refine Triple.ite (fun _ ↦ Triple.ret fun _ h ↦ h ▸ hcached) fun _ ↦ ?_
  refine Triple.bind ((triple_walk s' hsatp mmu.pageFaultOnAD vaddr type hmode).conseq
    (fun _ h ↦ h) (fun _ _ h ↦ h) fun e s'' h ↦ ?_) fun paddr ↦ Triple.of_start fun s'' h ↦ ?_
  · exact ⟨mmu, (hmarked s'' h.1).2, (hmarked s'' h.1).1⟩
  obtain ⟨hstate, page, hpage, rfl⟩ := h
  refine Triple.bind (Q := fun _ ↦ State.Cached) (Triple.update fun _ h ↦ ?_) fun _ ↦
    Triple.ret fun _ h ↦ h
  rw [h, cached_page_or_offset, findPage_low (Nat.le_refl 2) (hlow ⟨hsatp, hmode⟩) hpage]
  refine ⟨_, rfl, Mmu.Coherent.setTlb (s := s'') (hmarked s'' hstate).1 ?_⟩
  rw [State.pageOf_of_marked hstate]
  exact hpage

/-! ## Runs -/

/-- What may happen between two translations: another one, a write of a CSR, or a change of the
mode. -/
inductive MmuStep
  | translate (vaddr : BitVec 64) (type : MemoryAccessType)
  | writeCsr (addr : Nat) (value : BitVec 32)
  | changeMode (prv : Nat)

namespace MmuStep

def apply (s : State) : MmuStep → State
  | translate vaddr type => stateAfter (v2p vaddr type) s
  | writeCsr addr value => stateAfter (setCsrValue addr value) s
  | changeMode prv => { s with prv := prv }

/-- The registers after a write leave the cached pages as they are: the root of the page tables is
the same, and the leaf entries allow the accesses that the pages are cached for. -/
structure KeepsPages (s : State) (mmu : Mmu) (csrs : CsrTable) : Prop where
  root : csrs.satpPpn = s.csrs.satpPpn ∨ ∀ mode type vaddr, ¬ mmu.Caches mode type vaddr
  rights : ∀ mode type vaddr, mmu.Caches mode type vaddr →
    leafFault (s.leafOf (vaddr >>> PGSHIFT)) type (csrs.rights mode).supervisor
      (csrs.rights mode).sum (csrs.rights mode).mxr = false

/-- The steps under which the cache stays coherent. -/
def Harmless (s : State) : MmuStep → Prop
  | translate vaddr type => s.Translates type → s.LowPage vaddr
  | writeCsr addr value =>
    ∀ mmu, s.mmu = some mmu → KeepsPages s mmu (stateAfter (setCsrValue addr value) s).csrs
  | changeMode _ => True

/-- Every step is harmless in the state it is taken in. -/
def HarmlessRun (s : State) : List MmuStep → Prop
  | [] => True
  | step :: steps => step.Harmless s ∧ HarmlessRun (step.apply s) steps

def run (s : State) (steps : List MmuStep) : State := steps.foldl apply s

theorem cached_writeCsr {s : State} (h : s.Cached) {addr : Nat} {value : BitVec 32}
    (hharmless : (writeCsr addr value).Harmless s) : (apply s (writeCsr addr value)).Cached := by
  obtain ⟨mmu, hmmu, hcoherent⟩ := h
  have hframe : ∃ csrs, stateAfter (setCsrValue addr value) s = { s with csrs := csrs } := by
    have hkeeps : Keeps (fun s' ↦ ∃ csrs, s' = { s with csrs := csrs })
        (setCsrValue addr value) := by
      refine keeps_setCsrValue (fun s' r mask value hs' _ ↦ ?_) value
      obtain ⟨csrs, rfl⟩ := hs'
      exact ⟨_, rfl⟩
    have hrun := hkeeps s ⟨s.csrs, rfl⟩
    unfold stateAfter
    cases hset : setCsrValue addr value s with
    | ok a s' =>
      rw [hset] at hrun
      exact hrun
    | error e s' =>
      rw [hset] at hrun
      exact hrun
  obtain ⟨csrs, hcsrs⟩ := hframe
  obtain ⟨hroot, hrights⟩ := hharmless mmu hmmu
  rw [apply, hcsrs]
  rw [hcsrs] at hroot hrights
  refine ⟨mmu, hmmu, fun mode type vaddr hcached ↦ ?_⟩
  rcases hroot with hroot | hempty
  · have htable : State.pageTable { s with csrs := csrs } = s.pageTable := by
      rw [State.pageTable, State.pageTable, hroot]
    rw [State.pageOf, htable]
    exact findPage_of_leaf (hrights mode type vaddr hcached) (hcoherent mode type vaddr hcached)
  · exact absurd hcached (hempty mode type vaddr)

theorem cached_translate {s : State} (h : s.Cached) {vaddr : BitVec 64} {type : MemoryAccessType}
    (hharmless : (translate vaddr type).Harmless s) :
    (apply s (translate vaddr type)).Cached := by
  obtain ⟨mmu, hmmu, hcoherent⟩ := h
  have hrun := keeps_cached_translate hmmu hcoherent hharmless s rfl
  rw [apply, stateAfter, v2p_of_mmu hmmu]
  cases htranslate : translateVirtualToPhysicalAddr mmu vaddr type s with
  | ok paddr s' =>
    rw [htranslate] at hrun
    exact hrun
  | error e s' =>
    rw [htranslate] at hrun
    exact hrun

theorem cached_apply {s : State} (h : s.Cached) {step : MmuStep} (hharmless : step.Harmless s) :
    (apply s step).Cached := by
  cases step with
  | translate vaddr type => exact cached_translate h hharmless
  | writeCsr addr value => exact cached_writeCsr h hharmless
  | changeMode prv => exact h

theorem cached_run {s : State} (h : s.Cached) {steps : List MmuStep}
    (hharmless : HarmlessRun s steps) : (run s steps).Cached := by
  induction steps generalizing s with
  | nil => exact h
  | cons step steps ih => exact ih (cached_apply h hharmless.1) hharmless.2

end MmuStep

/-- The MMU starts with an empty cache. -/
theorem cached_of_flushed {s : State} {mmu : Mmu} (h : s.mmu = some mmu.flush) : s.Cached :=
  ⟨_, h, fun mode type vaddr hcached ↦ absurd hcached (mmu.not_caches_flush mode type vaddr)⟩

/-- After harmless steps, a translation gives the address or the fault of a walk. -/
theorem translation_eq_walk_of_harmlessRun {start : State} {mmu : Mmu}
    (hstart : start.mmu = some mmu.flush) {steps : List MmuStep}
    (hharmless : MmuStep.HarmlessRun start steps) (vaddr : BitVec 64) (type : MemoryAccessType)
    (htranslates : (MmuStep.run start steps).Translates type) :
    ∃ mmu', (MmuStep.run start steps).mmu = some mmu' ∧
      answer (translateVirtualToPhysicalAddr mmu' vaddr type) (MmuStep.run start steps) =
        answer (walk mmu'.pageFaultOnAD vaddr type ((MmuStep.run start steps).accessMode type))
          (MmuStep.run start steps) := by
  obtain ⟨mmu', hmmu', hcoherent⟩ := MmuStep.cached_run (cached_of_flushed hstart) hharmless
  exact ⟨mmu', hmmu', answer_translate hcoherent htranslates vaddr⟩

/-- Supervisor mode with access to user pages, and one page of four megabytes for the user. -/
def userPageState : State :=
  { ((bootState [0xd7#8]).setCsr .satp 0x80000000#32).setCsr .mstatus 0x40000#32 with
    prv := SupervisorMode
    mmu := some (Mmu.flush ⟨false, fun _ _ _ ↦ ⟨0#64, 0#64⟩⟩) }

theorem translation_eq_walk_of_harmlessRun_userPage :
    answer (v2p 4#64 .STORE) (MmuStep.run userPageState [.translate 0#64 .STORE, .changeMode 1]) =
      .ok 4#64 ∧
    ∃ mmu, (MmuStep.run userPageState [.translate 0#64 .STORE, .changeMode 1]).mmu = some mmu ∧
      answer (translateVirtualToPhysicalAddr mmu 4#64 .STORE)
          (MmuStep.run userPageState [.translate 0#64 .STORE, .changeMode 1]) =
        answer (walk mmu.pageFaultOnAD 4#64 .STORE
            ((MmuStep.run userPageState [.translate 0#64 .STORE, .changeMode 1]).accessMode .STORE))
          (MmuStep.run userPageState [.translate 0#64 .STORE, .changeMode 1]) := by
  have hharmless : MmuStep.HarmlessRun userPageState
      [.translate 0#64 .STORE, .changeMode 1] :=
    ⟨fun _ ↦ by decide +kernel, trivial, trivial⟩
  have htranslates : (MmuStep.run userPageState
      [.translate 0#64 .STORE, .changeMode 1]).Translates .STORE :=
    ⟨by decide +kernel, by decide +kernel⟩
  exact ⟨by decide +kernel, translation_eq_walk_of_harmlessRun rfl hharmless 4#64 .STORE
    htranslates⟩

/-- The page stays cached when the supervisor gives up its access to user pages. -/
theorem translation_ne_walk_after_clearing_sum :
    ∃ mmu, (MmuStep.run userPageState
        [.translate 0#64 .STORE, .writeCsr Csr.MSTATUS_ADDR 0#32]).mmu = some mmu ∧
      answer (translateVirtualToPhysicalAddr mmu 0#64 .STORE)
          (MmuStep.run userPageState
            [.translate 0#64 .STORE, .writeCsr Csr.MSTATUS_ADDR 0#32]) = .ok 0#64 ∧
      answer (walk mmu.pageFaultOnAD 0#64 .STORE SupervisorMode)
          (MmuStep.run userPageState
            [.translate 0#64 .STORE, .writeCsr Csr.MSTATUS_ADDR 0#32]) =
        .error (.trap .STORE_AMO_PAGE_FAULT 0#64) := by
  set s := MmuStep.run userPageState [.translate 0#64 .STORE, .writeCsr Csr.MSTATUS_ADDR 0#32]
    with hs
  have hflag : s.mmu.map (·.pageFaultOnAD) = some false := by
    rw [hs]
    decide +kernel
  obtain ⟨mmu, hmmu, honAD⟩ := Option.map_eq_some_iff.mp hflag
  refine ⟨mmu, hmmu, ?_, ?_⟩
  · have hv2p : answer (v2p 0#64 .STORE) s = .ok 0#64 := by
      rw [hs]
      decide +kernel
    unfold answer at hv2p ⊢
    rwa [v2p_of_mmu hmmu] at hv2p
  · rw [honAD, hs]
    decide +kernel

end CoverageVP.Iss
