import CoverageVP.Iss.Frames

/-!
# Memory accesses and page tables

What the memory answers to a transaction, and what an address translation does to the memory: it
reads entries of the page table that `satp` points to, and marks a leaf entry as accessed or dirty.
Accesses keep every property that such marks keep.
-/

namespace CoverageVP.Iss

open Lib Clover

/-! ## Transactions -/

/-- The integer in `n` bytes of the memory. -/
def natAt (m : ConcolicMemory) (addr : BitVec 32) (n : Nat) : Nat :=
  bytesToNat ((List.range n).map fun off ↦ m.concreteByte (addr + BitVec.ofNat 32 off))

/-- The word in four bytes of the memory. -/
def wordAt (m : ConcolicMemory) (addr : BitVec 32) : BitVec 32 :=
  m.concreteByte (addr + 3#32) ++ (m.concreteByte (addr + 2#32) ++
    (m.concreteByte (addr + 1#32) ++ m.concreteByte (addr + 0#32)))

theorem toNat_append_eq {n k : Nat} (x : BitVec n) (y : BitVec k) :
    (x ++ y).toNat = y.toNat + 2 ^ k * x.toNat := by
  rw [BitVec.toNat_append, ← Nat.shiftLeft_add_eq_or_of_lt y.isLt, Nat.shiftLeft_eq, Nat.mul_comm,
    Nat.add_comm]

theorem toNat_wordAt (m : ConcolicMemory) (addr : BitVec 32) :
    (wordAt m addr).toNat = natAt m addr 4 := by
  have hsum : natAt m addr 4 = (m.concreteByte (addr + 0#32)).toNat +
      256 * ((m.concreteByte (addr + 1#32)).toNat + 256 * ((m.concreteByte (addr + 2#32)).toNat +
        256 * ((m.concreteByte (addr + 3#32)).toNat + 256 * 0))) := rfl
  rw [hsum, wordAt, toNat_append_eq, toNat_append_eq, toNat_append_eq]
  omega

theorem extract_wordAt (m : ConcolicMemory) (addr : BitVec 32) {i : Nat} (hi : i < 4) :
    (wordAt m addr).extractLsb' (i * 8) 8 = m.concreteByte (addr + BitVec.ofNat 32 i) := by
  apply BitVec.eq_of_getLsbD_eq
  intro j hj
  rw [BitVec.getLsbD_extractLsb', wordAt]
  simp only [BitVec.getLsbD_append, hj, decide_true, Bool.true_and]
  match i, hi with
  | 0, _ => grind
  | 1, _ => grind
  | 2, _ => grind
  | 3, _ => grind

theorem triple_transportRead (s : State) (addr : BitVec 64) {n : Nat} (hn : 0 < n) :
    Triple (· = s) (transportRead addr n)
      (fun data s' ↦ s' = s ∧ addr.toNat + n ≤ s.memSize ∧
        s.mem.load (addr.setWidth 32) n = some data)
      (fun e s' ↦ s' = s ∧ s.memSize < addr.toNat + n ∧ e = .trap .LOAD_PAGE_FAULT addr) := by
  refine Triple.read_bind fun s' hs' ↦ ?_
  rw [hs']
  refine Triple.bind (Q := fun _ s' ↦ s' = s ∧ addr.toNat + n ≤ s.memSize)
    (triple_raiseTrapIf (fun _ h hc ↦ ⟨h, Nat.not_lt.mp hc⟩) fun _ h hc ↦ ⟨h, hc, rfl⟩) fun _ ↦ ?_
  obtain ⟨data, hdata⟩ := Option.isSome_iff_exists.mp (s.mem.load_isSome (addr.setWidth 32) hn)
  rw [hdata]
  exact Triple.ret fun _ h ↦ ⟨h.1, h.2, rfl⟩

theorem triple_concreteLoadData (s : State) (addr : BitVec 64) {n : Nat} (hn : 0 < n) :
    Triple (· = s) (concreteLoadData addr n)
      (fun value s' ↦ s' = s ∧ addr.toNat + n ≤ s.memSize ∧
        value = natAt s.mem (addr.setWidth 32) n)
      (fun e s' ↦ s' = s ∧ s.memSize < addr.toNat + n ∧ e = .trap .LOAD_PAGE_FAULT addr) := by
  refine Triple.bind (triple_transportRead s addr hn) fun data ↦ Triple.ret fun s' h ↦ ?_
  refine ⟨h.1, h.2.1, ?_⟩
  rw [ConcolicMemory.BVCToBytes_load h.2.2, natAt]

theorem triple_transportWrite (s : State) (addr : BitVec 64) (data : ConcolicValue) (n : Nat) :
    Triple (· = s) (transportWrite addr data n)
      (fun _ s' ↦ addr.toNat + n ≤ s.memSize ∧
        s' = { s with mem := s.mem.store (addr.setWidth 32) data n })
      (fun e s' ↦ s' = s ∧ s.memSize < addr.toNat + n ∧ e = .trap .STORE_AMO_PAGE_FAULT addr) := by
  refine Triple.read_bind fun s' hs' ↦ ?_
  rw [hs']
  refine Triple.bind (Q := fun _ s' ↦ s' = s ∧ addr.toNat + n ≤ s.memSize)
    (triple_raiseTrapIf (fun _ h hc ↦ ⟨h, Nat.not_lt.mp hc⟩) fun _ h hc ↦ ⟨h, hc, rfl⟩) fun _ ↦ ?_
  refine Triple.update fun s' h ↦ ⟨h.2, ?_⟩
  rw [h.1]

/-- The bytes of a word make up the word. -/
theorem BVCOfBytes_word (value : BitVec 32) :
    Solver.BVCOfBytes ((List.range 4).map fun i ↦ value.extractLsb' (8 * i) 8) =
      some (constant value) := by
  have hjoin : value.extractLsb' 24 8 ++ (value.extractLsb' 16 8 ++
      (value.extractLsb' 8 8 ++ value.extractLsb' 0 8)) = value := by
    apply BitVec.eq_of_getLsbD_eq
    intro i hi
    simp only [BitVec.getLsbD_append, BitVec.getLsbD_extractLsb']
    grind
  have hconcrete : (⟨32, value.extractLsb' 24 8 ++ (value.extractLsb' 16 8 ++
      (value.extractLsb' 8 8 ++ value.extractLsb' 0 8))⟩ : BV) = ⟨32, value⟩ := by rw [hjoin]
  have hbyte : ∀ b : BitVec 8, Solver.BVC none (.uint8 b) = ⟨⟨8, b⟩, none, false⟩ := by
    intro b
    rw [Solver.BVC, IntValue.toBV_uint8]
    rfl
  rw [constant_eq, ← hconcrete, Solver.BVCOfBytes]
  simp only [hbyte]
  rfl

/-- The entry that the MMU reads at a physical address. -/
def entryAt (m : ConcolicMemory) (paddr : BitVec 64) : Pte :=
  ⟨(wordAt m (paddr.setWidth 32)).setWidth 64⟩

/-- The table that `satp` points to. -/
def State.pageTable (s : State) : BitVec 64 := s.csrs.satpPpn.setWidth 64 <<< PGSHIFT

/-- A memory in which an entry is marked as accessed or dirty. -/
def markEntry (m : ConcolicMemory) (paddr : BitVec 64) (type : MemoryAccessType) :
    ConcolicMemory :=
  m.store (paddr.setWidth 32)
    (constant (((entryAt m paddr).value ||| adBits type).setWidth 32)) 4

theorem triple_mmuLoadPte32 (s : State) (addr : BitVec 64) :
    Triple (· = s) (mmuLoadPte32 addr)
      (fun pte s' ↦ s' = s ∧ pte = entryAt s.mem addr ∧ addr.toNat + 4 ≤ s.memSize)
      (fun e s' ↦ s' = s ∧ s.memSize < addr.toNat + 4 ∧ e = .trap .LOAD_PAGE_FAULT addr) := by
  refine Triple.bind (triple_concreteLoadData s addr (by decide)) fun value ↦ Triple.ret ?_
  rintro s' ⟨hs', hrange, rfl⟩
  rw [← toNat_wordAt, BitVec.ofNat_toNat]
  exact ⟨hs', rfl, hrange⟩

theorem concreteStoreData_eq (addr : BitVec 64) (value : BitVec 32) :
    concreteStoreData addr value = transportWrite addr (constant value) 4 := by
  rw [concreteStoreData, BVCOfBytes_word]

def sv32 (root : BitVec 64) : VmInfo := ⟨2, 10, 4, root⟩

theorem triple_decodeVmInfo (s : State) (prv : Nat) :
    Triple (· = s) (decodeVmInfo prv) (fun vm s' ↦ s' = s ∧ vm = sv32 s.pageTable)
      (fun e s' ↦ s' = s ∧ ((SupervisorMode < prv ∧ e = .host (.assertion .walkMode)) ∨
        s.csrs.satpMode ≠ 1#1)) := by
  refine Triple.bind (Q := fun _ s' ↦ s' = s) (triple_ensure (fun _ h _ ↦ h) fun _ h hc ↦
    ⟨h, .inl ⟨Nat.not_le.mp hc, rfl⟩⟩) fun _ ↦ Triple.read_bind fun s' hs' ↦ ?_
  rw [hs']
  exact Triple.ite (fun _ ↦ Triple.ret fun _ h ↦ ⟨h, rfl⟩) fun hmode ↦
    Triple.raise fun _ h ↦ ⟨h, .inr hmode⟩

/-- An access of the type is translated by the page table. -/
def State.Translates (s : State) (type : MemoryAccessType) : Prop :=
  s.csrs.satpMode = 1#1 ∧ s.accessMode type ≤ SupervisorMode

/-- The leaf entry of the page of an address, below a table of some level. -/
inductive LeafBelow (m : ConcolicMemory) (root vaddr : BitVec 64) :
    Nat → BitVec 64 → BitVec 64 → Prop
  | leaf {level : Nat} {base : BitVec 64} :
      (entryAt m (ptePaddr (sv32 root) vaddr base level)).V = true →
      (entryAt m (ptePaddr (sv32 root) vaddr base level)).R = true ∨
        (entryAt m (ptePaddr (sv32 root) vaddr base level)).X = true →
      LeafBelow m root vaddr (level + 1) base (ptePaddr (sv32 root) vaddr base level)
  | next {level : Nat} {base paddr : BitVec 64} :
      (entryAt m (ptePaddr (sv32 root) vaddr base level)).V = true →
      (entryAt m (ptePaddr (sv32 root) vaddr base level)).R = false →
      (entryAt m (ptePaddr (sv32 root) vaddr base level)).X = false →
      LeafBelow m root vaddr level
        ((entryAt m (ptePaddr (sv32 root) vaddr base level)).ppn <<< PGSHIFT) paddr →
      LeafBelow m root vaddr (level + 1) base paddr

/-- The leaf entry at which the walk for an address ends. -/
def State.LeafOf (s : State) (vaddr paddr : BitVec 64) : Prop :=
  LeafBelow s.mem s.pageTable vaddr 2 s.pageTable paddr

theorem ptePaddr_aligned {base : BitVec 64} (hbase : base.toNat % 4 = 0) (root vaddr : BitVec 64)
    (level : Nat) : (ptePaddr (sv32 root) vaddr base level).toNat % 4 = 0 := by
  have haligned : ∀ index : BitVec 64, (base + index * 4#64).toNat % 4 = 0 := by
    intro index
    rw [BitVec.toNat_add, BitVec.toNat_mul]
    change (base.toNat + index.toNat * 4 % 2 ^ 64) % 2 ^ 64 % 4 = 0
    omega
  exact haligned _

theorem page_aligned (ppn : BitVec 64) : (ppn <<< PGSHIFT).toNat % 4 = 0 := by
  rw [BitVec.toNat_shiftLeft, Nat.shiftLeft_eq, PGSHIFT]
  omega

theorem State.pageTable_aligned (s : State) : s.pageTable.toNat % 4 = 0 := page_aligned _

theorem setWidth_aligned {x : BitVec 64} (h : x.toNat % 4 = 0) :
    (x.setWidth 32).toNat % 4 = 0 := by
  rw [BitVec.toNat_setWidth]
  omega

theorem LeafBelow.aligned {m : ConcolicMemory} {root vaddr base paddr : BitVec 64} {level : Nat}
    (h : LeafBelow m root vaddr level base paddr) (hbase : base.toNat % 4 = 0) :
    (paddr.setWidth 32).toNat % 4 = 0 := by
  induction h with
  | leaf => exact setWidth_aligned (ptePaddr_aligned hbase root vaddr _)
  | next _ _ _ _ ih => exact ih (page_aligned _)

/-! ## Marked page tables -/

/-- The bits of byte `i` of an entry that marks leave alone. -/
def unmarkedBits (i : Nat) : BitVec 8 := if i = 0 then ~~~0xc0#8 else BitVec.allOnes 8

/-- The memories are the same but for the accessed and dirty bits of some page table entries. -/
def EqUpToMarks (marked : BitVec 64 → Prop) (m m' : ConcolicMemory) : Prop :=
  ∀ addr, m'.byteAt addr = m.byteAt addr ∨
    ∃ paddr i, marked paddr ∧ i < 4 ∧ addr = paddr.setWidth 32 + BitVec.ofNat 32 i ∧
      m'.concreteByte addr &&& unmarkedBits i = m.concreteByte addr &&& unmarkedBits i

/-- Aligned words do not overlap. -/
theorem offset_eq_of_aligned {p q : BitVec 32} {i j : Nat} (hp : p.toNat % 4 = 0)
    (hq : q.toNat % 4 = 0) (hi : i < 4) (hj : j < 4)
    (h : p + BitVec.ofNat 32 i = q + BitVec.ofNat 32 j) : i = j := by
  have hnat := congrArg BitVec.toNat h
  rw [BitVec.toNat_add, BitVec.toNat_add, BitVec.toNat_ofNat, BitVec.toNat_ofNat] at hnat
  omega

/-- A mark changes bits of the first byte of its entry only. -/
theorem concreteByte_markEntry (m : ConcolicMemory) (paddr : BitVec 64) (type : MemoryAccessType)
    {i : Nat} (hi : i < 4) :
    (markEntry m paddr type).concreteByte (paddr.setWidth 32 + BitVec.ofNat 32 i) &&&
        unmarkedBits i =
      m.concreteByte (paddr.setWidth 32 + BitVec.ofNat 32 i) &&& unmarkedBits i := by
  have hmarks : ∀ i < 4, ∀ j < 8,
      (((adBits type).setWidth 32).getLsbD (i * 8 + j) && (unmarkedBits i).getLsbD j) = false := by
    cases type <;> decide
  have hword : ((entryAt m paddr).value ||| adBits type).setWidth 32 =
      wordAt m (paddr.setWidth 32) ||| (adBits type).setWidth 32 := by
    rw [entryAt, BitVec.setWidth_or, BitVec.setWidth_setWidth_of_le _ (by decide),
      BitVec.setWidth_eq]
  rw [markEntry, ConcolicMemory.concreteByte_store _ _ _ (by decide) (Nat.le_refl 32) hi, hword,
    constant_eq, ← extract_wordAt m _ hi]
  apply BitVec.eq_of_getLsbD_eq
  intro j hj
  have hmark := hmarks i hi j hj
  simp only [BitVec.getLsbD_and, BitVec.getLsbD_extractLsb', BitVec.getLsbD_or, hj, decide_true,
    Bool.true_and, Bool.and_or_distrib_right, hmark, Bool.or_false]

section Marks

variable {m m' : ConcolicMemory} {marked : BitVec 64 → Prop}

theorem EqUpToMarks.refl (m : ConcolicMemory) : EqUpToMarks marked m m := fun _ ↦ .inl rfl

theorem EqUpToMarks.mono {marked' : BitVec 64 → Prop} (h : EqUpToMarks marked m m')
    (hmarked : ∀ paddr, marked paddr → marked' paddr) : EqUpToMarks marked' m m' := by
  intro addr
  refine (h addr).imp_right ?_
  rintro ⟨paddr, i, hpaddr, hrest⟩
  exact ⟨paddr, i, hmarked paddr hpaddr, hrest⟩

variable (haligned : ∀ paddr, marked paddr → (paddr.setWidth 32).toNat % 4 = 0)

include haligned

/-- In every aligned word the unmarked bits agree. -/
theorem EqUpToMarks.concreteByte (h : EqUpToMarks marked m m') {word : BitVec 32}
    (hword : word.toNat % 4 = 0) {i : Nat} (hi : i < 4) :
    m'.concreteByte (word + BitVec.ofNat 32 i) &&& unmarkedBits i =
      m.concreteByte (word + BitVec.ofNat 32 i) &&& unmarkedBits i := by
  rcases h (word + BitVec.ofNat 32 i) with heq | ⟨paddr, j, hmarked, hj, haddr, hbits⟩
  · rw [ConcolicMemory.concreteByte_congr heq]
  · obtain rfl := offset_eq_of_aligned hword (haligned paddr hmarked) hi hj haddr
    exact hbits

theorem EqUpToMarks.getLsbD_wordAt (h : EqUpToMarks marked m m') {word : BitVec 32}
    (hword : word.toNat % 4 = 0) {j : Nat} (hj : j < 6 ∨ 8 ≤ j) :
    (wordAt m' word).getLsbD j = (wordAt m word).getLsbD j := by
  by_cases hlt : j < 32
  · have hdiv : j / 8 * 8 + j % 8 = j := by omega
    have hmod : j % 8 < 8 := Nat.mod_lt _ (by decide)
    have hbyte : ∀ m : ConcolicMemory, (wordAt m word).getLsbD j =
        (m.concreteByte (word + BitVec.ofNat 32 (j / 8))).getLsbD (j % 8) := by
      intro m
      rw [← extract_wordAt m word (by omega), BitVec.getLsbD_extractLsb', hdiv]
      simp [hmod]
    have hlow : ∀ k < 6, (~~~0xc0#8).getLsbD k = true := by decide
    have hmask : (unmarkedBits (j / 8)).getLsbD (j % 8) = true := by
      unfold unmarkedBits
      split
      · exact hlow _ (by omega)
      · rw [BitVec.getLsbD_allOnes]
        exact decide_eq_true hmod
    have hbits := congrArg (fun b ↦ b.getLsbD (j % 8))
      (h.concreteByte haligned hword (show j / 8 < 4 by omega))
    simp only [BitVec.getLsbD_and, hmask, Bool.and_true] at hbits
    rw [hbyte, hbyte, hbits]
  · rw [BitVec.getLsbD_of_ge _ _ (by omega), BitVec.getLsbD_of_ge _ _ (by omega)]

/-- Marks do not change where an entry points to, nor whether it is a leaf. -/
theorem EqUpToMarks.entryAt (h : EqUpToMarks marked m m') {paddr : BitVec 64}
    (hpaddr : (paddr.setWidth 32).toNat % 4 = 0) :
    (entryAt m' paddr).V = (entryAt m paddr).V ∧ (entryAt m' paddr).R = (entryAt m paddr).R ∧
      (entryAt m' paddr).X = (entryAt m paddr).X ∧
      (entryAt m' paddr).ppn = (entryAt m paddr).ppn := by
  have hbit : ∀ {j : Nat}, j < 6 ∨ 8 ≤ j → (Iss.entryAt m' paddr).value.getLsbD j =
      (Iss.entryAt m paddr).value.getLsbD j := by
    intro j hj
    rw [Iss.entryAt, Iss.entryAt, BitVec.getLsbD_setWidth, BitVec.getLsbD_setWidth,
      h.getLsbD_wordAt haligned hpaddr hj]
  refine ⟨hbit (by decide), hbit (by decide), hbit (by decide), ?_⟩
  apply BitVec.eq_of_getLsbD_eq
  intro i _
  rw [Pte.ppn, Pte.ppn, BitVec.getLsbD_ushiftRight, BitVec.getLsbD_ushiftRight,
    hbit (by rw [PTE_PPN_SHIFT]; omega)]

/-- The leaf entries of a marked memory are those of the original one. -/
theorem EqUpToMarks.leafBelow (h : EqUpToMarks marked m m') {root vaddr base paddr : BitVec 64}
    {level : Nat} (hbase : base.toNat % 4 = 0) (hleaf : LeafBelow m' root vaddr level base paddr) :
    LeafBelow m root vaddr level base paddr := by
  induction hleaf with
  | leaf hV hRX =>
    obtain ⟨hV', hR', hX', -⟩ := h.entryAt haligned (setWidth_aligned (ptePaddr_aligned hbase _ _ _))
    rw [hV'] at hV
    rw [hR', hX'] at hRX
    exact .leaf hV hRX
  | next hV hR hX _ ih =>
    obtain ⟨hV', hR', hX', hppn⟩ :=
      h.entryAt haligned (setWidth_aligned (ptePaddr_aligned hbase _ _ _))
    rw [hV'] at hV
    rw [hR'] at hR
    rw [hX'] at hX
    exact .next hV hR hX (hppn ▸ ih (page_aligned _))

theorem EqUpToMarks.mark (h : EqUpToMarks marked m m') {paddr : BitVec 64} (hpaddr : marked paddr)
    (type : MemoryAccessType) : EqUpToMarks marked m (markEntry m' paddr type) := by
  intro addr
  by_cases hin : (addr - paddr.setWidth 32).toNat < 4
  · obtain ⟨i, hi, rfl⟩ : ∃ i < 4, addr = paddr.setWidth 32 + BitVec.ofNat 32 i :=
      ⟨_, hin, (ConcolicMemory.eq_add_ofNat_iff _ _ (by omega)).mpr rfl⟩
    refine .inr ⟨paddr, i, hpaddr, hi, rfl, ?_⟩
    rw [concreteByte_markEntry m' paddr type hi, h.concreteByte haligned (haligned paddr hpaddr) hi]
  · have hsame : (markEntry m' paddr type).byteAt addr = m'.byteAt addr :=
      m'.byteAt_store_of_le _ (by decide) (Nat.not_lt.mp hin)
    rcases h addr with heq | ⟨paddr', i, hmarked, hi, haddr, hbits⟩
    · exact .inl (hsame.trans heq)
    · refine .inr ⟨paddr', i, hmarked, hi, haddr, ?_⟩
      rw [ConcolicMemory.concreteByte_congr hsame, hbits]

end Marks

/-! ## Walks -/

section Walks

variable (s : State)

theorem triple_markLeaf (paddr : BitVec 64) (type : MemoryAccessType) (onAD : Bool) :
    Triple (· = s) (markLeaf paddr (entryAt s.mem paddr) type onAD)
      (fun _ s' ↦ s' = s ∨ s' = { s with mem := markEntry s.mem paddr type })
      (fun _ s' ↦ s' = s) := by
  refine Triple.ite (fun _ ↦ Triple.ret fun _ h ↦ .inl h) fun _ ↦ ?_
  refine Triple.ite (fun _ ↦ Triple.ret fun _ h ↦ .inl h) fun _ ↦ ?_
  rw [concreteStoreData_eq]
  refine Triple.bind ?_ fun _ ↦ Triple.ret fun _ h ↦ h
  exact (triple_transportWrite s paddr _ 4).conseq (fun _ h ↦ h) (fun _ _ h ↦ .inr h.2)
    fun _ _ h ↦ h.1

theorem triple_walkLevels (root vaddr : BitVec 64) (type : MemoryAccessType)
    (sMode sum mxr onAD : Bool) (level : Nat) (base : BitVec 64) :
    Triple (· = s) (walkLevels (sv32 root) vaddr type sMode sum mxr onAD level base)
      (fun _ s' ↦ s' = s ∨ ∃ paddr, LeafBelow s.mem root vaddr level base paddr ∧
        s' = { s with mem := markEntry s.mem paddr type })
      (fun _ s' ↦ s' = s) := by
  induction level generalizing base with
  | zero => exact Triple.ret fun _ h ↦ .inl h
  | succ level ih =>
    refine Triple.bind ((triple_mmuLoadPte32 s _).conseq (fun _ h ↦ h) (fun _ _ h ↦ h)
      fun _ _ h ↦ h.1) fun pte ↦ Triple.of_start fun s' h ↦ ?_
    obtain ⟨rfl, rfl, -⟩ := h
    refine Triple.ite (fun _ ↦ Triple.ret fun _ h ↦ .inl h) fun hvalid ↦ ?_
    simp only [Bool.or_eq_true, Bool.not_eq_true', Bool.and_eq_true, not_or, Bool.not_eq_false]
      at hvalid
    refine Triple.ite (fun hnext ↦ ?_) fun hleaf ↦ ?_
    · simp only [Bool.not_eq_true', Bool.and_eq_true] at hnext
      refine (ih _).post fun _ s'' h ↦ h.imp_right ?_
      rintro ⟨paddr, hpaddr, h⟩
      exact ⟨paddr, .next hvalid.1 hnext.1 hnext.2 hpaddr, h⟩
    · simp only [Bool.not_eq_true', Bool.and_eq_true, not_and, Bool.not_eq_false] at hleaf
      refine Triple.ite (fun _ ↦ Triple.ret fun _ h ↦ .inl h) fun _ ↦
        Triple.ite (fun _ ↦ Triple.ret fun _ h ↦ .inl h) fun _ ↦ ?_
      refine Triple.bind ((triple_markLeaf s' _ type onAD).post fun _ s'' h ↦
        h.imp_right fun h ↦ ⟨_, .leaf hvalid.1 ?_, h⟩) fun marked ↦
        Triple.ite (fun _ ↦ Triple.ret fun _ h ↦ h) fun _ ↦ Triple.ret fun _ h ↦ h
      cases hR : (entryAt s'.mem (ptePaddr (sv32 root) vaddr base level)).R with
      | true => exact .inl rfl
      | false => exact .inr (hleaf hR)

/-- A walk marks the leaf entry of the page or nothing. -/
def LeafMarked (s : State) (vaddr : BitVec 64) (type : MemoryAccessType) (s' : State) : Prop :=
  s' = s ∨ ∃ paddr, s.LeafOf vaddr paddr ∧ s' = { s with mem := markEntry s.mem paddr type }

theorem triple_walk_leafMarked (onAD : Bool) (vaddr : BitVec 64) (type : MemoryAccessType)
    (mode : Nat) :
    Triple (· = s) (walk onAD vaddr type mode) (fun _ ↦ LeafMarked s vaddr type)
      (fun _ ↦ LeafMarked s vaddr type) := by
  refine Triple.read_bind fun s' hs' ↦ ?_
  rw [hs']
  refine Triple.bind ((triple_decodeVmInfo s mode).conseq (fun _ h ↦ h) (fun _ _ h ↦ h)
    fun _ _ h ↦ .inl h.1) fun vm ↦ Triple.of_start fun s' h ↦ ?_
  obtain ⟨rfl, rfl⟩ := h
  refine Triple.bind (Q := fun _ ↦ LeafMarked s' vaddr type)
    ((triple_walkLevels s' s'.pageTable vaddr type _ _ _ onAD _ _).conseq
    (fun _ h ↦ h) (fun _ s'' h ↦ h.imp_right ?_) fun _ _ h ↦ .inl h) fun paddr ↦ ?_
  · rintro ⟨paddr, hpaddr, h⟩
    split at hpaddr
    case isTrue => exact ⟨paddr, hpaddr, h⟩
    case isFalse => cases hpaddr
  · split
    · exact Triple.ret fun _ h ↦ h
    · exact Triple.raise fun _ h ↦ h

/-- What a translation does to the state: it may mark the leaf entry of the page, and remember the
page. -/
structure Walked (s : State) (vaddr : BitVec 64) (type : MemoryAccessType) (s' : State) : Prop where
  frame : s' = { s with mem := s'.mem, mmu := s'.mmu }
  mmu : s'.mmu = s.mmu ∨ s.mmu ≠ none ∧ ∃ mmu, s'.mmu = some mmu
  mem : s'.mem = s.mem ∨ (s.mmu ≠ none ∧ s.Translates type) ∧
    ∃ paddr, s.LeafOf vaddr paddr ∧ s'.mem = markEntry s.mem paddr type

theorem Walked.refl (vaddr : BitVec 64) (type : MemoryAccessType) : Walked s vaddr type s :=
  ⟨rfl, .inl rfl, .inl rfl⟩

theorem triple_translate {mmu : Mmu} (hmmu : s.mmu = some mmu) (vaddr : BitVec 64)
    (type : MemoryAccessType) :
    Triple (· = s) (translateVirtualToPhysicalAddr mmu vaddr type)
      (fun _ ↦ Walked s vaddr type) (fun _ ↦ Walked s vaddr type) := by
  have hsame : ∀ s', s' = s → Walked s vaddr type s' := by
    rintro _ rfl
    exact .refl _ vaddr type
  have hsome : s.mmu ≠ none := by
    rw [hmmu]
    exact Option.some_ne_none mmu
  refine Triple.read_bind fun s' hs' ↦ ?_
  rw [hs']
  refine Triple.ite (fun _ ↦ Triple.ret hsame) fun hsatp ↦
    Triple.ite (fun _ ↦ Triple.ret hsame) fun _ ↦ ?_
  have hsatp : s.csrs.satpMode = 1#1 := by
    generalize s.csrs.satpMode = mode at hsatp
    revert mode
    decide
  refine Triple.bind (triple_ensure (Q := fun _ s' ↦ s' = s ∧ s.accessMode type ≤ SupervisorMode)
    (fun s' h hmode ↦ ⟨h, Nat.le_one_iff_eq_zero_or_eq_one.mpr hmode⟩) fun s' h _ ↦ hsame s' h)
    fun _ ↦ Triple.of_start fun s' h ↦ ?_
  obtain ⟨rfl, hmode⟩ := h
  have hmarked : ∀ s'', LeafMarked s' vaddr type s'' → Walked s' vaddr type s'' := by
    rintro _ (rfl | ⟨paddr, hpaddr, rfl⟩)
    · exact .refl _ vaddr type
    · exact ⟨rfl, .inl rfl, .inr ⟨⟨hsome, hsatp, hmode⟩, paddr, hpaddr, rfl⟩⟩
  refine Triple.ite (fun _ ↦ Triple.ret hsame) fun _ ↦ ?_
  refine Triple.bind ((triple_walk_leafMarked s' mmu.pageFaultOnAD vaddr type _).conseq (fun _ h ↦ h)
    (fun _ ↦ hmarked) fun _ ↦ hmarked) fun paddr ↦ ?_
  refine Triple.bind (Triple.update fun s'' h ↦ ?_) fun _ ↦ Triple.ret fun _ h ↦ h
  refine ⟨?_, .inr ⟨hsome, _, rfl⟩, h.mem⟩
  have hframe := congrArg (fun t : State ↦ { t with
    mmu := some (mmu.setTlb (s'.accessMode type) type ((vaddr >>> PGSHIFT).toNat % TLB_ENTRIES)
      ⟨paddr &&& 0xfffff000#64, vaddr >>> PGSHIFT⟩) }) h.frame
  exact hframe

theorem triple_v2p_walked (vaddr : BitVec 64) (type : MemoryAccessType) :
    Triple (· = s) (v2p vaddr type) (fun _ ↦ Walked s vaddr type) (fun _ ↦ Walked s vaddr type) := by
  refine Triple.read_bind fun s' hs' ↦ ?_
  rw [hs']
  split
  case h_1 => exact Triple.ret fun _ h ↦ h ▸ .refl s vaddr type
  case h_2 mmu hmmu => exact triple_translate s hmmu vaddr type

end Walks

/-! ## Accesses -/

/-- A property that marks and remembered pages keep. -/
structure KeptByMarks (I : State → Prop) : Prop where
  mark : ∀ s paddr type, I s → I { s with mem := markEntry s.mem paddr type }
  mmu : ∀ s mmu, I s → s.mmu ≠ none → I { s with mmu := some mmu }

theorem KeptByMarks.walked {I : State → Prop} (hI : KeptByMarks I) {s s' : State}
    {vaddr : BitVec 64} {type : MemoryAccessType} (hs : I s) (h : Walked s vaddr type s') : I s' := by
  have hmem : I { s with mem := s'.mem } := by
    obtain hmem | ⟨-, paddr, -, hmem⟩ := h.mem
    · rw [hmem]
      exact hs
    · rw [hmem]
      exact hI.mark s paddr type hs
  rw [h.frame]
  obtain hmmu | ⟨hsome, mmu, hmmu⟩ := h.mmu
  · rw [hmmu]
    exact hmem
  · rw [hmmu]
    exact hI.mmu _ mmu hmem hsome

/-- A property that does not depend on the memory and the remembered pages. -/
structure IgnoresMemory (I : State → Prop) : Prop where
  mem : ∀ s mem, I s → I { s with mem := mem }
  mmu : ∀ s mmu, I s → I { s with mmu := mmu }

theorem IgnoresMemory.keptByMarks {I : State → Prop} (h : IgnoresMemory I) : KeptByMarks I where
  mark := fun s _ _ hs ↦ h.mem s _ hs
  mmu := fun s _ hs _ ↦ h.mmu s _ hs

section Accesses

variable {I : State → Prop}

theorem keeps_transportRead (addr : BitVec 64) (numBytes : Nat) :
    Keeps I (transportRead addr numBytes) := by
  refine Keeps.read_bind fun s hs ↦ Keeps.bind (keeps_raiseTrapIf _ _) fun _ ↦ ?_
  split
  · exact Keeps.ret _
  · exact Keeps.raise _

theorem keeps_concreteLoadData (addr : BitVec 64) (numBytes : Nat) :
    Keeps I (concreteLoadData addr numBytes) :=
  Keeps.bind (keeps_transportRead addr numBytes) fun _ ↦ Keeps.ret _

section Translated

variable {addr : ConcolicValue} (h : Keeps I (v2p ((getValue addr).setWidth 64) .STORE))

include h

/-- A load keeps what the translation of its address keeps. -/
theorem keeps_symbolicLoadData_of_v2p (numBytes : Nat) :
    Keeps I (symbolicLoadData addr numBytes) :=
  Keeps.bind h fun _ ↦ keeps_transportRead _ _

theorem keeps_loadSigned_of_v2p (numBytes : Nat) : Keeps I (loadSigned addr numBytes) :=
  Keeps.bind (keeps_symbolicLoadData_of_v2p h _) fun _ ↦ Keeps.ret _

theorem keeps_loadUnsigned_of_v2p (numBytes : Nat) : Keeps I (loadUnsigned addr numBytes) :=
  Keeps.bind (keeps_symbolicLoadData_of_v2p h _) fun _ ↦ Keeps.ret _

end Translated

theorem keeps_loadInstr_of_v2p {addr : BitVec 32} (h : Keeps I (v2p (addr.setWidth 64) .FETCH)) :
    Keeps I (loadInstr addr) :=
  Keeps.bind h fun _ ↦ Keeps.bind (keeps_concreteLoadData _ _) fun _ ↦ Keeps.ret _

variable (hI : KeptByMarks I)

include hI

theorem keeps_v2p (vaddr : BitVec 64) (type : MemoryAccessType) : Keeps I (v2p vaddr type) :=
  Triple.of_start fun s hs ↦ (triple_v2p_walked s vaddr type).conseq (fun _ h ↦ h)
    (fun _ _ h ↦ hI.walked hs h) fun _ _ h ↦ hI.walked hs h

theorem keeps_loadInstr (addr : BitVec 32) : Keeps I (loadInstr addr) :=
  keeps_loadInstr_of_v2p (keeps_v2p hI _ _)

theorem keeps_loadSigned (addr : ConcolicValue) (numBytes : Nat) :
    Keeps I (loadSigned addr numBytes) :=
  keeps_loadSigned_of_v2p (keeps_v2p hI _ _) numBytes

theorem keeps_loadUnsigned (addr : ConcolicValue) (numBytes : Nat) :
    Keeps I (loadUnsigned addr numBytes) :=
  keeps_loadUnsigned_of_v2p (keeps_v2p hI _ _) numBytes

end Accesses

theorem keeps_symbolicStoreData {I : State → Prop} (hI : IgnoresMemory I) (addr : ConcolicValue)
    (data : Option ConcolicValue) (numBytes : Nat) :
    Keeps I (symbolicStoreData addr data numBytes) := by
  refine Keeps.bind (keeps_v2p hI.keptByMarks _ _) fun _ ↦ ?_
  split
  · exact Keeps.read_bind fun _ _ ↦ Keeps.bind (keeps_raiseTrapIf _ _) fun _ ↦
      Keeps.update fun s hs ↦ hI.mem s _ hs
  · exact Keeps.raise _

end CoverageVP.Iss
