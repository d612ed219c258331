import CoverageVP.Iss.Tlb
import CoverageVP.Lib.Sv32

/-!
# Page walks follow the scheme

The MMU computes with 64-bit addresses, shifts and masks that serve several schemes. With the
parameters of Sv32 these are the fields of the scheme, so that a walk has the outcome that the
scheme prescribes, and changes no more than the accessed and dirty bits of the leaf entry.
-/

namespace CoverageVP.Iss

open Lib Clover

/-! ## The words of the scheme -/

def MemoryAccessType.access : MemoryAccessType → Sv32.Access
  | .FETCH => .fetch
  | .LOAD => .load
  | .STORE => .store

def Rights.sv32 (rights : Rights) : Sv32.Rights := ⟨rights.supervisor, rights.sum, rights.mxr⟩

/-- What the bus answers to a read of a page table entry. -/
def State.readEntry (s : State) (pa : BitVec 34) : Option Sv32.Entry :=
  if pa.toNat + 4 ≤ s.memSize then some (wordAt s.mem (pa.setWidth 32)) else none

/-- The translation that the scheme prescribes for an access. -/
def State.translation (s : State) (type : MemoryAccessType) (mode : Nat) (va : BitVec 32) :
    Sv32.Outcome :=
  Sv32.translate s.readEntry s.csrs.satpPpn type.access (s.csrs.rights mode).sv32 va

/-! ## Fields -/

section Fields

variable (word : BitVec 32) (va : BitVec 32) (ppn : BitVec 22)

theorem toNat_page : ((ppn.setWidth 64) <<< PGSHIFT).toNat = ppn.toNat * 4096 := by
  have hppn := ppn.isLt
  rw [BitVec.toNat_shiftLeft, BitVec.toNat_setWidth, Nat.shiftLeft_eq, PGSHIFT]
  omega

/-- The entry of a level lies where the scheme says. -/
theorem ptePaddr_eq_entryAddress (root : BitVec 64) {level : Nat} (hlevel : level ≤ 1) :
    ptePaddr (sv32 root) (va.setWidth 64) ((ppn.setWidth 64) <<< PGSHIFT) level =
      (Sv32.entryAddress ppn (Sv32.vpn va level)).setWidth 64 := by
  have hindex : ((va.setWidth 64 >>> PGSHIFT >>> (level * 10)) &&& 1023#64).toNat =
      (Sv32.vpn va level).toNat := by
    have hva := va.isLt
    rw [BitVec.toNat_and, BitVec.toNat_ushiftRight, BitVec.toNat_ushiftRight, BitVec.toNat_setWidth,
      Nat.shiftRight_eq_div_pow, Nat.shiftRight_eq_div_pow, PGSHIFT]
    change va.toNat % 2 ^ 64 / 2 ^ 12 / 2 ^ (level * 10) &&& (2 ^ 10 - 1) = _
    rw [Nat.and_two_pow_sub_one_eq_mod]
    rcases Nat.le_one_iff_eq_zero_or_eq_one.mp hlevel with rfl | rfl
    · rw [Sv32.vpn, if_pos rfl, Sv32.vpn₀, BitVec.extractLsb'_toNat, Nat.shiftRight_eq_div_pow]
      omega
    · rw [Sv32.vpn, if_neg (by decide), Sv32.vpn₁, BitVec.extractLsb'_toNat,
        Nat.shiftRight_eq_div_pow]
      omega
  have hppn := ppn.isLt
  have hvpn := (Sv32.vpn va level).isLt
  apply BitVec.eq_of_toNat_eq
  rw [ptePaddr_eq_pteAddress, pteAddress, BitVec.toNat_setWidth, Sv32.toNat_entryAddress,
    BitVec.toNat_add, BitVec.toNat_mul, hindex, toNat_page]
  change (ppn.toNat * 4096 + (Sv32.vpn va level).toNat * 4 % 2 ^ 64) % 2 ^ 64 = _
  omega

theorem entryAt_setWidth (m : ConcolicMemory) (pa : BitVec 34) :
    entryAt m (pa.setWidth 64) = ⟨(wordAt m (pa.setWidth 32)).setWidth 64⟩ := by
  rw [entryAt, BitVec.setWidth_setWidth_of_le _ (by decide)]

theorem ppn_eq : (⟨word.setWidth 64⟩ : Pte).ppn = (Sv32.Entry.ppn word).setWidth 64 := by
  have hword := word.isLt
  apply BitVec.eq_of_toNat_eq
  rw [Pte.ppn, BitVec.toNat_ushiftRight, BitVec.toNat_setWidth, BitVec.toNat_setWidth,
    Sv32.Entry.ppn, BitVec.extractLsb'_toNat, Nat.shiftRight_eq_div_pow, Nat.shiftRight_eq_div_pow,
    PTE_PPN_SHIFT]
  omega

/-- The rights that the MMU tests are those of the scheme. -/
theorem leafFault_eq (type : MemoryAccessType) (rights : Rights)
    (hvalid : ¬ (!Sv32.Entry.r word && Sv32.Entry.w word) = true) :
    leafFault ⟨word.setWidth 64⟩ type rights.supervisor rights.sum rights.mxr =
      !Sv32.Entry.allows word type.access rights.sv32 := by
  have hbit : ∀ i < 32, (word.setWidth 64).getLsbD i = word.getLsbD i := by
    intro i hi
    rw [BitVec.getLsbD_setWidth, decide_eq_true (by omega), Bool.true_and]
  rw [leafFault, Pte.X, Pte.R, Pte.W, Pte.U, hbit 1 (by decide), hbit 2 (by decide),
    hbit 3 (by decide), hbit 4 (by decide)]
  unfold Sv32.Entry.allows Rights.sv32
  unfold Sv32.Entry.r Sv32.Entry.w at hvalid ⊢
  unfold Sv32.Entry.x Sv32.Entry.u
  generalize word.getLsbD 1 = r, word.getLsbD 2 = w at hvalid ⊢
  generalize word.getLsbD 3 = x, word.getLsbD 4 = u, rights.supervisor = supervisor,
    rights.sum = sum, rights.mxr = mxr
  revert r w x u supervisor sum mxr
  cases type <;> decide

theorem misaligned_iff {level : Nat} (hlevel : level ≤ 1) :
    (⟨word.setWidth 64⟩ : Pte).ppn &&& ((1#64 <<< (level * 10)) - 1#64) ≠ 0#64 ↔
      level = 1 ∧ Sv32.Entry.ppn₀ word ≠ 0#10 := by
  rcases Nat.le_one_iff_eq_zero_or_eq_one.mp hlevel with rfl | rfl
  · simp
  · have hmask : (1#64 <<< (1 * 10)) - 1#64 = 1023#64 := by decide
    have hlow : (Sv32.Entry.ppn word).toNat % 2 ^ 10 = (Sv32.Entry.ppn₀ word).toNat := by
      have hword := word.isLt
      rw [Sv32.Entry.ppn, Sv32.Entry.ppn₀, BitVec.extractLsb'_toNat, BitVec.extractLsb'_toNat]
      omega
    rw [hmask, ppn_eq, BitVec.toNat_ne_iff_ne.symm, BitVec.toNat_and, BitVec.toNat_setWidth]
    change (Sv32.Entry.ppn word).toNat % 2 ^ 64 &&& (2 ^ 10 - 1) ≠ 0 ↔ _
    rw [Nat.and_two_pow_sub_one_eq_mod, BitVec.toNat_ne_iff_ne.symm]
    change _ ↔ 1 = 1 ∧ (Sv32.Entry.ppn₀ word).toNat ≠ 0
    have hppn := (Sv32.Entry.ppn word).isLt
    omega

/-- The address that a leaf entry translates to is that of the scheme. -/
theorem leafAddress_eq {level : Nat} (hlevel : level ≤ 1) :
    leafAddress ⟨word.setWidth 64⟩ (va.setWidth 64) (level * 10) =
      (Sv32.physicalAddress word va level).setWidth 64 := by
  have hoff : (0xfff#64) = (1#64 <<< 12) - 1#64 := by decide
  apply BitVec.eq_of_getLsbD_eq
  intro i hi
  unfold leafAddress
  rw [hoff]
  simp only [BitVec.getLsbD_or, BitVec.getLsbD_shiftLeft, BitVec.getLsbD_and, BitVec.getLsbD_not,
    getLsbD_lowMask, BitVec.getLsbD_ushiftRight, BitVec.getLsbD_setWidth, Pte.ppn, PGSHIFT,
    PTE_PPN_SHIFT]
  rcases Nat.le_one_iff_eq_zero_or_eq_one.mp hlevel with rfl | rfl
  · rw [Sv32.physicalAddress, if_pos rfl, BitVec.getLsbD_append, Sv32.Entry.ppn, Sv32.pgoff,
      BitVec.getLsbD_extractLsb', BitVec.getLsbD_extractLsb']
    grind
  · rw [Sv32.physicalAddress, if_neg (by decide), BitVec.getLsbD_append, BitVec.getLsbD_append,
      Sv32.Entry.ppn₁, Sv32.pgoff, Sv32.vpn₀, BitVec.getLsbD_extractLsb', BitVec.getLsbD_extractLsb',
      BitVec.getLsbD_extractLsb']
    grind

end Fields

/-- The memory after a successful translation by a leaf entry. -/
def markedLeaf (m : ConcolicMemory) (leaf : BitVec 34) (type : MemoryAccessType) : ConcolicMemory :=
  if (entryAt m (leaf.setWidth 64)).value &&& adBits type = adBits type then m
  else markEntry m (leaf.setWidth 64) type

section Marks

variable (m : ConcolicMemory) (leaf : BitVec 34) (type : MemoryAccessType)

/-- Bytes outside the leaf entry stay as they are. -/
theorem byteAt_markedLeaf {a : BitVec 32} (ha : 4 ≤ (a - leaf.setWidth 32).toNat) :
    (markedLeaf m leaf type).byteAt a = m.byteAt a := by
  unfold markedLeaf
  split
  · rfl
  · rw [markEntry, BitVec.setWidth_setWidth_of_le _ (by decide)]
    exact m.byteAt_store_of_le _ (by decide) ha

theorem concreteByte_markedLeaf_offset {i : Nat} (hi : i < 4) :
    (markedLeaf m leaf type).concreteByte (leaf.setWidth 32 + BitVec.ofNat 32 i) =
      m.concreteByte (leaf.setWidth 32 + BitVec.ofNat 32 i) |||
        if i = 0 then Sv32.Entry.marks type.access else 0#8 := by
  have hbyte : ∀ i < 4, ((adBits type).setWidth 32).extractLsb' (i * 8) 8 =
      if i = 0 then Sv32.Entry.marks type.access else 0#8 := by
    cases type <;> decide
  have hword : (entryAt m (leaf.setWidth 64)).value = (wordAt m (leaf.setWidth 32)).setWidth 64 :=
    congrArg Pte.value (entryAt_setWidth m leaf)
  have hor : ∀ x : BitVec 32, x.extractLsb' (i * 8) 8 ||| ((adBits type).setWidth 32).extractLsb'
      (i * 8) 8 = (x ||| (adBits type).setWidth 32).extractLsb' (i * 8) 8 :=
    fun x ↦ BitVec.extractLsb'_or.symm
  rw [← hbyte i hi, ← extract_wordAt m _ hi, hor]
  unfold markedLeaf
  split
  case isTrue hset =>
    have hsame : wordAt m (leaf.setWidth 32) ||| (adBits type).setWidth 32 =
        wordAt m (leaf.setWidth 32) := by
      rw [hword] at hset
      have hset32 := congrArg (BitVec.setWidth 32) hset
      rw [BitVec.setWidth_and, BitVec.setWidth_setWidth_of_le _ (by decide),
        BitVec.setWidth_eq] at hset32
      rw [← hset32]
      apply BitVec.eq_of_getLsbD_eq
      intro j _
      rw [BitVec.getLsbD_or, BitVec.getLsbD_and]
      cases (wordAt m (leaf.setWidth 32)).getLsbD j <;> rfl
    rw [hsame, extract_wordAt m _ hi]
  case isFalse =>
    rw [markEntry, BitVec.setWidth_setWidth_of_le _ (by decide),
      ConcolicMemory.concreteByte_store _ _ _ (by decide) (Nat.le_refl 32) hi, constant_eq,
      hword, BitVec.setWidth_or, BitVec.setWidth_setWidth_of_le _ (by decide), BitVec.setWidth_eq]

/-- No bits but the accessed and the dirty bit of the leaf entry are set. -/
theorem concreteByte_markedLeaf (a : BitVec 32) :
    (markedLeaf m leaf type).concreteByte a =
      m.concreteByte a ||| if a = leaf.setWidth 32 then Sv32.Entry.marks type.access else 0#8 := by
  by_cases hin : (a - leaf.setWidth 32).toNat < 4
  · obtain ⟨i, hi, rfl⟩ : ∃ i < 4, a = leaf.setWidth 32 + BitVec.ofNat 32 i :=
      ⟨_, hin, (ConcolicMemory.eq_add_ofNat_iff _ _ (by omega)).mpr rfl⟩
    have hzero : leaf.setWidth 32 + BitVec.ofNat 32 i = leaf.setWidth 32 ↔ i = 0 := by
      have hiff := ConcolicMemory.eq_add_ofNat_iff (leaf.setWidth 32) (leaf.setWidth 32)
        (show i < 2 ^ 32 by omega)
      rw [BitVec.sub_self] at hiff
      exact ⟨fun h ↦ (hiff.mp h.symm).symm, fun h ↦ (hiff.mpr h.symm).symm⟩
    rw [concreteByte_markedLeaf_offset m leaf type hi]
    simp only [hzero]
  · have hne : a ≠ leaf.setWidth 32 := by
      rintro rfl
      rw [BitVec.sub_self] at hin
      exact hin (by decide)
    rw [if_neg hne, BitVec.or_zero,
      ConcolicMemory.concreteByte_congr (byteAt_markedLeaf m leaf type (Nat.not_lt.mp hin))]

end Marks

/-! ## Walks -/

section Walk

variable (s : State) (type : MemoryAccessType)

theorem triple_markLeaf_sv32 {leaf : BitVec 34} (hrange : leaf.toNat + 4 ≤ s.memSize) :
    Triple (· = s)
      (markLeaf (leaf.setWidth 64) (entryAt s.mem (leaf.setWidth 64)) type false)
      (fun marked s' ↦ marked = true ∧ s' = { s with mem := markedLeaf s.mem leaf type })
      fun _ _ ↦ False := by
  have hleaf : (leaf.setWidth 64).toNat = leaf.toNat := by
    have hlt := leaf.isLt
    rw [BitVec.toNat_setWidth]
    omega
  refine Triple.ite (fun hset ↦ Triple.ret fun s' h ↦ ?_) fun hset ↦ Triple.ite nofun fun _ ↦ ?_
  · rw [h, markedLeaf, if_pos hset]
    exact ⟨rfl, rfl⟩
  · rw [concreteStoreData_eq]
    refine Triple.bind ((triple_transportWrite s _ _ 4).conseq (fun _ h ↦ h) (fun _ _ h ↦ h.2)
      fun _ _ h ↦ ?_) fun _ ↦ Triple.ret fun s' h ↦ ?_
    · exact Nat.not_lt.mpr hrange (hleaf ▸ h.2.1)
    · rw [h, markedLeaf, if_neg hset]
      exact ⟨rfl, rfl⟩

/-- What the levels of a walk answer and do, given the outcome that the scheme prescribes. -/
def WalkedAs (outcome : Sv32.Outcome) (paddr : Option (BitVec 64)) (s' : State) : Prop :=
  match outcome with
  | .pageFault => paddr = none ∧ s' = s
  | .accessFault _ => False
  | .translated pa leaf _ =>
    paddr = some (pa.setWidth 64) ∧ s' = { s with mem := markedLeaf s.mem leaf type }

theorem triple_walkLevels_sv32 (root : BitVec 64) (va : BitVec 32) (rights : Rights) {level : Nat}
    (hlevel : level ≤ 2) (ppn : BitVec 22) :
    Triple (· = s)
      (walkLevels (sv32 root) (va.setWidth 64) type rights.supervisor rights.sum rights.mxr false
        level ((ppn.setWidth 64) <<< PGSHIFT))
      (WalkedAs s type (Sv32.walk s.readEntry type.access rights.sv32 va level ppn))
      (fun e s' ↦ s' = s ∧ ∃ entry, e = .trap .LOAD_PAGE_FAULT (entry.setWidth 64) ∧
        Sv32.walk s.readEntry type.access rights.sv32 va level ppn = .accessFault entry) := by
  induction level generalizing ppn with
  | zero => exact Triple.ret fun s' h ↦ ⟨rfl, h⟩
  | succ level ih =>
    have hlevel' : level ≤ 1 := Nat.le_of_succ_le_succ hlevel
    rw [walkLevels, ptePaddr_eq_entryAddress va ppn root hlevel', Sv32.walk]
    set entry := Sv32.entryAddress ppn (Sv32.vpn va level) with hentry
    have htoNat : (entry.setWidth 64).toNat = entry.toNat := by
      have hlt := entry.isLt
      rw [BitVec.toNat_setWidth]
      omega
    have hidx : (sv32 root).idxbits = 10 := rfl
    refine Triple.bind ((triple_mmuLoadPte32 s _).conseq (fun _ h ↦ h) (fun _ _ h ↦ h)
      fun e s' h ↦ ?_) fun pte ↦ Triple.of_start fun s' h ↦ ?_
    · rw [State.readEntry, if_neg (Nat.not_le.mpr (htoNat ▸ h.2.1))]
      exact ⟨h.1, entry, h.2.2, rfl⟩
    obtain ⟨rfl, hpte, hrange⟩ := h
    rw [htoNat] at hrange
    rw [State.readEntry, if_pos hrange]
    rw [entryAt_setWidth] at hpte
    obtain ⟨word, hword⟩ : ∃ word, wordAt s'.mem (entry.setWidth 32) = word := ⟨_, rfl⟩
    rw [hword] at hpte ⊢
    have hmark := triple_markLeaf_sv32 s' type hrange
    rw [entryAt_setWidth, hword, ← hpte] at hmark
    have hbit : ∀ i < 32, (word.setWidth 64).getLsbD i = word.getLsbD i := by
      intro i hi
      rw [BitVec.getLsbD_setWidth, decide_eq_true (by omega), Bool.true_and]
    have hstop : Triple (· = s') (pure none : IssM (Option (BitVec 64)))
        (WalkedAs s' type .pageFault) fun e s'' ↦ s'' = s' ∧ ∃ entry,
          e = .trap .LOAD_PAGE_FAULT (entry.setWidth 64) ∧ Sv32.Outcome.pageFault =
            .accessFault entry :=
      Triple.ret fun _ h ↦ ⟨rfl, h⟩
    have hV : pte.V = Sv32.Entry.v word := hpte ▸ hbit 0 (by decide)
    have hR : pte.R = Sv32.Entry.r word := hpte ▸ hbit 1 (by decide)
    have hW : pte.W = Sv32.Entry.w word := hpte ▸ hbit 2 (by decide)
    have hX : pte.X = Sv32.Entry.x word := hpte ▸ hbit 3 (by decide)
    simp only [hidx, hV, hR, hW, hX]
    split
    case isTrue => exact hstop
    case isFalse hvalid =>
      have hreserved : ¬ (!Sv32.Entry.r word && Sv32.Entry.w word) = true := by
        intro h
        exact hvalid (by rw [h, Bool.or_true])
      by_cases hleaf : (Sv32.Entry.r word || Sv32.Entry.x word) = true
      · have hnext : ¬ (!Sv32.Entry.r word && !Sv32.Entry.x word) = true := by
          rw [← Bool.not_or, hleaf]
          decide
        rw [if_neg hnext, if_pos hleaf, Sv32.checkLeaf, hpte, leafFault_eq word type rights hreserved]
        refine Triple.ite (fun hfault ↦ ?_) fun hfault ↦ ?_
        · rw [if_pos hfault]
          exact hstop
        rw [if_neg hfault]
        refine Triple.ite (fun hmisaligned ↦ ?_) fun hmisaligned ↦ ?_
        · rw [if_pos ((misaligned_iff word hlevel').mp hmisaligned)]
          exact hstop
        rw [if_neg (mt (misaligned_iff word hlevel').mpr hmisaligned), ← hpte]
        refine Triple.bind (hmark.conseq (fun _ h ↦ h) (fun _ _ h ↦ h) fun _ _ h ↦ h.elim)
          fun marked ↦ Triple.of_start fun s'' h ↦ ?_
        obtain ⟨rfl, rfl⟩ := h
        rw [hpte, leafAddress_eq word va hlevel']
        exact Triple.ret fun _ h ↦ ⟨rfl, h⟩
      · have hnext : (!Sv32.Entry.r word && !Sv32.Entry.x word) = true := by
          rw [← Bool.not_or, Bool.eq_false_iff.mpr hleaf]
          rfl
        rw [if_pos hnext, if_neg hleaf, hpte, ppn_eq]
        exact ih (Nat.le_of_succ_le hlevel) _

/-- What a walk answers and does, given the outcome that the scheme prescribes. -/
theorem triple_walk_sv32 (hsatp : s.csrs.satpMode = 1#1) (va : BitVec 32) {mode : Nat}
    (hmode : mode ≤ SupervisorMode) :
    Triple (· = s) (walk false (va.setWidth 64) type mode)
      (fun paddr s' ↦ WalkedAs s type (s.translation type mode va) (some paddr) s')
      (fun e s' ↦ s' = s ∧
        ((s.translation type mode va = .pageFault ∧
            e = .trap (pageFault type) (va.setWidth 64)) ∨
          ∃ entry, s.translation type mode va = .accessFault entry ∧
            e = .trap .LOAD_PAGE_FAULT (entry.setWidth 64))) := by
  have hlevels := triple_walkLevels_sv32 s type s.pageTable va (s.csrs.rights mode) (Nat.le_refl 2)
    s.csrs.satpPpn
  refine (triple_walk_of_levels hsatp hmode hlevels).conseq (fun _ h ↦ h) (fun _ _ h ↦ h)
    fun e s' h ↦ ?_
  rcases h with ⟨hs', entry, he, hentry⟩ | ⟨h, rfl⟩
  · exact ⟨hs', .inr ⟨entry, hentry, he⟩⟩
  · change WalkedAs s type (s.translation type mode va) none s' at h
    cases houtcome : s.translation type mode va with
    | pageFault =>
      rw [houtcome] at h
      exact ⟨h.2, .inl ⟨rfl, rfl⟩⟩
    | accessFault entry =>
      rw [houtcome] at h
      exact h.elim
    | translated pa leaf pte =>
      rw [houtcome] at h
      exact absurd h.1 (Option.some_ne_none _).symm

/-- A walk that finds a page returns its address and marks the leaf entry. -/
theorem walk_of_translated (hsatp : s.csrs.satpMode = 1#1) {va : BitVec 32} {mode : Nat}
    (hmode : mode ≤ SupervisorMode) {pa leaf : BitVec 34} {pte : Sv32.Entry}
    (h : s.translation type mode va = .translated pa leaf pte) :
    walk false (va.setWidth 64) type mode s =
      .ok (pa.setWidth 64) { s with mem := markedLeaf s.mem leaf type } := by
  have hwalk := triple_walk_sv32 s type hsatp va hmode s rfl
  rw [h] at hwalk
  cases hrun : walk false (va.setWidth 64) type mode s with
  | ok paddr s' =>
    rw [hrun] at hwalk
    obtain ⟨hpaddr, rfl⟩ := hwalk
    rw [Option.some.inj hpaddr]
  | error e s' =>
    rw [hrun] at hwalk
    rcases hwalk.2 with h' | ⟨entry, h', -⟩
    · exact nomatch h'.1
    · exact nomatch h'

/-- A walk that finds no page raises the page fault of the access. -/
theorem walk_of_pageFault (hsatp : s.csrs.satpMode = 1#1) {va : BitVec 32} {mode : Nat}
    (hmode : mode ≤ SupervisorMode) (h : s.translation type mode va = .pageFault) :
    walk false (va.setWidth 64) type mode s =
      .error (.trap (pageFault type) (va.setWidth 64)) s := by
  have hwalk := triple_walk_sv32 s type hsatp va hmode s rfl
  rw [h] at hwalk
  cases hrun : walk false (va.setWidth 64) type mode s with
  | ok paddr s' =>
    rw [hrun] at hwalk
    exact absurd hwalk.1 (Option.some_ne_none _)
  | error e s' =>
    rw [hrun] at hwalk
    rcases hwalk.2 with h' | ⟨entry, h', -⟩
    · rw [hwalk.1, h'.2]
    · exact nomatch h'

/-- A walk whose read of an entry fails raises a load page fault with the address of the entry. -/
theorem walk_of_accessFault (hsatp : s.csrs.satpMode = 1#1) {va : BitVec 32} {mode : Nat}
    (hmode : mode ≤ SupervisorMode) {entry : BitVec 34}
    (h : s.translation type mode va = .accessFault entry) :
    walk false (va.setWidth 64) type mode s =
      .error (.trap .LOAD_PAGE_FAULT (entry.setWidth 64)) s := by
  have hwalk := triple_walk_sv32 s type hsatp va hmode s rfl
  rw [h] at hwalk
  cases hrun : walk false (va.setWidth 64) type mode s with
  | ok paddr s' =>
    rw [hrun] at hwalk
    exact hwalk.elim
  | error e s' =>
    rw [hrun] at hwalk
    rcases hwalk.2 with h' | ⟨entry', h', he⟩
    · exact nomatch h'.1
    · cases h'
      rw [hwalk.1, he]

end Walk

/-- A walk returns the address or raises the page fault that the scheme prescribes, and changes
nothing but the accessed and dirty bits of the leaf entry. -/
theorem walk_as_sv32 (s : State) (hsatp : s.csrs.satpMode = 1#1) (va : BitVec 32)
    (type : MemoryAccessType) (mode : Nat) (hmode : mode = UserMode ∨ mode = SupervisorMode)
    (hreads : ∀ entry, s.translation type mode va ≠ .accessFault entry) :
    (∃ pa leaf pte m, s.translation type mode va = .translated pa leaf pte ∧
      walk false (va.setWidth 64) type mode s = .ok (pa.setWidth 64) { s with mem := m } ∧
      (∀ a, m.concreteByte a = s.mem.concreteByte a |||
        if a = leaf.setWidth 32 then Sv32.Entry.marks type.access else 0#8) ∧
      ∀ a, 4 ≤ (a - leaf.setWidth 32).toNat → m.byteAt a = s.mem.byteAt a) ∨
    (s.translation type mode va = .pageFault ∧
      walk false (va.setWidth 64) type mode s =
        .error (.trap (pageFault type) (va.setWidth 64)) s) := by
  have hle : mode ≤ SupervisorMode := by
    rcases hmode with rfl | rfl <;> decide
  cases houtcome : s.translation type mode va with
  | pageFault => exact .inr ⟨rfl, walk_of_pageFault s type hsatp hle houtcome⟩
  | accessFault entry => exact absurd houtcome (hreads entry)
  | translated pa leaf pte =>
    refine .inl ⟨pa, leaf, pte, _, rfl, walk_of_translated s type hsatp hle houtcome, ?_, ?_⟩
    · exact concreteByte_markedLeaf s.mem leaf type
    · intro a ha
      exact byteAt_markedLeaf s.mem leaf type ha

theorem walk_as_sv32_userPage :
    userPageState.translation .LOAD SupervisorMode 4#32 = .translated 4#34 0#34 0xd7#32 ∧
    ((∃ pa leaf pte m, userPageState.translation .LOAD SupervisorMode 4#32 =
        .translated pa leaf pte ∧
      walk false ((4#32).setWidth 64) .LOAD SupervisorMode userPageState =
        .ok (pa.setWidth 64) { userPageState with mem := m } ∧
      (∀ a, m.concreteByte a = userPageState.mem.concreteByte a |||
        if a = leaf.setWidth 32 then Sv32.Entry.marks MemoryAccessType.LOAD.access else 0#8) ∧
      ∀ a, 4 ≤ (a - leaf.setWidth 32).toNat → m.byteAt a = userPageState.mem.byteAt a) ∨
    (userPageState.translation .LOAD SupervisorMode 4#32 = .pageFault ∧
      walk false ((4#32).setWidth 64) .LOAD SupervisorMode userPageState =
        .error (.trap (pageFault .LOAD) ((4#32).setWidth 64)) userPageState)) := by
  have htranslated :
      userPageState.translation .LOAD SupervisorMode 4#32 = .translated 4#34 0#34 0xd7#32 := by
    decide +kernel
  refine ⟨htranslated, walk_as_sv32 userPageState (by decide +kernel) 4#32 .LOAD SupervisorMode
    (.inr rfl) fun entry h ↦ ?_⟩
  rw [htranslated] at h
  exact nomatch h

end CoverageVP.Iss
