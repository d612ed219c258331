import CoverageVP.Iss.Accesses
import CoverageVP.Iss.FrontEnd

/-!
# The bytes of a fetched instruction

A fetch translates the address of the first byte and reads four bytes from there. These are the
bytes of the instruction unless it continues on another page, and they may lie beyond the end of the
memory although the instruction does not.
-/

namespace CoverageVP.Iss

open Lib Clover Instr

/-! ## Addresses of one page -/

/-- Cached pages start at multiples of the page size. -/
def State.PagesAligned (s : State) : Prop :=
  ∀ mmu, s.mmu = some mmu → ∀ mode type vaddr, mmu.Caches mode type vaddr →
    (mmu.lookup mode type vaddr).ppn &&& 0xfff#64 = 0#64

theorem pagesAligned_of_flushed {s : State} {mmu : Mmu} (h : s.mmu = some mmu.flush) :
    s.PagesAligned := by
  intro mmu' hmmu' mode type vaddr hcaches
  cases h.symm.trans hmmu'
  exact absurd hcaches (mmu.not_caches_flush mode type vaddr)

theorem setWidth_add_offset {va : BitVec 32} {i : Nat} (h : va.toNat % 4096 + i < 4096) :
    (va + BitVec.ofNat 32 i).setWidth 64 = va.setWidth 64 + BitVec.ofNat 64 i := by
  have hva := va.isLt
  apply BitVec.eq_of_toNat_eq
  rw [BitVec.toNat_setWidth, Sv32.toNat_add_offset h, BitVec.toNat_add, BitVec.toNat_setWidth,
    BitVec.toNat_ofNat]
  omega

/-- The page number does not depend on the offset. -/
theorem vpn_add_offset {va : BitVec 32} {i : Nat} (h : va.toNat % 4096 + i < 4096) :
    (va + BitVec.ofNat 32 i).setWidth 64 >>> PGSHIFT = va.setWidth 64 >>> PGSHIFT := by
  have hva := va.isLt
  apply BitVec.eq_of_toNat_eq
  rw [BitVec.toNat_ushiftRight, BitVec.toNat_ushiftRight, BitVec.toNat_setWidth,
    BitVec.toNat_setWidth, Sv32.toNat_add_offset h, Nat.shiftRight_eq_div_pow,
    Nat.shiftRight_eq_div_pow, PGSHIFT]
  omega

theorem toNat_and_offset (x : BitVec 64) : (x &&& 0xfff#64).toNat = x.toNat % 4096 := by
  rw [BitVec.toNat_and]
  exact Nat.and_two_pow_sub_one_eq_mod x.toNat 12

theorem toNat_page_or_offset {page : BitVec 64} (h : page &&& 0xfff#64 = 0#64) (x : BitVec 64) :
    (page ||| (x &&& 0xfff#64)).toNat = page.toNat + x.toNat % 4096 ∧ page.toNat % 4096 = 0 := by
  have hdisjoint : page &&& (x &&& 0xfff#64) = 0#64 := by
    rw [BitVec.and_comm x, ← BitVec.and_assoc, h, BitVec.zero_and]
  have hpage : page.toNat % 4096 = 0 := by
    rw [← toNat_and_offset, h]
    rfl
  have hlt := page.isLt
  refine ⟨?_, hpage⟩
  rw [← BitVec.add_eq_or_of_and_eq_zero _ _ hdisjoint, BitVec.toNat_add, toNat_and_offset]
  omega

section OnePage

variable {s : State} (hs : s.Walkable) (hpages : s.PagesAligned)

include hs hpages

/-- The addresses of a page are translated to those of its frame. -/
theorem v2p_add {type : MemoryAccessType} {va : BitVec 32} {i : Nat}
    (h : va.toNat % 4096 + i < 4096) {paddr : BitVec 64} {s' : State}
    (hrun : v2p (va.setWidth 64) type s = .ok paddr s') :
    paddr.toNat + i < 2 ^ 64 ∧ s'.memSize = s.memSize ∧
      ∃ mmu, v2p ((va + BitVec.ofNat 32 i).setWidth 64) type s =
        .ok (paddr + BitVec.ofNat 64 i) { s' with mmu := mmu } := by
  by_cases huntranslated : s.Untranslated type
  · rw [v2p_of_untranslated huntranslated] at hrun ⊢
    cases hrun
    have hva := va.isLt
    rw [BitVec.toNat_setWidth, setWidth_add_offset h]
    exact ⟨by omega, rfl, s.mmu, rfl⟩
  obtain ⟨mmu, hmmu, -, htranslates⟩ := hs.translates huntranslated
  by_cases hcached : s.CachesPage type va
  · obtain ⟨mmu', hmmu', hcaches⟩ := hcached
    cases hmmu.symm.trans hmmu'
    have hcaches' : mmu.Caches (s.accessMode type) type
        ((va + BitVec.ofNat 32 i).setWidth 64) := by
      rw [Mmu.Caches, Mmu.lookup, vpn_add_offset h]
      exact hcaches
    have hlookup : mmu.lookup (s.accessMode type) type ((va + BitVec.ofNat 32 i).setWidth 64) =
        mmu.lookup (s.accessMode type) type (va.setWidth 64) := by
      rw [Mmu.lookup, vpn_add_offset h, Mmu.lookup]
    have hpage := hpages mmu hmmu _ _ _ hcaches
    rw [v2p_of_mmu hmmu, translate_of_translates mmu htranslates, if_pos hcaches] at hrun
    rw [v2p_of_mmu hmmu, translate_of_translates mmu htranslates, if_pos hcaches', hlookup]
    cases hrun
    generalize (mmu.lookup (s.accessMode type) type (va.setWidth 64)).ppn = page at hpage ⊢
    obtain ⟨hsum, haligned⟩ := toNat_page_or_offset hpage (va.setWidth 64)
    obtain ⟨hsum', -⟩ := toNat_page_or_offset hpage ((va + BitVec.ofNat 32 i).setWidth 64)
    have hva := va.isLt
    have hlt := page.isLt
    have hnext : page ||| ((va + BitVec.ofNat 32 i).setWidth 64 &&& 0xfff#64) =
        (page ||| (va.setWidth 64 &&& 0xfff#64)) + BitVec.ofNat 64 i := by
      apply BitVec.eq_of_toNat_eq
      rw [hsum', BitVec.toNat_add, hsum, BitVec.toNat_setWidth, BitVec.toNat_setWidth,
        Sv32.toNat_add_offset h, BitVec.toNat_ofNat]
      omega
    rw [hsum, hnext, BitVec.toNat_setWidth]
    exact ⟨by omega, rfl, s.mmu, rfl⟩
  · have hcached' : ¬ s.CachesPage type (va + BitVec.ofNat 32 i) := by
      rintro ⟨mmu', hmmu', hcaches⟩
      rw [Mmu.Caches, Mmu.lookup, vpn_add_offset h] at hcaches
      exact hcached ⟨mmu', hmmu', hcaches⟩
    have hfirst := v2p_of_not_cachesPage hs huntranslated hcached
    have hnext := v2p_of_not_cachesPage hs huntranslated hcached'
    have hshift : s.prescribed type (va + BitVec.ofNat 32 i) = (s.prescribed type va).shift i :=
      Sv32.walk_add h _ _ _ _ _
    rw [hshift] at hnext
    cases houtcome : s.prescribed type va with
    | pageFault =>
      rw [houtcome, hrun] at hfirst
      cases hfirst
    | accessFault entry =>
      rw [houtcome, hrun] at hfirst
      cases hfirst
    | translated pa leaf pte =>
      rw [houtcome] at hfirst hnext
      obtain ⟨mmu₁, hfirst⟩ := hfirst
      obtain ⟨mmu₂, hnext⟩ := hnext
      cases hrun.symm.trans hfirst
      have hoffset : pa.toNat % 4096 = va.toNat % 4096 := Sv32.walk_offset houtcome
      have hpa := pa.isLt
      have hsum : (pa + BitVec.ofNat 34 i).setWidth 64 = pa.setWidth 64 + BitVec.ofNat 64 i := by
        apply BitVec.eq_of_toNat_eq
        rw [BitVec.toNat_setWidth, BitVec.toNat_add, BitVec.toNat_add, BitVec.toNat_setWidth,
          BitVec.toNat_ofNat, BitVec.toNat_ofNat]
        omega
      rw [hnext, hsum, BitVec.toNat_setWidth]
      exact ⟨by omega, rfl, mmu₂, rfl⟩

end OnePage

/-! ## Fetches -/

/-- The byte of the memory at the translation of an address in the code. -/
def State.fetchByte (s : State) (pc : BitVec 32) (i : Nat) : Option (BitVec 8) :=
  match v2p ((pc + BitVec.ofNat 32 i).setWidth 64) .FETCH s with
  | .ok paddr s' =>
    if paddr.toNat < s'.memSize then some (s'.mem.concreteByte (paddr.setWidth 32)) else none
  | .error _ _ => none

/-- The bytes of an instruction stand at an address. -/
def State.HasInstr (s : State) (pc : BitVec 32) (word : Instruction) : Prop :=
  ∀ i < (instrLength word).toNat, s.fetchByte pc i = some (word.extractLsb' (i * 8) 8)

/-- A fetch reads the bytes of the instruction, and needs no others. -/
structure FetchesInstr (s : State) (pc : BitVec 32) : Prop where
  bytes : ∀ word, result (loadInstr pc) s = some word → s.HasInstr pc word
  returns : ∀ word, s.HasInstr pc word → returns (loadInstr pc) s = true

/-- The four bytes that are read in a frame make no difference: those after a compressed instruction
are in the memory, and those of the second half of an instruction that continues on the next page
are the bytes of that page. -/
def State.FrameHasInstr (s : State) (pc : BitVec 32) : Prop :=
  ∀ paddr s', v2p (pc.setWidth 64) .FETCH s = .ok paddr s' →
    let word : Instruction := wordAt s'.mem (paddr.setWidth 32)
    paddr.toNat + 2 ≤ s.memSize →
    (word.isCompressed = true → paddr.toNat + 4 ≤ s.memSize) ∧
    (word.isCompressed = false → pc.toNat % 4096 = 4094 →
      if paddr.toNat + 4 ≤ s.memSize then
        s.fetchByte pc 2 = some (word.extractLsb' 16 8) ∧
          s.fetchByte pc 3 = some (word.extractLsb' 24 8)
      else s.fetchByte pc 2 = none ∨ s.fetchByte pc 3 = none)

theorem loadInstr_of_v2p {s s' : State} {pc : BitVec 32} {paddr : BitVec 64}
    (hrun : v2p (pc.setWidth 64) .FETCH s = .ok paddr s') :
    loadInstr pc s =
      if paddr.toNat + 4 ≤ s'.memSize then .ok (wordAt s'.mem (paddr.setWidth 32)) s'
      else .error (.trap .LOAD_PAGE_FAULT paddr) s' := by
  have hload := triple_concreteLoadData s' paddr (show 0 < 4 by decide) s' rfl
  change EStateM.bind (v2p (pc.setWidth 64) .FETCH) (fun paddr ↦
    EStateM.bind (concreteLoadData paddr 4) fun word ↦ pure (BitVec.ofNat 32 word)) s = _
  rw [EStateM.bind, hrun]
  dsimp only
  rw [EStateM.bind]
  cases hread : concreteLoadData paddr 4 s' with
  | ok value s'' =>
    rw [hread] at hload
    obtain ⟨rfl, hrange, rfl⟩ := hload
    have hword : BitVec.ofNat 32 (natAt s''.mem (paddr.setWidth 32) 4) =
        wordAt s''.mem (paddr.setWidth 32) := by
      rw [← toNat_wordAt, BitVec.ofNat_toNat, BitVec.setWidth_eq]
    rw [if_pos hrange, ← hword]
    rfl
  | error e s'' =>
    rw [hread] at hload
    obtain ⟨rfl, hrange, rfl⟩ := hload
    rw [if_neg (Nat.not_le.mpr hrange)]

theorem instrLength_of_isCompressed {word : Instruction} (h : word.isCompressed = true) :
    (instrLength word).toNat = 2 := by
  rw [instrLength, if_pos h]
  rfl

theorem instrLength_of_not_isCompressed {word : Instruction} (h : word.isCompressed = false) :
    (instrLength word).toNat = 4 := by
  rw [instrLength, h]
  rfl

theorem two_le_instrLength (word : Instruction) : 2 ≤ (instrLength word).toNat := by
  unfold instrLength
  split <;> decide

theorem instrLength_le_four (word : Instruction) : (instrLength word).toNat ≤ 4 := by
  unfold instrLength
  split <;> decide

/-- A word with given bytes. -/
theorem exists_word_of_bytes (b : Nat → BitVec 8) :
    ∃ word : Instruction, ∀ i < 4, word.extractLsb' (i * 8) 8 = b i := by
  refine ⟨b 3 ++ (b 2 ++ (b 1 ++ b 0)), fun i hi ↦ ?_⟩
  apply BitVec.eq_of_getLsbD_eq
  intro j hj
  rw [BitVec.getLsbD_extractLsb']
  simp only [BitVec.getLsbD_append, hj, decide_true, Bool.true_and]
  match i, hi with
  | 0, _ => grind
  | 1, _ => grind
  | 2, _ => grind
  | 3, _ => grind

/-- Whether an instruction is compressed is seen from its first byte. -/
theorem isCompressed_of_byte {word word' : Instruction}
    (h : word.extractLsb' (0 * 8) 8 = word'.extractLsb' (0 * 8) 8) :
    word.isCompressed = word'.isCompressed := by
  have hlow : ∀ w : Instruction, w.quadrant.toNat = (w.extractLsb' (0 * 8) 8).toNat % 4 := by
    intro w
    rw [Instruction.quadrant, BitVec.toNat_and, BitVec.extractLsb'_toNat, Nat.zero_mul,
      Nat.shiftRight_zero, Nat.mod_mod_of_dvd _ (by decide)]
    exact Nat.and_two_pow_sub_one_eq_mod w.toNat 2
  rw [Instruction.isCompressed, Instruction.isCompressed, hlow, hlow, h]

section Fetch

variable {s s' : State} (hs : s.Walkable) (hpages : s.PagesAligned) {pc : BitVec 32}
  {paddr : BitVec 64} (hrun : v2p (pc.setWidth 64) .FETCH s = .ok paddr s')

include hs hpages hrun

/-- On the page of the first byte, the bytes are those of the word in the frame. -/
theorem fetchByte_of_v2p {i : Nat} (hi : i < 4) (h : pc.toNat % 4096 + i < 4096) :
    s.fetchByte pc i =
      if paddr.toNat + i < s.memSize then
        some ((wordAt s'.mem (paddr.setWidth 32)).extractLsb' (i * 8) 8)
      else none := by
  obtain ⟨hlt, hsize, mmu, hrun'⟩ := v2p_add hs hpages h hrun
  have htoNat : (paddr + BitVec.ofNat 64 i).toNat = paddr.toNat + i := by
    rw [BitVec.toNat_add, BitVec.toNat_ofNat]
    omega
  have haddr : (paddr + BitVec.ofNat 64 i).setWidth 32 = paddr.setWidth 32 + BitVec.ofNat 32 i := by
    rw [BitVec.setWidth_add _ _ (by decide), BitVec.setWidth_ofNat_of_le (by decide)]
  rw [State.fetchByte, hrun']
  dsimp only
  rw [htoNat, hsize, haddr, extract_wordAt _ _ hi]

theorem memSize_of_v2p : s'.memSize = s.memSize :=
  (v2p_add hs hpages (i := 0) (Nat.mod_lt _ (by decide)) hrun).2.1

/-- The instruction in the frame. -/
theorem hasInstr_word_iff (heven : pc.toNat % 2 = 0) (hrange : paddr.toNat + 4 ≤ s.memSize) :
    s.HasInstr pc (wordAt s'.mem (paddr.setWidth 32)) ↔
      (Instruction.isCompressed (wordAt s'.mem (paddr.setWidth 32)) = false →
        pc.toNat % 4096 = 4094 →
        s.fetchByte pc 2 = some ((wordAt s'.mem (paddr.setWidth 32)).extractLsb' 16 8) ∧
        s.fetchByte pc 3 = some ((wordAt s'.mem (paddr.setWidth 32)).extractLsb' 24 8)) := by
  have hbyte : ∀ i < 4, pc.toNat % 4096 + i < 4096 → s.fetchByte pc i =
      some ((wordAt s'.mem (paddr.setWidth 32)).extractLsb' (i * 8) 8) := by
    intro i hi h
    rw [fetchByte_of_v2p hs hpages hrun hi h, if_pos (by omega)]
  constructor
  · intro h hc _
    rw [State.HasInstr, instrLength_of_not_isCompressed hc] at h
    exact ⟨h 2 (by decide), h 3 (by decide)⟩
  · intro h i hi
    cases hc : Instruction.isCompressed (wordAt s'.mem (paddr.setWidth 32)) with
    | true =>
      rw [instrLength_of_isCompressed hc] at hi
      exact hbyte i (by omega) (by omega)
    | false =>
      rw [instrLength_of_not_isCompressed hc] at hi
      by_cases hpage : pc.toNat % 4096 + i < 4096
      · exact hbyte i hi hpage
      · have hsecond := h hc (by omega)
        obtain rfl | rfl : i = 2 ∨ i = 3 := by omega
        · exact hsecond.1
        · exact hsecond.2

/-- An instruction that a fetch beyond the end of the memory misses. -/
theorem exists_hasInstr_iff (heven : pc.toNat % 2 = 0) (hrange : s.memSize < paddr.toNat + 4) :
    (∃ word, s.HasInstr pc word) ↔
      paddr.toNat + 2 ≤ s.memSize ∧
        (Instruction.isCompressed (wordAt s'.mem (paddr.setWidth 32)) = false →
          pc.toNat % 4096 = 4094 ∧ s.fetchByte pc 2 ≠ none ∧ s.fetchByte pc 3 ≠ none) := by
  have hbyte : ∀ i < 4, pc.toNat % 4096 + i < 4096 → s.fetchByte pc i =
      if paddr.toNat + i < s.memSize then
        some ((wordAt s'.mem (paddr.setWidth 32)).extractLsb' (i * 8) 8)
      else none :=
    fun i hi h ↦ fetchByte_of_v2p hs hpages hrun hi h
  constructor
  · rintro ⟨word, hword⟩
    have hlength := two_le_instrLength word
    have hfirst := hword 0 (by omega)
    have hsecond := hword 1 (by omega)
    rw [hbyte 0 (by decide) (by omega)] at hfirst
    rw [hbyte 1 (by decide) (by omega)] at hsecond
    split at hfirst
    case isFalse => cases hfirst
    split at hsecond
    case isFalse => cases hsecond
    case isTrue hsize =>
      refine ⟨hsize, fun hc ↦ ?_⟩
      rw [isCompressed_of_byte (Option.some.inj hfirst)] at hc
      rw [State.HasInstr, instrLength_of_not_isCompressed hc] at hword
      have hthird := hword 2 (by decide)
      have hfourth := hword 3 (by decide)
      refine ⟨?_, by simp [hthird], by simp [hfourth]⟩
      by_contra hoffset
      rw [hbyte 3 (by decide) (by omega), if_neg (by omega)] at hfourth
      cases hfourth
  · rintro ⟨hsize, h⟩
    cases hc : Instruction.isCompressed (wordAt s'.mem (paddr.setWidth 32)) with
    | true =>
      refine ⟨wordAt s'.mem (paddr.setWidth 32), fun i hi ↦ ?_⟩
      rw [instrLength_of_isCompressed hc] at hi
      rw [hbyte i (by omega) (by omega), if_pos (by omega)]
    | false =>
      obtain ⟨hoffset, hthird, hfourth⟩ := h hc
      have hsome : ∀ i < 4, s.fetchByte pc i ≠ none := by
        intro i hi
        by_cases hpage : pc.toNat % 4096 + i < 4096
        · rw [hbyte i hi hpage, if_pos (by omega)]
          exact Option.some_ne_none _
        · obtain rfl | rfl : i = 2 ∨ i = 3 := by omega
          · exact hthird
          · exact hfourth
      obtain ⟨word, hword⟩ := exists_word_of_bytes fun i ↦ (s.fetchByte pc i).getD 0#8
      refine ⟨word, fun i hi ↦ ?_⟩
      have hlength := instrLength_le_four word
      have hi4 : i < 4 := by omega
      obtain ⟨b, hb⟩ := Option.ne_none_iff_exists'.mp (hsome i hi4)
      rw [hword i hi4, hb]
      rfl

/-- A fetch reads the instruction exactly if the bytes in the frame make no difference. -/
theorem fetchesInstr_iff_frame (heven : pc.toNat % 2 = 0) :
    FetchesInstr s pc ↔ s.FrameHasInstr pc := by
  have hsize := memSize_of_v2p hs hpages hrun
  have hload := loadInstr_of_v2p hrun
  rw [hsize] at hload
  have hframe : s.FrameHasInstr pc ↔ _ :=
    ⟨fun h ↦ h paddr s' hrun, fun h paddr' s'' hrun' ↦ by
      cases hrun.symm.trans hrun'
      exact h⟩
  rw [hframe]
  by_cases hrange : paddr.toNat + 4 ≤ s.memSize
  · rw [if_pos hrange] at hload
    have hword : FetchesInstr s pc ↔ s.HasInstr pc (wordAt s'.mem (paddr.setWidth 32)) := by
      constructor
      · intro h
        refine h.bytes _ ?_
        rw [result, hload]
      · intro h
        refine ⟨fun word hresult ↦ ?_, fun _ _ ↦ ?_⟩
        · rw [result, hload] at hresult
          cases hresult
          exact h
        · rw [returns, hload]
    rw [hword, hasInstr_word_iff hs hpages hrun heven hrange]
    simp only [if_pos hrange]
    constructor
    · intro h _
      exact ⟨fun _ ↦ hrange, h⟩
    · intro h
      exact (h (by omega)).2
  · rw [if_neg hrange] at hload
    have hmissed : FetchesInstr s pc ↔ ¬ ∃ word, s.HasInstr pc word := by
      have hreturns : ¬ returns (loadInstr pc) s = true := by
        rw [returns, hload]
        exact Bool.false_ne_true
      constructor
      · rintro h ⟨word, hword⟩
        exact hreturns (h.returns word hword)
      · intro h
        refine ⟨fun word hresult ↦ ?_, fun word hword ↦ absurd ⟨word, hword⟩ h⟩
        rw [result, hload] at hresult
        cases hresult
    rw [hmissed, exists_hasInstr_iff hs hpages hrun heven (Nat.not_le.mp hrange)]
    simp only [if_neg hrange]
    cases Instruction.isCompressed (wordAt s'.mem (paddr.setWidth 32)) with
    | true =>
      simp only [Bool.true_eq_false, false_implies, and_true, true_implies]
      omega
    | false =>
      simp only [Bool.false_eq_true, false_implies, true_and, true_implies, not_and, ne_eq, not_not]
      refine forall_congr' fun _ ↦ forall_congr' fun _ ↦ ?_
      exact or_iff_not_imp_left.symm

end Fetch

/-- A fetch reads exactly the bytes of the instruction if and only if the four bytes in the frame of
its first byte make no difference. -/
theorem fetchesInstr_iff (s : State) (hs : s.Walkable) (hpages : s.PagesAligned)
    (pc : BitVec 32) (heven : pc.toNat % 2 = 0) : FetchesInstr s pc ↔ s.FrameHasInstr pc := by
  cases hrun : v2p (pc.setWidth 64) .FETCH s with
  | ok paddr s' => exact fetchesInstr_iff_frame hs hpages hrun heven
  | error e s' =>
    refine iff_of_true ⟨fun word hresult ↦ ?_, fun word hword ↦ ?_⟩ fun paddr s'' hrun' ↦ ?_
    · obtain ⟨paddr, s₁, hok, -⟩ := exists_ok_of_bind_eq_ok (eq_ok_of_result hresult)
      cases hrun.symm.trans hok
    · have hlength := two_le_instrLength word
      have hfirst := hword 0 (by omega)
      rw [State.fetchByte, BitVec.add_zero, hrun] at hfirst
      cases hfirst
    · cases hrun.symm.trans hrun'

/-- Two pages with the same frame, and an instruction that continues on the second page. -/
def splitPageState : State :=
  { (bootState []).setCsr .satp 0x80000000#32 with
    mem := (bootMemory [0x01#8, 0x00#8, 0x00#8, 0x00#8, 0x4b#8, 0x00#8, 0x00#8, 0x00#8,
      0x4b#8, 0x00#8, 0x00#8, 0x00#8]).store 0xffe#32 (constant 0x13#32) 4
    memSize := 8192
    prv := SupervisorMode
    mmu := some (Mmu.flush ⟨false, fun _ _ _ ↦ ⟨0#64, 0#64⟩⟩) }

theorem splitPageState_walkable : splitPageState.Walkable where
  marks := by
    intro mmu hmmu
    cases hmmu
    rfl
  mode := by
    intro type
    cases type <;> decide +kernel

theorem fetchesInstr_splitPage : FetchesInstr splitPageState 0x1000#32 := by
  refine (fetchesInstr_iff splitPageState splitPageState_walkable
    (pagesAligned_of_flushed rfl) 0x1000#32 (by decide)).mpr fun paddr s' hrun ↦ ?_
  have hanswer : answer (v2p 0x1000#64 .FETCH) splitPageState = .ok 0#64 := by decide +kernel
  have hpaddr : answer (v2p 0x1000#64 .FETCH) splitPageState = .ok paddr := by
    rw [answer]
    exact congrArg (fun r ↦ match r with
      | .ok a _ => Except.ok a
      | .error e _ => Except.error e) hrun
  cases hanswer.symm.trans hpaddr
  intro word _
  exact ⟨fun _ ↦ by decide, fun _ h ↦ absurd h (by decide)⟩

/-- The second half of the instruction is not read from its page, and the last two bytes of the
memory cannot be fetched. -/
theorem not_fetchesInstr_splitPage :
    ¬ FetchesInstr splitPageState 0x1ffe#32 ∧ ¬ FetchesInstr (bootState []) 4094#32 := by
  constructor
  · intro h
    have hword : result (loadInstr 0x1ffe#32) splitPageState = some 0x13#32 := by decide +kernel
    have hbyte : splitPageState.fetchByte 0x1ffe#32 2 = some 1#8 := by decide +kernel
    have hsecond := h.bytes _ hword 2 (by decide)
    rw [hbyte] at hsecond
    exact absurd hsecond (by decide)
  · intro h
    have hreturns : ¬ returns (loadInstr 4094#32) (bootState []) = true := by decide +kernel
    refine hreturns (h.returns 0#32 fun i hi ↦ ?_)
    obtain rfl | rfl : i = 0 ∨ i = 1 := by
      change i < 2 at hi
      omega
    · decide +kernel
    · decide +kernel

end CoverageVP.Iss
