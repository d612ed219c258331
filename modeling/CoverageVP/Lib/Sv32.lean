import Mathlib.Logic.Basic

/-!
# The Sv32 scheme of address translation

The translation of 32-bit virtual addresses to 34-bit physical ones through page tables of two
levels, step by step as the privileged architecture of RISC-V describes it. The tables are given by
the words that a read of a physical address returns. The state of a translation is the number of
levels that are left and the physical page number of the current table.
-/

namespace CoverageVP.Lib.Sv32

inductive Access
  | fetch | load | store
  deriving DecidableEq, Repr

/-- What decides about rights besides the entry: supervisor or user mode, and two bits of
`mstatus`. -/
structure Rights where
  supervisor : Bool
  sum : Bool
  mxr : Bool
  deriving DecidableEq, Repr

/-! ## Page table entries -/

/-- A page table entry. -/
abbrev Entry := BitVec 32

namespace Entry

variable (pte : Entry)

def v : Bool := pte.getLsbD 0
def r : Bool := pte.getLsbD 1
def w : Bool := pte.getLsbD 2
def x : Bool := pte.getLsbD 3
def u : Bool := pte.getLsbD 4
def d : Bool := pte.getLsbD 7

def ppn : BitVec 22 := pte.extractLsb' 10 22
def ppn₀ : BitVec 10 := pte.extractLsb' 10 10
def ppn₁ : BitVec 12 := pte.extractLsb' 20 12

/-- The access is allowed by the entry, the mode, and the bits of `mstatus`. -/
def allows (access : Access) (rights : Rights) : Bool :=
  (match access with
    | .fetch => pte.x
    | .load => pte.r || (rights.mxr && pte.x)
    | .store => pte.w) &&
  (if rights.supervisor then !pte.u || (access ≠ .fetch && rights.sum) else pte.u)

/-- The bits that an access sets in the leaf entry. -/
def marks : Access → BitVec 8
  | .store => 0xc0#8
  | _ => 0x40#8

end Entry

def vpn₀ (va : BitVec 32) : BitVec 10 := va.extractLsb' 12 10
def vpn₁ (va : BitVec 32) : BitVec 10 := va.extractLsb' 22 10
def pgoff (va : BitVec 32) : BitVec 12 := va.extractLsb' 0 12

/-- The part of the virtual page number that indexes the table of a level. -/
def vpn (va : BitVec 32) (level : Nat) : BitVec 10 := if level = 0 then vpn₀ va else vpn₁ va

/-- The address `ppn * PAGESIZE + vpn * PTESIZE`. -/
def entryAddress (ppn : BitVec 22) (vpn : BitVec 10) : BitVec 34 :=
  ppn.setWidth 34 * 4096#34 + vpn.setWidth 34 * 4#34

/-- The physical address of a page, or of the page that a superpage contains. -/
def physicalAddress (pte : Entry) (va : BitVec 32) (level : Nat) : BitVec 34 :=
  if level = 0 then pte.ppn ++ pgoff va else (pte.ppn₁ ++ vpn₀ va) ++ pgoff va

/-- The translation fails, a read of an entry fails, or the address is translated by a leaf entry. -/
inductive Outcome
  | pageFault
  | accessFault (entry : BitVec 34)
  | translated (pa leaf : BitVec 34) (pte : Entry)
  deriving DecidableEq, Repr

/-- A leaf entry of a level allows the access or not, and a superpage has to be aligned. -/
def checkLeaf (access : Access) (rights : Rights) (va : BitVec 32) (level : Nat) (leaf : BitVec 34)
    (pte : Entry) : Outcome :=
  if !pte.allows access rights then .pageFault
  else if level = 1 ∧ pte.ppn₀ ≠ 0#10 then .pageFault
  else .translated (physicalAddress pte va level) leaf pte

/-- The steps from the table of a level on. -/
def walk (read : BitVec 34 → Option Entry) (access : Access) (rights : Rights) (va : BitVec 32) :
    Nat → BitVec 22 → Outcome
  | 0, _ => .pageFault
  | level + 1, ppn =>
    match read (entryAddress ppn (vpn va level)) with
    | none => .accessFault (entryAddress ppn (vpn va level))
    | some pte =>
      if !pte.v || (!pte.r && pte.w) then .pageFault
      else if pte.r || pte.x then
        checkLeaf access rights va level (entryAddress ppn (vpn va level)) pte
      else walk read access rights va level pte.ppn

/-- The translation with the root table of `satp`. -/
def translate (read : BitVec 34 → Option Entry) (root : BitVec 22) (access : Access)
    (rights : Rights) (va : BitVec 32) : Outcome :=
  walk read access rights va 2 root

/-! ## Outcomes -/

section Outcomes

variable {read : BitVec 34 → Option Entry} {access : Access} {rights : Rights} {va : BitVec 32}
  {level : Nat} {ppn : BitVec 22}

/-- All accesses see the same tables, up to a leaf entry that decides about the access. -/
theorem walk_cases (read : BitVec 34 → Option Entry) (rights : Rights) (va : BitVec 32)
    (level : Nat) (ppn : BitVec 22) :
    (∀ access, walk read access rights va level ppn = .pageFault) ∨
    (∃ entry, read entry = none ∧ ∀ access, walk read access rights va level ppn =
      .accessFault entry) ∨
    ∃ level' leaf pte, read leaf = some pte ∧ ¬ (!pte.r && pte.w) = true ∧
      ∀ access, walk read access rights va level ppn =
        checkLeaf access rights va level' leaf pte := by
  induction level generalizing ppn with
  | zero => exact .inl fun _ ↦ rfl
  | succ level ih =>
    simp only [walk]
    cases hread : read (entryAddress ppn (vpn va level)) with
    | none => exact .inr (.inl ⟨_, hread, fun _ ↦ rfl⟩)
    | some pte =>
      by_cases hvalid : (!pte.v || (!pte.r && pte.w)) = true
      · refine .inl fun _ ↦ ?_
        simp only [if_pos hvalid]
      · simp only [if_neg hvalid]
        by_cases hleaf : (pte.r || pte.x) = true
        · simp only [if_pos hleaf]
          refine .inr (.inr ⟨level, _, pte, hread, fun h ↦ hvalid ?_, fun _ ↦ rfl⟩)
          rw [h, Bool.or_true]
        · simp only [if_neg hleaf]
          exact ih pte.ppn

theorem checkLeaf_translated {pa leaf leaf' : BitVec 34} {pte pte' : Entry}
    (h : checkLeaf access rights va level leaf pte = .translated pa leaf' pte') :
    pte.allows access rights = true ∧ ¬ (level = 1 ∧ pte.ppn₀ ≠ 0#10) ∧
      pa = physicalAddress pte va level ∧ leaf' = leaf ∧ pte' = pte := by
  rw [checkLeaf] at h
  split at h
  · exact nomatch h
  split at h
  · exact nomatch h
  rename_i hallows haligned
  cases h
  exact ⟨by simpa using hallows, haligned, rfl, rfl, rfl⟩

theorem checkLeaf_ne_accessFault (level : Nat) (leaf : BitVec 34) (pte : Entry)
    (entry : BitVec 34) : checkLeaf access rights va level leaf pte ≠ .accessFault entry := by
  rw [checkLeaf]
  split
  · exact nofun
  split
  · exact nofun
  · exact nofun

/-- The leaf entry is an entry that was read. -/
theorem read_of_translated {pa leaf : BitVec 34} {pte : Entry}
    (h : walk read access rights va level ppn = .translated pa leaf pte) :
    read leaf = some pte := by
  rcases walk_cases read rights va level ppn with hw | ⟨entry, -, hw⟩ | ⟨_, _, _, hread, -, hw⟩
  · exact nomatch (hw access).symm.trans h
  · exact nomatch (hw access).symm.trans h
  · obtain ⟨-, -, -, rfl, rfl⟩ := checkLeaf_translated ((hw access).symm.trans h)
    exact hread

/-- Reads fail for every access alike. -/
theorem walk_of_accessFault {entry : BitVec 34}
    (h : walk read access rights va level ppn = .accessFault entry) (access' : Access) :
    walk read access' rights va level ppn = .accessFault entry := by
  rcases walk_cases read rights va level ppn with hw | ⟨entry', -, hw⟩ | ⟨_, _, _, -, -, hw⟩
  · exact nomatch (hw access).symm.trans h
  · rw [hw access', ← hw access, h]
  · exact absurd ((hw access).symm.trans h) (checkLeaf_ne_accessFault _ _ _ entry)

/-- An entry that may be written may be read. -/
theorem Entry.allows_load {pte : Entry} (hvalid : ¬ (!pte.r && pte.w) = true)
    (h : pte.allows .store rights = true) : pte.allows .load rights = true := by
  have hbools : ∀ r w x u supervisor sum mxr : Bool, ¬ (!r && w) = true →
      (w && (if supervisor then !u || (true && sum) else u)) = true →
      ((r || (mxr && x)) && (if supervisor then !u || (true && sum) else u)) = true := by
    decide
  exact hbools pte.r pte.w pte.x pte.u _ _ _ hvalid h

/-- A page that may be written may be read. -/
theorem load_of_store {pa leaf : BitVec 34} {pte : Entry}
    (h : walk read .store rights va level ppn = .translated pa leaf pte) :
    walk read .load rights va level ppn = .translated pa leaf pte := by
  rcases walk_cases read rights va level ppn with hw | ⟨entry, -, hw⟩ | ⟨_, _, _, -, hvalid, hw⟩
  · exact nomatch (hw .store).symm.trans h
  · exact nomatch (hw .store).symm.trans h
  · obtain ⟨hstore, haligned, rfl, rfl, rfl⟩ := checkLeaf_translated ((hw .store).symm.trans h)
    have hload : ¬ (!pte.allows .load rights) = true := by
      rw [pte.allows_load hvalid hstore]
      decide
    rw [hw .load, checkLeaf, if_neg hload, if_neg haligned]

end Outcomes

theorem toNat_entryAddress (ppn : BitVec 22) (vpn : BitVec 10) :
    (entryAddress ppn vpn).toNat = ppn.toNat * 4096 + vpn.toNat * 4 := by
  have hppn := ppn.isLt
  have hvpn := vpn.isLt
  rw [entryAddress, BitVec.toNat_add, BitVec.toNat_mul, BitVec.toNat_mul, BitVec.toNat_setWidth,
    BitVec.toNat_setWidth]
  change (ppn.toNat % 2 ^ 34 * 4096 % 2 ^ 34 + vpn.toNat % 2 ^ 34 * 4 % 2 ^ 34) % 2 ^ 34 = _
  omega

theorem toNat_pgoff (va : BitVec 32) : (pgoff va).toNat = va.toNat % 4096 := by
  rw [pgoff, BitVec.extractLsb'_toNat, Nat.shiftRight_zero]

theorem toNat_append_pgoff (page : BitVec 22) (va : BitVec 32) :
    (page ++ pgoff va).toNat = page.toNat * 4096 + va.toNat % 4096 := by
  rw [BitVec.toNat_append, ← Nat.shiftLeft_add_eq_or_of_lt (pgoff va).isLt, Nat.shiftLeft_eq,
    toNat_pgoff]

/-! ## Addresses of one page -/

section Offset

variable {va : BitVec 32} {i : Nat} (h : va.toNat % 4096 + i < 4096)

include h

theorem toNat_add_offset : (va + BitVec.ofNat 32 i).toNat = va.toNat + i := by
  have hva := va.isLt
  rw [BitVec.toNat_add, BitVec.toNat_ofNat]
  omega

theorem vpn_add (level : Nat) : vpn (va + BitVec.ofNat 32 i) level = vpn va level := by
  have hadd := toNat_add_offset h
  have hva := va.isLt
  unfold vpn
  split
  all_goals
    apply BitVec.eq_of_toNat_eq
    simp only [vpn₀, vpn₁, BitVec.extractLsb'_toNat, hadd, Nat.shiftRight_eq_div_pow]
    omega

theorem append_pgoff_add (page : BitVec 22) :
    page ++ pgoff (va + BitVec.ofNat 32 i) = (page ++ pgoff va) + BitVec.ofNat 34 i := by
  have hpage := page.isLt
  apply BitVec.eq_of_toNat_eq
  rw [toNat_append_pgoff, toNat_add_offset h, BitVec.toNat_add, toNat_append_pgoff,
    BitVec.toNat_ofNat]
  omega

theorem physicalAddress_add (pte : Entry) (level : Nat) :
    physicalAddress pte (va + BitVec.ofNat 32 i) level =
      physicalAddress pte va level + BitVec.ofNat 34 i := by
  have hvpn : vpn₀ (va + BitVec.ofNat 32 i) = vpn₀ va := vpn_add h 0
  unfold physicalAddress
  rw [hvpn]
  split
  · exact append_pgoff_add h _
  · exact append_pgoff_add h _

end Offset

/-- The outcome for an address further on in the page. -/
def Outcome.shift (i : Nat) : Outcome → Outcome
  | .translated pa leaf pte => .translated (pa + BitVec.ofNat 34 i) leaf pte
  | outcome => outcome

/-- The addresses of a page are translated alike. -/
theorem walk_add {va : BitVec 32} {i : Nat} (h : va.toNat % 4096 + i < 4096)
    (read : BitVec 34 → Option Entry) (access : Access) (rights : Rights) (level : Nat)
    (ppn : BitVec 22) :
    walk read access rights (va + BitVec.ofNat 32 i) level ppn =
      (walk read access rights va level ppn).shift i := by
  induction level generalizing ppn with
  | zero => rfl
  | succ level ih =>
    simp only [walk, vpn_add h]
    cases read (entryAddress ppn (vpn va level)) with
    | none => rfl
    | some pte =>
      dsimp only
      split
      · rfl
      split
      · rw [checkLeaf, checkLeaf, physicalAddress_add h]
        split
        · rfl
        split
        · rfl
        · rfl
      · exact ih _

/-- A translated address keeps its offset in the page. -/
theorem walk_offset {read : BitVec 34 → Option Entry} {access : Access} {rights : Rights}
    {va : BitVec 32} {level : Nat} {ppn : BitVec 22} {pa leaf : BitVec 34} {pte : Entry}
    (h : walk read access rights va level ppn = .translated pa leaf pte) :
    pa.toNat % 4096 = va.toNat % 4096 := by
  have hoffset : ∀ page : BitVec 22, (page ++ pgoff va).toNat % 4096 = va.toNat % 4096 := by
    intro page
    rw [toNat_append_pgoff]
    omega
  rcases walk_cases read rights va level ppn with hw | ⟨entry, -, hw⟩ | ⟨_, _, _, -, -, hw⟩
  · exact nomatch (hw access).symm.trans h
  · exact nomatch (hw access).symm.trans h
  · obtain ⟨-, -, rfl, -, -⟩ := checkLeaf_translated ((hw access).symm.trans h)
    unfold physicalAddress
    split
    · exact hoffset _
    · exact hoffset _

end CoverageVP.Lib.Sv32
