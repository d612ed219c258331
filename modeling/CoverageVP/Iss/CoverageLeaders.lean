import CoverageVP.Iss.CoverageBlocks
import CoverageVP.Instr.Jumps
import Mathlib.Logic.Relation

/-!
# Leaders of basic blocks

A leader starts a function, follows a jump or is the target of one. The initialisation looks at the
major opcodes of words of thirty-two bits only: compressed jumps are passed over, and a word is
taken for a jump even if its minor opcode is reserved. The leaders are right exactly if the former
lead nowhere new, or where the latter do.
-/

namespace CoverageVP.Iss.Coverage

open Instr Lib

/-! ## The instructions of a function -/

namespace Image

variable (image : Image) (range : FuncRange)

/-- One instruction further. -/
def Follows (addr addr' : BitVec 64) : Prop := addr < range.hipc ∧ addr' = image.next addr

/-- An address between two instructions of a function, from its start on. -/
def Boundary : BitVec 64 → Prop := Relation.ReflTransGen (image.Follows range) range.lopc

/-- The addresses of the instructions of a function. -/
structure InstrOf (addr : BitVec 64) : Prop where
  boundary : image.Boundary range addr
  inside : addr < range.hipc

/-- The instructions of a function, in the order in which they are visited. -/
def body : List (BitVec 64) :=
  image.instrsFrom range.hipc (range.hipc.toNat - range.lopc.toNat) range.lopc

end Image

section Body

variable {image : Image} {range : FuncRange}

/-- There is fuel for what follows an instruction. -/
theorem fuel_next {fuel : Nat} {addr : BitVec 64} (haddr : addr < range.hipc)
    (hfuel : range.hipc.toNat - addr.toNat ≤ fuel + 1) :
    range.hipc.toNat - (image.next addr).toNat ≤ fuel := by
  have hnext := lt_next image haddr
  rw [BitVec.lt_def] at haddr hnext
  omega

theorem not_lt_of_fuel_zero {addr : BitVec 64} (hfuel : range.hipc.toNat - addr.toNat ≤ 0) :
    ¬ addr < range.hipc := by
  rw [BitVec.lt_def]
  omega

theorem mem_instrsFrom {fuel : Nat} {addr a : BitVec 64}
    (hfuel : range.hipc.toNat - addr.toNat ≤ fuel) :
    a ∈ image.instrsFrom range.hipc fuel addr ↔
      Relation.ReflTransGen (image.Follows range) addr a ∧ a < range.hipc := by
  induction fuel generalizing addr with
  | zero =>
    have hend := not_lt_of_fuel_zero hfuel
    refine iff_of_false List.not_mem_nil fun ⟨hreach, ha⟩ ↦ hend ?_
    rcases hreach.cases_head with rfl | ⟨_, ⟨h, -⟩, -⟩
    · exact ha
    · exact h
  | succ fuel ih =>
    unfold Image.instrsFrom
    rw [Relation.ReflTransGen.cases_head_iff]
    by_cases haddr : addr < range.hipc
    · rw [if_pos haddr, List.mem_cons, ih (fuel_next haddr hfuel)]
      constructor
      · rintro (rfl | ⟨hreach, ha⟩)
        · exact ⟨.inl rfl, haddr⟩
        · exact ⟨.inr ⟨_, ⟨haddr, rfl⟩, hreach⟩, ha⟩
      · rintro ⟨rfl | ⟨_, ⟨-, rfl⟩, hreach⟩, ha⟩
        · exact .inl rfl
        · exact .inr ⟨hreach, ha⟩
    · rw [if_neg haddr]
      refine iff_of_false List.not_mem_nil ?_
      rintro ⟨rfl | ⟨_, ⟨h, -⟩, -⟩, ha⟩
      · exact haddr ha
      · exact haddr h

theorem mem_body {addr : BitVec 64} : addr ∈ image.body range ↔ image.InstrOf range addr := by
  rw [Image.body, mem_instrsFrom le_rfl]
  exact ⟨fun h ↦ ⟨h.1, h.2⟩, fun h ↦ ⟨h.boundary, h.inside⟩⟩

end Body

namespace Image

variable (image : Image) (range : FuncRange)

/-- A jump at one address makes another one a leader: its target, or the address after it. -/
def LeadsBy (jump : Instruction → Option Jump) (addr a : BitVec 64) : Prop :=
  ∃ w j, image.loadInstr addr = .ok w ∧ jump w = some j ∧
    (j.target addr = some a ∨ a = image.next addr)

/-- Some instruction of the function leads to the address. -/
def LedBy (jump : Instruction → Option Jump) (a : BitVec 64) : Prop :=
  ∃ addr, image.InstrOf range addr ∧ image.LeadsBy jump addr a

/-- The start of a function, and what its branches and jumps lead to. -/
def Leader (a : BitVec 64) : Prop := a = range.lopc ∨ image.LedBy range Jump.ofWord a

end Image

/-- Inside the function, its leaders have been added to those known before, and nothing else. -/
def MarksLeaders (image : Image) (range : FuncRange) (leaders leaders' : List (BitVec 64)) : Prop :=
  ∀ a, range.lopc ≤ a → a < range.hipc → (a ∈ leaders' ↔ a ∈ leaders ∨ image.Leader range a)

/-- Where neither the start of the function nor a word of thirty-two bits leads, a compressed jump
leads exactly if a reserved word would do so. -/
def CompressedAsReserved (image : Image) (range : FuncRange) (leaders : List (BitVec 64)) : Prop :=
  ∀ a, range.lopc ≤ a → a < range.hipc → a ∉ leaders → a ≠ range.lopc →
    ¬ image.LedBy range Jump.plain a →
      (image.LedBy range Jump.compressed a ↔ image.LedBy range Jump.reserved a)

section Leaders

variable {image : Image} {range : FuncRange}

/-- The jumps that are seen, by their major opcode. -/
def seen (w : Instruction) : Option Jump := (Jump.plain w).or (Jump.reserved w)

theorem seen_branch {w : Instruction} (h : w.extractLsb' 0 7 = 0b1100011#7) :
    seen w = some (.branch (Jump.branchDistance w)) := by
  rw [seen, Jump.plain, Jump.reserved, if_pos h, if_pos h]
  split
  · rfl
  · rfl

theorem seen_direct {w : Instruction} (h : w.extractLsb' 0 7 = 0b1101111#7) :
    seen w = some (.direct (Jump.directDistance w)) := by
  rw [seen, Jump.plain, h]
  rfl

theorem seen_indirect {w : Instruction} (h : w.extractLsb' 0 7 = 0b1100111#7) :
    seen w = some .indirect := by
  rw [seen, Jump.plain, Jump.reserved, h]
  split
  · contradiction
  split
  · contradiction
  split
  · split
    · rfl
    · rfl
  · contradiction

theorem seen_none {w : Instruction} (hbranch : w.extractLsb' 0 7 ≠ 0b1100011#7)
    (hdirect : w.extractLsb' 0 7 ≠ 0b1101111#7) (hindirect : w.extractLsb' 0 7 ≠ 0b1100111#7) :
    seen w = none := by
  rw [seen, Jump.plain, Jump.reserved, if_neg hbranch, if_neg hbranch, if_neg hdirect,
    if_neg hindirect, if_neg hindirect]
  rfl

theorem opcode_eq_beq_iff (w : Instruction) :
    w.opcode.toNat = OP_BEQ ↔ w.extractLsb' 0 7 = 0b1100011#7 :=
  w.toNat_opcode_eq_iff 0b1100011#7

theorem opcode_eq_jal_iff (w : Instruction) :
    w.opcode.toNat = OP_JAL ↔ w.extractLsb' 0 7 = 0b1101111#7 :=
  w.toNat_opcode_eq_iff 0b1101111#7

theorem opcode_eq_jalr_iff (w : Instruction) :
    w.opcode.toNat = OP_JALR ↔ w.extractLsb' 0 7 = 0b1100111#7 :=
  w.toNat_opcode_eq_iff 0b1100111#7

theorem isJump_eq (w : Instruction) : isJump w = (seen w).isSome := by
  simp only [isJump, opcode_eq_beq_iff, opcode_eq_jal_iff, opcode_eq_jalr_iff]
  by_cases hbranch : w.extractLsb' 0 7 = 0b1100011#7
  · rw [seen_branch hbranch, hbranch]
    rfl
  by_cases hdirect : w.extractLsb' 0 7 = 0b1101111#7
  · rw [seen_direct hdirect, hdirect]
    rfl
  by_cases hindirect : w.extractLsb' 0 7 = 0b1100111#7
  · rw [seen_indirect hindirect, hindirect]
    rfl
  rw [seen_none hbranch hdirect hindirect]
  simp [hbranch, hdirect, hindirect]

theorem jumpTarget_eq (addr : BitVec 64) (w : Instruction) :
    jumpTarget addr w = (seen w).bind (Jump.target addr) := by
  simp only [jumpTarget, opcode_eq_beq_iff, opcode_eq_jal_iff]
  by_cases hbranch : w.extractLsb' 0 7 = 0b1100011#7
  · rw [seen_branch hbranch, if_pos hbranch, w.bImm_eq,
      signExtend_signExtend _ (by decide) (by decide)]
    rfl
  rw [if_neg hbranch]
  by_cases hdirect : w.extractLsb' 0 7 = 0b1101111#7
  · rw [seen_direct hdirect, if_pos hdirect, w.jImm_eq,
      signExtend_signExtend _ (by decide) (by decide)]
    rfl
  rw [if_neg hdirect]
  by_cases hindirect : w.extractLsb' 0 7 = 0b1100111#7
  · rw [seen_indirect hindirect]
    rfl
  · rw [seen_none hbranch hdirect hindirect]
    rfl

/-! ## The scan of a function -/

theorem Image.leadsBy_seen_iff {addr a : BitVec 64} {w : Instruction}
    (hload : image.loadInstr addr = .ok w) :
    image.LeadsBy seen addr a ↔
      jumpTarget addr w = some a ∨ (isJump w = true ∧ a = image.next addr) := by
  rw [jumpTarget_eq, isJump_eq, Option.bind_eq_some_iff, Option.isSome_iff_exists]
  constructor
  · rintro ⟨w', j, hload', hseen, hleads⟩
    obtain rfl := Except.ok.inj (hload.symm.trans hload')
    rcases hleads with htarget | hnext
    · exact .inl ⟨j, hseen, htarget⟩
    · exact .inr ⟨⟨j, hseen⟩, hnext⟩
  · rintro (⟨j, hseen, htarget⟩ | ⟨⟨j, hseen⟩, hnext⟩)
    · exact ⟨w, j, hload, hseen, .inl htarget⟩
    · exact ⟨w, j, hload, hseen, .inr hnext⟩

theorem mem_of_target {leaders : List (BitVec 64)} {target : Option (BitVec 64)} {a : BitVec 64}
    (hlow : range.lopc ≤ a) (hhigh : a < range.hipc) :
    (a ∈ match target with
      | some dest => if range.lopc ≤ dest ∧ dest < range.hipc then dest :: leaders else leaders
      | none => leaders) ↔ a ∈ leaders ∨ target = some a := by
  cases target with
  | none => simp
  | some dest =>
    by_cases hdest : dest = a
    · simp [hdest, hlow, hhigh]
    · have hne : a ≠ dest := fun h ↦ hdest h.symm
      dsimp only
      split
      · simp [hdest, hne]
      · simp [hdest]

theorem initBasicBlocksFrom_spec {fuel : Nat} {addr : BitVec 64} {prevWasJump : Bool}
    {leaders : List (BitVec 64)} (hfuel : range.hipc.toNat - addr.toNat ≤ fuel)
    (hload : ∀ a ∈ image.instrsFrom range.hipc fuel addr, ∃ w, image.loadInstr a = .ok w) :
    ∃ leaders', initBasicBlocksFrom image range fuel addr prevWasJump leaders = .ok leaders' ∧
      ∀ a, range.lopc ≤ a → a < range.hipc →
        (a ∈ leaders' ↔ a ∈ leaders ∨ (prevWasJump = true ∧ a = addr) ∨
          ∃ b ∈ image.instrsFrom range.hipc fuel addr, image.LeadsBy seen b a) := by
  induction fuel generalizing addr prevWasJump leaders with
  | zero =>
    refine ⟨leaders, rfl, fun a _ ha ↦ ?_⟩
    have hne : a ≠ addr := fun h ↦ not_lt_of_fuel_zero hfuel (h ▸ ha)
    simp [hne, Image.instrsFrom]
  | succ fuel ih =>
    unfold Image.instrsFrom at hload ⊢
    unfold initBasicBlocksFrom
    by_cases haddr : addr < range.hipc
    · rw [if_pos haddr] at hload ⊢
      obtain ⟨w, hw⟩ := hload addr List.mem_cons_self
      have hfetch : image.fetch addr = .ok w := by
        rw [Image.fetch, hw]
        rfl
      rw [if_pos haddr, hfetch]
      obtain ⟨leaders', hrun, hmem⟩ := ih (fuel_next haddr hfuel)
        (fun a ha ↦ hload a (List.mem_cons_of_mem addr ha))
      rw [Image.next_of_fetch hfetch] at hrun
      refine ⟨leaders', hrun, fun a hlow hhigh ↦ ?_⟩
      have hprev : (a ∈ if prevWasJump = true then addr :: leaders else leaders) ↔
          a ∈ leaders ∨ (prevWasJump = true ∧ a = addr) := by
        cases prevWasJump with
        | false => simp
        | true => simp [or_comm]
      refine (hmem a hlow hhigh).trans ((or_congr_left (mem_of_target hlow hhigh)).trans ?_)
      rw [hprev, List.exists_mem_cons_iff, Image.leadsBy_seen_iff hw]
      simp only [or_assoc]
    · rw [if_neg haddr, if_neg haddr]
      refine ⟨leaders, rfl, fun a _ ha ↦ ?_⟩
      have hne : a ≠ addr := fun h ↦ haddr (h ▸ ha)
      simp [hne]

/-- What a scan of a function adds to the leaders inside it. -/
theorem initBasicBlocks_spec (leaders : List (BitVec 64))
    (hload : ∀ addr, image.InstrOf range addr → ∃ w, image.loadInstr addr = .ok w) :
    ∃ leaders', initBasicBlocks image leaders range = .ok leaders' ∧
      ∀ a, range.lopc ≤ a → a < range.hipc →
        (a ∈ leaders' ↔ a ∈ leaders ∨ a = range.lopc ∨ image.LedBy range seen a) := by
  obtain ⟨leaders', hrun, hmem⟩ := @initBasicBlocksFrom_spec image range _ range.lopc false
    (range.lopc :: leaders) le_rfl (fun a ha ↦ hload a (mem_body.mp ha))
  refine ⟨leaders', hrun, fun a hlow hhigh ↦ ?_⟩
  have hled : (∃ b ∈ image.body range, image.LeadsBy seen b a) ↔ image.LedBy range seen a := by
    simp only [mem_body, Image.LedBy]
  rw [hmem a hlow hhigh, List.mem_cons, ← hled, Image.body]
  simp only [Bool.false_eq_true, false_and, false_or]
  rw [or_comm (a := a = range.lopc), or_assoc]

/-! ## The condition -/

theorem Image.ledBy_congr {jump jump₁ jump₂ : Instruction → Option Jump}
    (h : ∀ w j, jump w = some j ↔ jump₁ w = some j ∨ jump₂ w = some j) (a : BitVec 64) :
    image.LedBy range jump a ↔ image.LedBy range jump₁ a ∨ image.LedBy range jump₂ a := by
  constructor
  · rintro ⟨addr, hinstr, w, j, hload, hjump, hleads⟩
    rcases (h w j).mp hjump with hjump | hjump
    · exact .inl ⟨addr, hinstr, w, j, hload, hjump, hleads⟩
    · exact .inr ⟨addr, hinstr, w, j, hload, hjump, hleads⟩
  · rintro (⟨addr, hinstr, w, j, hload, hjump, hleads⟩ | ⟨addr, hinstr, w, j, hload, hjump, hleads⟩)
    · exact ⟨addr, hinstr, w, j, hload, (h w j).mpr (.inl hjump), hleads⟩
    · exact ⟨addr, hinstr, w, j, hload, (h w j).mpr (.inr hjump), hleads⟩

theorem or_eq_some_iff_of_exclusive {o o' : Option Jump} (h : o.isSome = true → o' = none)
    (j : Jump) : o.or o' = some j ↔ o = some j ∨ o' = some j := by
  cases o with
  | none => simp
  | some k => simp [h rfl]

theorem Image.ledBy_ofWord (a : BitVec 64) :
    image.LedBy range Jump.ofWord a ↔
      image.LedBy range Jump.plain a ∨ image.LedBy range Jump.compressed a :=
  ledBy_congr (fun _ ↦ or_eq_some_iff_of_exclusive Jump.compressed_of_plain) a

theorem Image.ledBy_seen (a : BitVec 64) :
    image.LedBy range seen a ↔
      image.LedBy range Jump.plain a ∨ image.LedBy range Jump.reserved a :=
  ledBy_congr (fun _ ↦ or_eq_some_iff_of_exclusive Jump.reserved_of_plain) a

theorem marksLeaders_iff (leaders : List (BitVec 64))
    (hload : ∀ addr, image.InstrOf range addr → ∃ w, image.loadInstr addr = .ok w) :
    ∃ leaders', initBasicBlocks image leaders range = .ok leaders' ∧
      (MarksLeaders image range leaders leaders' ↔ CompressedAsReserved image range leaders) := by
  obtain ⟨leaders', hrun, hmem⟩ := initBasicBlocks_spec leaders hload
  refine ⟨leaders', hrun, forall_congr' fun a ↦ forall₂_congr fun hlow hhigh ↦ ?_⟩
  rw [hmem a hlow hhigh, Image.Leader, Image.ledBy_seen, Image.ledBy_ofWord]
  have hor : ∀ {p q r : Prop}, (p ∨ q ↔ p ∨ r) ↔ (¬ p → (q ↔ r)) := by
    intro p q r
    by_cases hp : p <;> simp [hp]
  calc (a ∈ leaders ∨ a = range.lopc ∨ image.LedBy range Jump.plain a ∨
          image.LedBy range Jump.reserved a ↔
        a ∈ leaders ∨ a = range.lopc ∨ image.LedBy range Jump.plain a ∨
          image.LedBy range Jump.compressed a)
      ↔ (a ∉ leaders → a ≠ range.lopc → ¬ image.LedBy range Jump.plain a →
          (image.LedBy range Jump.reserved a ↔ image.LedBy range Jump.compressed a)) := by
        rw [hor, hor, hor]
    _ ↔ _ := forall₃_congr fun _ _ _ ↦ iff_comm

end Leaders

/-- A branch over one instruction. -/
def branchBody : Image where
  loadInstr := fun addr ↦ .ok (if addr = 0#64 then 0x463#32 else 0x13#32)
  functions := [twelveBytes]
  getSources := fun _ ↦ []

theorem not_ledBy_branchBody {range : FuncRange} {jump : Instruction → Option Jump} {a : BitVec 64}
    (hbranch : jump 0x463#32 = none) (hnop : jump 0x13#32 = none) :
    ¬ branchBody.LedBy range jump a := by
  rintro ⟨addr, -, w, j, hload, hjump, -⟩
  obtain rfl := Except.ok.inj hload
  split at hjump
  · rw [hbranch] at hjump
    cases hjump
  · rw [hnop] at hjump
    cases hjump

theorem marksLeaders_branchBody :
    ∃ leaders', initBasicBlocks branchBody [] twelveBytes = .ok leaders' ∧
      MarksLeaders branchBody twelveBytes [] leaders' := by
  obtain ⟨leaders', hrun, hiff⟩ := @marksLeaders_iff branchBody twelveBytes []
    (fun addr _ ↦ ⟨_, rfl⟩)
  refine ⟨leaders', hrun, hiff.mpr fun a _ _ _ _ _ ↦ ?_⟩
  exact iff_of_false (not_ledBy_branchBody (by decide) (by decide))
    (not_ledBy_branchBody (by decide) (by decide))

/-- A compressed jump over one instruction. -/
def compressedBody : Image where
  loadInstr := fun addr ↦ .ok (if addr = 0#64 then 0x1a011#32 else 0x10001#32)
  functions := [⟨0#64, 6#64, by decide⟩]
  getSources := fun _ ↦ []

/-- Neither the target of a compressed jump nor the instruction after it is marked. -/
theorem not_marksLeaders_compressedBody :
    ∃ leaders', initBasicBlocks compressedBody [] ⟨0#64, 6#64, by decide⟩ = .ok leaders' ∧
      ¬ MarksLeaders compressedBody ⟨0#64, 6#64, by decide⟩ [] leaders' := by
  refine ⟨[0#64], rfl, fun h ↦ ?_⟩
  have hled : compressedBody.LeadsBy Jump.ofWord 0#64 4#64 :=
    ⟨0x1a011#32, .direct 4#21, rfl, by decide, .inl (by decide)⟩
  have hleader : compressedBody.Leader ⟨0#64, 6#64, by decide⟩ 4#64 :=
    .inr ⟨0#64, ⟨.refl, by decide⟩, hled⟩
  have hmarked := (h 4#64 (by decide) (by decide)).mpr (.inr hleader)
  exact absurd hmarked (by decide)

end CoverageVP.Iss.Coverage
