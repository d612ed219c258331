import CoverageVP.Iss.CoverageLeaders
import CoverageVP.Lib.Intervals

/-!
# Blocks partition functions

The scan of a function closes a block where the next address is a leader or the end of the function.
So its blocks are the intervals between the start, the end, and the leaders on the way; leaders in
the middle of an instruction or in other functions do not matter.
-/

namespace CoverageVP.Iss.Coverage

open Instr Lib

/-! ## Order along a function -/

section Order

variable {image : Image} {range : FuncRange}

theorem le_of_reaches {a b : BitVec 64} (h : Relation.ReflTransGen (image.Follows range) a b) :
    a ≤ b := by
  induction h with
  | refl => exact BitVec.le_refl a
  | tail _ hstep ih =>
    obtain ⟨hlt, rfl⟩ := hstep
    exact BitVec.le_trans ih (BitVec.le_of_lt (lt_next image hlt))

/-- If a boundary is at the end of a function, no instruction extends over it. -/
theorem next_le_of_boundary_end (hend : image.Boundary range range.hipc) {addr : BitVec 64}
    (h : image.InstrOf range addr) : image.next addr ≤ range.hipc := by
  have hunique : Relator.RightUnique (image.Follows range) := by
    rintro a b c ⟨-, rfl⟩ ⟨-, rfl⟩
    rfl
  have hinside := h.inside
  rcases Relation.ReflTransGen.total_of_right_unique hunique h.boundary hend with hreach | hreach
  · rcases hreach.cases_head with heq | ⟨_, ⟨-, rfl⟩, hreach⟩
    · exact absurd (heq ▸ hinside) (BitVec.lt_irrefl _)
    · exact le_of_reaches hreach
  · exact absurd hinside (BitVec.not_lt.mpr (le_of_reaches hreach))

theorem pairwise_next (fuel : Nat) (addr : BitVec 64) :
    (addr :: (image.instrsFrom range.hipc fuel addr).map image.next).Pairwise (· < ·) := by
  induction fuel generalizing addr with
  | zero => exact List.pairwise_singleton _ _
  | succ fuel ih =>
    unfold Image.instrsFrom
    by_cases haddr : addr < range.hipc
    · rw [if_pos haddr, List.map_cons]
      refine List.pairwise_cons.mpr ⟨fun a ha ↦ ?_, ih (image.next addr)⟩
      have hnext := lt_next image haddr
      rcases List.mem_cons.mp ha with rfl | ha
      · exact hnext
      · exact BitVec.lt_trans hnext ((List.pairwise_cons.mp (ih (image.next addr))).1 a ha)
    · rw [if_neg haddr]
      exact List.pairwise_singleton _ _

end Order

namespace Image

variable (image : Image) (leaders : List (BitVec 64)) (range : FuncRange)

/-- The start and the end of a function, and the leaders between its instructions. -/
def Cut (a : BitVec 64) : Prop :=
  a = range.lopc ∨ a = range.hipc ∨
    (a ∈ leaders ∧ image.Boundary range a ∧ range.lopc < a ∧ a < range.hipc)

/-- The cuts in their order. -/
def cuts : List (BitVec 64) :=
  range.lopc :: ((image.body range).map image.next).filter fun a ↦ a ∈ leaders ∨ a = range.hipc

end Image

section Cuts

variable {image : Image} {leaders : List (BitVec 64)} {range : FuncRange}

theorem mem_cuts (hend : image.Boundary range range.hipc) (a : BitVec 64) :
    a ∈ image.cuts leaders range ↔ image.Cut leaders range a := by
  simp only [Image.cuts, List.mem_cons, List.mem_filter, List.mem_map, mem_body, decide_eq_true_eq]
  constructor
  · rintro (hstart | ⟨⟨addr, haddr, rfl⟩, hcut⟩)
    · exact .inl hstart
    by_cases hstop : image.next addr = range.hipc
    · exact .inr (.inl hstop)
    have hleader := hcut.resolve_right hstop
    have hlow := Std.lt_of_le_of_lt (le_of_reaches haddr.boundary) (lt_next image haddr.inside)
    have hhigh := Std.lt_of_le_of_ne (next_le_of_boundary_end hend haddr) hstop
    exact .inr (.inr ⟨hleader, haddr.boundary.tail ⟨haddr.inside, rfl⟩, hlow, hhigh⟩)
  · have hnext : ∀ {a}, image.Boundary range a → a ≠ range.lopc →
        ∃ addr, image.InstrOf range addr ∧ image.next addr = a := by
      intro a ha hne
      rcases ha.cases_tail with heq | ⟨addr, hreach, hlt, heq⟩
      · exact absurd heq hne
      · exact ⟨addr, ⟨hreach, hlt⟩, heq.symm⟩
    rintro (hstart | rfl | ⟨hleader, hboundary, hlow, -⟩)
    · exact .inl hstart
    · by_cases hempty : range.hipc = range.lopc
      · exact .inl hempty
      · exact .inr ⟨hnext hend hempty, .inr rfl⟩
    · have hne : a ≠ range.lopc := fun h ↦ BitVec.lt_irrefl _ (h ▸ hlow)
      exact .inr ⟨hnext hboundary hne, .inl hleader⟩

theorem pairwise_cuts : (image.cuts leaders range).Pairwise (· < ·) := by
  have hall : (range.lopc :: (image.body range).map image.next).Pairwise (· < ·) :=
    pairwise_next _ _
  exact hall.sublist (List.filter_sublist.cons_cons _)

/-- The ranges of spans are the pieces between cuts. -/
theorem ranges_spansFrom (fuel : Nat) (addr blockPrev : BitVec 64) :
    (image.spansFrom leaders range.hipc fuel addr blockPrev).map (fun span ↦ (span.start, span.stop)) =
      pieces (blockPrev :: ((image.instrsFrom range.hipc fuel addr).map image.next).filter
        fun a ↦ a ∈ leaders ∨ a = range.hipc) := by
  induction fuel generalizing addr blockPrev with
  | zero => rfl
  | succ fuel ih =>
    unfold Image.spansFrom Image.instrsFrom
    by_cases haddr : addr < range.hipc
    · rw [if_pos haddr, if_pos haddr, List.map_cons, List.filter_cons]
      by_cases hcut : image.next addr ∈ leaders ∨ image.next addr = range.hipc
      · rw [if_pos hcut, if_pos (decide_eq_true hcut), List.map_cons, ih, pieces_cons_cons]
      · rw [if_neg hcut, if_neg (by simpa using hcut), ih]
    · rw [if_neg haddr, if_neg haddr]
      rfl

end Cuts

/-! ## The scan succeeds -/

/-- The function and the line of a location are known. -/
def Entered (files : Files) (s : SourceInfo) : Prop :=
  (files.func? s.sourcePath s.symbolName).isSome = true ∧
    (files.line? s.sourcePath s.line).isSome = true

section Scan

variable {files : Files} {cov : Coverage}

theorem addSource_entered {addr : BitVec 64} {s : SourceInfo}
    (hname : s.symbolName ≠ "") (hpath : s.sourcePath ≠ "") :
    ∃ files', addSource addr files s = .ok files' ∧ Entered files' s ∧
      ∀ s', Entered files s' → Entered files' s' := by
  have hadd : addSource addr files s = .ok (files.insert s.sourcePath
      (enter (files[s.sourcePath]?.getD ⟨s.sourcePath, ∅, ∅⟩) s addr)) :=
    if_neg (not_or.mpr ⟨hname, hpath⟩)
  refine ⟨_, hadd, ?_, fun s' hs' ↦ ?_⟩
  · have hfunc := addSource_func hadd s.sourcePath s.symbolName
    have hline := addSource_line hadd s.sourcePath s.line
    rw [Entered, ← Option.isSome_map, hfunc, ← Option.isSome_map (f := lineInfo), hline]
    simp [inFunc, onLine]
  · have hfunc := addSource_func hadd s'.sourcePath s'.symbolName
    have hline := addSource_line hadd s'.sourcePath s'.line
    rw [Entered, ← Option.isSome_map, hfunc, ← Option.isSome_map (f := lineInfo), hline]
    simp [hs'.1, hs'.2]

theorem addSources_entered {addr : BitVec 64} {sources : List SourceInfo}
    (hnamed : ∀ s ∈ sources, s.symbolName ≠ "" ∧ s.sourcePath ≠ "") :
    ∃ files', sources.foldlM (addSource addr) files = .ok files' ∧
      (∀ s ∈ sources, Entered files' s) ∧ ∀ s', Entered files s' → Entered files' s' := by
  induction sources generalizing files with
  | nil => exact ⟨files, rfl, nofun, fun _ h ↦ h⟩
  | cons s sources ih =>
    obtain ⟨hname, hpath⟩ := hnamed s List.mem_cons_self
    obtain ⟨files₁, hfirst, hentered, hkept⟩ := addSource_entered hname hpath
    obtain ⟨files', hrest, hall, hkept'⟩ := ih fun s' hs' ↦ hnamed s' (List.mem_cons_of_mem s hs')
    refine ⟨files', ?_, ?_, fun s' hs' ↦ hkept' s' (hkept s' hs')⟩
    · rw [List.foldlM_cons, hfirst]
      exact hrest
    · intro s' hs'
      rcases List.mem_cons.mp hs' with rfl | hs'
      · exact hkept' s' hentered
      · exact hall s' hs'

/-- The file, the function and the line of a known location. -/
theorem Entered.lookup {s : SourceInfo} (h : Entered files s) :
    ∃ sf f sl, files[s.sourcePath]? = some sf ∧ sf.funcs[s.symbolName]? = some f ∧
      sf.lines[s.line]? = some sl := by
  obtain ⟨hfunc, hline⟩ := h
  obtain ⟨f, hf⟩ := Option.isSome_iff_exists.mp hfunc
  obtain ⟨sl, hsl⟩ := Option.isSome_iff_exists.mp hline
  obtain ⟨sf, hsf, hf⟩ := Option.bind_eq_some_iff.mp hf
  rw [Files.line?, hsf] at hsl
  exact ⟨sf, f, sl, hsf, hf, hsl⟩

theorem Entered.insert_func {path name : String} {sf : SourceFile} {f : Function} {s : SourceInfo}
    (hsf : files[path]? = some sf) (h : Entered files s) :
    Entered (files.insert path { sf with funcs := sf.funcs.insert name f }) s := by
  obtain ⟨hfunc, hline⟩ := h
  refine ⟨?_, ?_⟩
  · rw [Files.func?_insert]
    by_cases hpath : path = s.sourcePath
    · rw [if_pos hpath, getElem?_insert_eq]
      split
      · rfl
      · rw [Files.func?, ← hpath, hsf] at hfunc
        exact hfunc
    · rw [if_neg hpath]
      exact hfunc
  · rw [Files.line?_insert]
    by_cases hpath : path = s.sourcePath
    · rw [Files.line?, ← hpath, hsf] at hline
      rw [if_pos hpath]
      exact hline
    · rw [if_neg hpath]
      exact hline

theorem addBlock_entered {start stop : BitVec 64} {s : SourceInfo} (h : Entered cov.files s) :
    ∃ cov', addBlock start stop cov s = .ok cov' ∧
      cov'.blocks = cov.blocks ++ [⟨start, stop, false⟩] ∧
      ∀ s', Entered cov.files s' → Entered cov'.files s' := by
  obtain ⟨sf, f, sl, hsf, hf, hsl⟩ := h.lookup
  refine ⟨⟨cov.blocks ++ [⟨start, stop, false⟩], cov.files.insert s.sourcePath
    { sf with funcs := (sf.funcs.insert s.symbolName
      { f with blocks := f.blocks ++ [cov.blocks.length] }) }⟩, ?_, rfl, fun s' ↦ .insert_func hsf⟩
  rw [addBlock, hsf]
  dsimp only
  rw [hf, hsl]

theorem addBlocks_entered {start stop : BitVec 64} {sources : List SourceInfo}
    (h : ∀ s ∈ sources, Entered cov.files s) :
    ∃ cov', sources.foldlM (addBlock start stop) cov = .ok cov' ∧
      cov'.blocks = cov.blocks ++ sources.map fun _ ↦ ⟨start, stop, false⟩ := by
  induction sources generalizing cov with
  | nil => exact ⟨cov, rfl, (List.append_nil _).symm⟩
  | cons s sources ih =>
    obtain ⟨cov₁, hfirst, hblocks, hkept⟩ := addBlock_entered (h s List.mem_cons_self)
    obtain ⟨cov', hrest, hblocks'⟩ := ih fun s' hs' ↦ hkept s' (h s' (List.mem_cons_of_mem s hs'))
    refine ⟨cov', ?_, ?_⟩
    · rw [List.foldlM_cons, hfirst]
      exact hrest
    · rw [hblocks', hblocks, List.append_assoc]
      rfl

end Scan

/-- The locations of the instructions of a function have names. -/
def Image.Named (image : Image) (range : FuncRange) : Prop :=
  ∀ addr, image.InstrOf range addr → ∀ s ∈ image.getSources addr,
    s.symbolName ≠ "" ∧ s.sourcePath ≠ ""

section Blocks

variable {image : Image} {leaders : List (BitVec 64)} {range : FuncRange} {cov : Coverage}

/-- The blocks that the entries add. -/
def newBlocks (entries : List (Span × SourceInfo)) : List BasicBlock :=
  entries.map fun e ↦ ⟨e.1.start, e.1.stop, false⟩

theorem addFuncFrom_blocks {fuel : Nat} {addr blockPrev : BitVec 64} (hprev : blockPrev ≤ addr)
    (hload : ∀ a ∈ image.instrsFrom range.hipc fuel addr, ∃ w, image.loadInstr a = .ok w)
    (hnamed : ∀ a ∈ image.instrsFrom range.hipc fuel addr, ∀ s ∈ image.getSources a,
      s.symbolName ≠ "" ∧ s.sourcePath ≠ "") :
    ∃ cov', addFuncFrom image leaders range fuel addr blockPrev cov = .ok cov' ∧
      cov'.blocks = cov.blocks ++
        newBlocks (image.entries (image.spansFrom leaders range.hipc fuel addr blockPrev)) := by
  induction fuel generalizing addr blockPrev cov with
  | zero => exact ⟨cov, rfl, (List.append_nil _).symm⟩
  | succ fuel ih =>
    unfold Image.instrsFrom at hload hnamed
    unfold addFuncFrom Image.spansFrom
    by_cases haddr : addr < range.hipc
    · rw [if_pos haddr] at hload hnamed ⊢
      rw [if_pos haddr]
      have hnext := lt_next image haddr
      have hload' := fun a ha ↦ hload a (List.mem_cons_of_mem addr ha)
      have hnamed' := fun a ha ↦ hnamed a (List.mem_cons_of_mem addr ha)
      obtain ⟨files, hfiles, hentered, -⟩ :=
        @addSources_entered cov.files addr _ (hnamed addr List.mem_cons_self)
      obtain ⟨w, hw⟩ := hload addr List.mem_cons_self
      have hfetch : image.fetch addr = .ok w := by
        rw [Image.fetch, hw]
        rfl
      dsimp only
      rw [hfiles, hfetch]
      dsimp only [bind, Except.bind]
      rw [← Image.next_of_fetch hfetch]
      by_cases hcut : image.next addr ∈ leaders ∨ image.next addr = range.hipc
      · rw [if_pos hcut, if_pos hcut]
        have hlt : blockPrev < image.next addr := Std.lt_of_le_of_lt hprev hnext
        rw [if_pos hlt]
        obtain ⟨cov₁, hadd, hblocks₁⟩ := @addBlocks_entered { cov with files := files } blockPrev
          (image.next addr) (image.getSources addr) hentered
        obtain ⟨cov', hrest, hblocks'⟩ := @ih cov₁ _ _ (BitVec.le_refl _) hload' hnamed'
        refine ⟨cov', ?_, ?_⟩
        · rw [hadd]
          exact hrest
        · rw [hblocks', hblocks₁, entries_cons, newBlocks, newBlocks, List.map_append, List.map_map,
            List.append_assoc]
          rfl
      · rw [if_neg hcut, if_neg hcut]
        have hprev' := BitVec.le_trans hprev (BitVec.le_of_lt hnext)
        exact @ih { cov with files := files } _ _ hprev' hload' hnamed'
    · rw [if_neg haddr, if_neg haddr]
      exact ⟨cov, rfl, (List.append_nil _).symm⟩

/-! ## The partition -/

/-- The added blocks are the intervals between neighbouring cuts, and so a partition of the
function. -/
structure Partitions (image : Image) (leaders : List (BitVec 64)) (range : FuncRange)
    (added : List BasicBlock) : Prop where
  ranges : ∀ a b, (∃ block ∈ added, block.start = a ∧ block.stop = b) ↔
    Neighbours (image.Cut leaders range) a b
  disjoint : ∀ block ∈ added, ∀ block' ∈ added,
    (block.start, block.stop) ≠ (block'.start, block'.stop) →
      ∀ a, block.start ≤ a ∧ a < block.stop → ¬ (block'.start ≤ a ∧ a < block'.stop)
  covers : ∀ a, range.lopc ≤ a → a < range.hipc →
    ∃ block ∈ added, block.start ≤ a ∧ a < block.stop

/-- The block that is looked for is found if there is one. -/
theorem exists_visited {addr : BitVec 64} {blocks : List BasicBlock}
    (h : ∃ block ∈ blocks, block.start ≤ addr ∧ addr < block.stop) :
    ∃ block ∈ visit addr blocks, block.start ≤ addr ∧ addr < block.stop ∧ block.visited = true := by
  induction blocks with
  | nil =>
    obtain ⟨block, hmem, -⟩ := h
    cases hmem
  | cons block blocks ih =>
    unfold visit
    by_cases hin : block.start ≤ addr ∧ addr < block.stop
    · rw [if_pos hin]
      exact ⟨_, List.mem_cons_self, hin.1, hin.2, rfl⟩
    · rw [if_neg hin]
      have hrest : ∃ b ∈ blocks, b.start ≤ addr ∧ addr < b.stop := by
        obtain ⟨b, hmem, hb⟩ := h
        rcases List.mem_cons.mp hmem with rfl | hmem
        · exact absurd hb hin
        · exact ⟨b, hmem, hb⟩
      obtain ⟨b, hmem, hb⟩ := ih hrest
      exact ⟨b, List.mem_cons_of_mem _ hmem, hb⟩

/-- The ranges of the blocks of spans whose last instructions have locations. -/
theorem exists_newBlock_iff {spans : List Span}
    (hsources : ∀ span ∈ spans, image.getSources span.last ≠ []) (a b : BitVec 64) :
    (∃ block ∈ newBlocks (image.entries spans), block.start = a ∧ block.stop = b) ↔
      (a, b) ∈ spans.map fun span ↦ (span.start, span.stop) := by
  simp only [newBlocks, List.mem_map, Prod.mk.injEq]
  constructor
  · rintro ⟨_, ⟨e, he, rfl⟩, hrange⟩
    exact ⟨e.1, (mem_entries.mp he).1, hrange⟩
  · rintro ⟨span, hspan, hrange⟩
    obtain ⟨s, hs⟩ := List.exists_mem_of_ne_nil _ (hsources span hspan)
    exact ⟨_, ⟨(span, s), mem_entries.mpr ⟨hspan, hs⟩, rfl⟩, hrange⟩

theorem partitions_of_ranges {added : List BasicBlock} (hend : image.Boundary range range.hipc)
    (h : ∀ a b, (∃ block ∈ added, block.start = a ∧ block.stop = b) ↔
      (a, b) ∈ pieces (image.cuts leaders range)) :
    Partitions image leaders range added := by
  have hcut : (· ∈ image.cuts leaders range) = image.Cut leaders range :=
    funext fun a ↦ propext (mem_cuts hend a)
  have hranges : ∀ a b, (∃ block ∈ added, block.start = a ∧ block.stop = b) ↔
      Neighbours (image.Cut leaders range) a b := by
    intro a b
    rw [h, mem_pieces pairwise_cuts, hcut]
  refine ⟨hranges, fun block hblock block' hblock' hne a ha ha' ↦ hne ?_, fun a hlow hhigh ↦ ?_⟩
  · have hneighbours := (hranges _ _).mp ⟨block, hblock, rfl, rfl⟩
    have hneighbours' := (hranges _ _).mp ⟨block', hblock', rfl, rfl⟩
    obtain ⟨hstart, hstop⟩ := hneighbours.eq_of_mem hneighbours' ha.1 ha.2 ha'.1 ha'.2
    rw [hstart, hstop]
  · have hmem : range.hipc ∈ image.cuts leaders range := (mem_cuts hend _).mpr (.inr (.inl rfl))
    have htail := (List.mem_cons.mp hmem).resolve_left fun heq ↦
      absurd (Std.lt_of_le_of_lt hlow hhigh) (heq ▸ BitVec.lt_irrefl _)
    obtain ⟨p, hp, hin⟩ := exists_mem_pieces hlow htail hhigh
    obtain ⟨block, hblock, hstart, hstop⟩ := (h p.1 p.2).mpr hp
    refine ⟨block, hblock, ?_⟩
    rw [hstart, hstop]
    exact hin

theorem addFunc_partitions (leaders : List (BitVec 64)) (cov : Coverage)
    (hend : image.Boundary range range.hipc)
    (hload : ∀ addr, image.InstrOf range addr → ∃ w, image.loadInstr addr = .ok w)
    (hsources : ∀ addr, image.InstrOf range addr → image.getSources addr ≠ [])
    (hnamed : image.Named range) :
    ∃ cov' added, addFunc image leaders cov range = .ok cov' ∧ cov'.blocks = cov.blocks ++ added ∧
      Partitions image leaders range added ∧
      ∀ addr, image.InstrOf range addr →
        ∃ block ∈ visit addr cov'.blocks,
          block.start ≤ addr ∧ addr < block.stop ∧ block.visited = true := by
  obtain ⟨cov', hrun, hblocks⟩ := @addFuncFrom_blocks image leaders range cov
    (range.hipc.toNat - range.lopc.toNat) range.lopc range.lopc (BitVec.le_refl _)
    (fun a ha ↦ hload a (mem_body.mp ha)) (fun a ha ↦ hnamed a (mem_body.mp ha))
  have hlast : ∀ span ∈ image.spansFrom leaders range.hipc (range.hipc.toNat - range.lopc.toNat)
      range.lopc range.lopc, image.getSources span.last ≠ [] :=
    fun span hspan ↦ hsources _ (mem_body.mp (mem_spansFrom (BitVec.le_refl _) hspan).2)
  have hpartitions := partitions_of_ranges hend fun a b ↦ by
    rw [exists_newBlock_iff hlast a b, ranges_spansFrom]
    rfl
  refine ⟨cov', _, hrun, hblocks, hpartitions, fun addr haddr ↦ exists_visited ?_⟩
  obtain ⟨block, hblock, hin⟩ :=
    hpartitions.covers addr (le_of_reaches haddr.boundary) haddr.inside
  exact ⟨block, hblocks ▸ List.mem_append_right _ hblock, hin⟩

end Blocks

/-- Two instructions, with a leader between them and one inside the second. -/
theorem addFunc_partitions_plainSpan :
    ∃ cov' added,
      addFunc plainSpan [4#64, 6#64] ⟨[], ∅⟩ eightBytes = .ok cov' ∧
      cov'.blocks = [] ++ added ∧
      Partitions plainSpan [4#64, 6#64] eightBytes added := by
  have hend : plainSpan.Boundary eightBytes 8#64 :=
    (Relation.ReflTransGen.single ⟨by decide, by decide⟩).tail (b := 4#64) ⟨by decide, by decide⟩
  have hbody : plainSpan.body eightBytes = [0#64, 4#64] := by decide +kernel
  have hsources : ∀ addr, plainSpan.InstrOf eightBytes addr →
      plainSpan.getSources addr = [⟨"main", "main.c", 1, 1⟩] := by
    intro addr haddr
    have hmem := mem_body.mpr haddr
    rw [hbody] at hmem
    rcases List.mem_cons.mp hmem with rfl | hmem
    · rfl
    · rw [List.mem_singleton.mp hmem]
      rfl
  have hnamed : plainSpan.Named eightBytes := by
    intro addr haddr s hs
    rw [hsources addr haddr, List.mem_singleton] at hs
    rw [hs]
    decide
  obtain ⟨cov', added, hrun, hblocks, hpartitions, -⟩ :=
    addFunc_partitions [4#64, 6#64] ⟨[], ∅⟩ hend (fun addr _ ↦ ⟨_, rfl⟩)
      (fun addr haddr ↦ by simp [hsources addr haddr]) hnamed
  exact ⟨cov', added, hrun, hblocks, hpartitions⟩

end CoverageVP.Iss.Coverage
