import CoverageVP.Iss.CoverageBlocks
import CoverageVP.Iss.CoverageCounts

/-!
# Unexecuted blocks of lines

A block is attached to a copy of a line, so the lines of the report have no blocks, and one is
reported to have an unexecuted block if and only if it is not counted. That is right for the lines
whose first instruction is executed together with all blocks of the line.
-/

namespace CoverageVP.Iss.Coverage

/-! ## Lines have no blocks -/

def NoLineBlocks (files : Files) : Prop :=
  ∀ p l sl, files.line? p l = some sl → sl.blocks = []

theorem invariant_of_foldlM {ε α β : Type} {P : β → Prop} {f : β → α → Except ε β}
    (hstep : ∀ b a b', P b → f b a = .ok b' → P b') {l : List α} {b b' : β} (hb : P b)
    (h : l.foldlM f b = .ok b') : P b' := by
  induction l generalizing b with
  | nil =>
    obtain rfl := Except.ok.inj h
    exact hb
  | cons a l ih =>
    rw [List.foldlM_cons] at h
    obtain ⟨b₁, hfirst, hrest⟩ := exists_ok_of_bind h
    exact ih (hstep b a b₁ hb hfirst) hrest

section NoLineBlocks

variable {files files' : Files} {cov cov' : Coverage}

theorem NoLineBlocks.insert_file (h : NoLineBlocks files) {path : String} {sf : SourceFile}
    (hsf : ∀ (l : Int) (sl : SourceLine), sf.lines[l]? = some sl → sl.blocks = []) :
    NoLineBlocks (files.insert path sf) := by
  intro p l sl hsl
  rw [Files.line?_insert] at hsl
  split at hsl
  · exact hsf l sl hsl
  · exact h p l sl hsl

theorem NoLineBlocks.addSource {addr : BitVec 64} {s : SourceInfo} (h : NoLineBlocks files)
    (hadd : Coverage.addSource addr files s = .ok files') : NoLineBlocks files' := by
  unfold Coverage.addSource at hadd
  split at hadd
  · cases hadd
  obtain rfl := Except.ok.inj hadd
  refine h.insert_file fun l sl hsl ↦ ?_
  have hold : ∀ sl, (files[s.sourcePath]?.getD ⟨s.sourcePath, ∅, ∅⟩).lines[l]? = some sl →
      sl.blocks = [] := by
    intro sl hsl
    rw [Files.lines_getD] at hsl
    exact h _ l sl hsl
  unfold enter at hsl
  dsimp only at hsl
  split at hsl
  · exact hold sl hsl
  · rw [getElem?_insert_eq] at hsl
    split at hsl
    · obtain rfl := Option.some.inj hsl
      rfl
    · exact hold sl hsl

theorem NoLineBlocks.addBlock {start stop : BitVec 64} {s : SourceInfo}
    (h : NoLineBlocks cov.files) (hadd : Coverage.addBlock start stop cov s = .ok cov') :
    NoLineBlocks cov'.files := by
  obtain ⟨sf, f, hsf, -, rfl⟩ := addBlock_eq hadd
  refine h.insert_file fun l sl hsl ↦ h s.sourcePath l sl ?_
  rw [Files.line?, hsf]
  exact hsl

variable {image : Image}

theorem NoLineBlocks.addFuncFrom {leaders : List (BitVec 64)} {range : FuncRange} {fuel : Nat}
    {addr blockPrev : BitVec 64} (h : NoLineBlocks cov.files)
    (hadd : Coverage.addFuncFrom image leaders range fuel addr blockPrev cov = .ok cov') :
    NoLineBlocks cov'.files := by
  induction fuel generalizing cov addr blockPrev with
  | zero =>
    obtain rfl := Except.ok.inj hadd
    exact h
  | succ fuel ih =>
    unfold Coverage.addFuncFrom at hadd
    split at hadd
    case isFalse =>
      obtain rfl := Except.ok.inj hadd
      exact h
    case isTrue =>
      obtain ⟨files, hfiles, hadd⟩ := exists_ok_of_bind hadd
      obtain ⟨instr, -, hadd⟩ := exists_ok_of_bind hadd
      have hentered : NoLineBlocks files :=
        invariant_of_foldlM (fun _ _ _ ↦ NoLineBlocks.addSource) h hfiles
      dsimp only at hadd
      split at hadd
      case isFalse => exact @ih { cov with files := files } _ _ hentered hadd
      split at hadd
      case isFalse => cases hadd
      obtain ⟨cov₁, hblocks, hadd⟩ := exists_ok_of_bind hadd
      have hattached : NoLineBlocks cov₁.files :=
        invariant_of_foldlM (P := fun c : Coverage ↦ NoLineBlocks c.files)
          (fun _ _ _ ↦ NoLineBlocks.addBlock) hentered hblocks
      exact ih hattached hadd

theorem noLineBlocks_init (h : init image = .ok cov) : NoLineBlocks cov.files := by
  obtain ⟨leaders, -, hadd⟩ := exists_ok_of_bind h
  have hempty : NoLineBlocks ∅ := by
    intro p l sl hsl
    rw [Files.line?, Std.ExtTreeMap.getElem?_empty] at hsl
    cases hsl
  exact invariant_of_foldlM (P := fun c : Coverage ↦ NoLineBlocks c.files)
    (fun _ _ _ ↦ NoLineBlocks.addFuncFrom) hempty hadd

theorem blocks_countLine (p : String) (l : Int) (hits : List Hit) (sl : SourceLine) :
    (countLine p l hits sl).blocks = sl.blocks := by
  induction hits generalizing sl with
  | nil => rfl
  | cons hit hits ih =>
    rw [countLine_cons, ih]
    split
    · rfl
    · rfl

/-- A line is reported to have an unexecuted block if and only if its count is zero. -/
theorem unexecutedBlock_iff {executed : List Executed} (hinit : init image = .ok cov)
    (hrun : coverAll image executed cov = .ok () cov') {p : String} {l : Int} {sl : SourceLine}
    (hsl : Files.line? cov'.files p l = some sl) :
    (sl.toJson cov').unexecutedBlock = true ↔ ¬ 0 < sl.execCount := by
  have hblocks : sl.blocks = [] := by
    rw [(counted_coverAll hrun).lines] at hsl
    obtain ⟨sl₀, hsl₀, rfl⟩ := Option.map_eq_some_iff.mp hsl
    rw [blocks_countLine, noLineBlocks_init hinit p l sl₀ hsl₀]
  simp [SourceLine.toJson, hblocks, blocksAt]

end NoLineBlocks

/-! ## Blocks of lines -/

/-- The span holds an instruction of the line. -/
def Image.HoldsLine (image : Image) (p : String) (l : Int) (span : Span) : Prop :=
  ∃ addr ∈ image.instrs, image.mapsToLine p l addr = true ∧ span.Contains addr

def Span.Executed (span : Span) (executed : List Executed) : Prop :=
  ∃ e ∈ executed, span.Contains e.addr

/-- Lines are reported to have an unexecuted block if and only if they have not been executed, or a
block with an instruction of theirs has not. -/
def UnexecutedBlocksExact (image : Image) (executed : List Executed) (cov : Coverage) : Prop :=
  ∀ p l sl, Files.line? cov.files p l = some sl →
    ((sl.toJson cov).unexecutedBlock = true ↔
      (¬ ∃ e ∈ executed, image.mapsToLine p l e.addr = true) ∨
        ∃ span ∈ image.spans, image.HoldsLine p l span ∧ ¬ span.Executed executed)

/-- The first instruction of a line stands for all of its blocks: if it is executed, then so is
every block of the line, and if only other instructions of the line are, some block is not. -/
structure FirstForBlocks (image : Image) (executed : List Executed) : Prop where
  all : ∀ p l first, image.instrs.find? (image.mapsToLine p l) = some first →
    (∃ e ∈ executed, e.addr = first) →
    ∀ span ∈ image.spans, image.HoldsLine p l span → span.Executed executed
  missed : ∀ p l first, image.instrs.find? (image.mapsToLine p l) = some first →
    (¬ ∃ e ∈ executed, e.addr = first) → (∃ e ∈ executed, image.mapsToLine p l e.addr = true) →
    ∃ span ∈ image.spans, image.HoldsLine p l span ∧ ¬ span.Executed executed

section Lines

variable {image : Image} {executed : List Executed} {cov cov' : Coverage}

/-- A line is reported to have an unexecuted block if and only if its first instruction has not been
executed. -/
theorem unexecutedBlock_iff_first (hinit : init image = .ok cov)
    (hrun : coverAll image executed cov = .ok () cov') {p : String} {l : Int} {sl : SourceLine}
    (hsl : Files.line? cov'.files p l = some sl) :
    ∃ first, image.instrs.find? (image.mapsToLine p l) = some first ∧
      ((sl.toJson cov').unexecutedBlock = true ↔ ¬ ∃ e ∈ executed, e.addr = first) := by
  obtain ⟨first, hfirst, hcount, -⟩ := line?_of_run hinit hrun hsl
  refine ⟨first, hfirst, ?_⟩
  rw [unexecutedBlock_iff hinit hrun hsl, hcount]
  refine not_congr ⟨fun ⟨e, he, _, heq⟩ ↦ ⟨e, he, heq⟩, fun ⟨e, he, heq⟩ ↦ ⟨e, he, ?_, heq⟩⟩
  rw [heq]
  exact List.find?_some hfirst

theorem unexecutedBlocksExact_iff (hinit : init image = .ok cov)
    (hrun : coverAll image executed cov = .ok () cov') :
    UnexecutedBlocksExact image executed cov' ↔ FirstForBlocks image executed := by
  constructor
  · intro h
    refine ⟨fun p l first hfirst hexecuted span hspan hholds ↦ ?_,
      fun p l first hfirst hnot hexecuted ↦ ?_⟩
    · obtain ⟨sl, hsl⟩ := exists_line?_of_run hinit hrun hfirst
      obtain ⟨first', hfirst', hiff⟩ := unexecutedBlock_iff_first hinit hrun hsl
      obtain rfl := Option.some.inj (hfirst.symm.trans hfirst')
      by_contra hspanNot
      exact hiff.mp ((h p l sl hsl).mpr (.inr ⟨span, hspan, hholds, hspanNot⟩)) hexecuted
    · obtain ⟨sl, hsl⟩ := exists_line?_of_run hinit hrun hfirst
      obtain ⟨first', hfirst', hiff⟩ := unexecutedBlock_iff_first hinit hrun hsl
      obtain rfl := Option.some.inj (hfirst.symm.trans hfirst')
      exact ((h p l sl hsl).mp (hiff.mpr hnot)).resolve_left (not_not.mpr hexecuted)
  · intro h p l sl hsl
    obtain ⟨first, hfirst, hiff⟩ := unexecutedBlock_iff_first hinit hrun hsl
    rw [hiff]
    constructor
    · intro hnot
      by_cases hexecuted : ∃ e ∈ executed, image.mapsToLine p l e.addr = true
      · exact .inr (h.missed p l first hfirst hnot hexecuted)
      · exact .inl hexecuted
    · rintro (hnever | ⟨span, hspan, hholds, hspanNot⟩) ⟨e, he, rfl⟩
      · exact hnever ⟨e, he, List.find?_some hfirst⟩
      · exact hspanNot (h.all p l _ hfirst ⟨e, he, rfl⟩ span hspan hholds)

end Lines

/-! ## A line of one block and a line of three -/

theorem unexecutedBlocksExact_plainSpan :
    ∃ cov cov', init plainSpan = .ok cov ∧ coverAll plainSpan executedSpan cov = .ok () cov' ∧
      UnexecutedBlocksExact plainSpan executedSpan cov' := by
  have hinit : init plainSpan = .ok (initial plainSpan) := init_eq_initial (by decide +kernel)
  have hrun := Lib.eq_ok_of_returns (m := coverAll plainSpan executedSpan)
    (s := initial plainSpan) (by decide +kernel)
  have hspans : plainSpan.spans = [⟨0#64, 8#64, 4#64⟩] := by decide +kernel
  have hinstrs : plainSpan.instrs = [0#64, 4#64] := by decide +kernel
  have hall : ∀ addr ∈ plainSpan.instrs, ∃ e ∈ executedSpan, e.addr = addr := by
    rw [hinstrs]
    simp [executedSpan]
  refine ⟨_, _, hinit, hrun, (unexecutedBlocksExact_iff hinit hrun).mpr ⟨?_, ?_⟩⟩
  · intro p l first _ _ span hspan _
    rw [hspans, List.mem_singleton] at hspan
    rw [hspan]
    exact ⟨_, List.mem_cons_self, by decide⟩
  · intro p l first hfirst hnot _
    exact absurd (hall first (List.mem_of_find?_eq_some hfirst)) hnot

/-- A branch over one instruction, all on one line. -/
def branchLine : Image where
  loadInstr := fun addr ↦ .ok (if addr = 0#64 then 0x463#32 else 0x13#32)
  functions := [twelveBytes]
  getSources := fun addr ↦ if addr.toNat < 12 then [⟨"main", "main.c", 1, 1⟩] else []

def branchTaken : List Executed := [⟨0#64, ⟨false, false, false⟩⟩, ⟨8#64, ⟨false, false, false⟩⟩]

/-- The instruction that is jumped over is a block of the line and not reported. -/
theorem not_unexecutedBlocksExact_branchLine :
    ∃ cov cov', init branchLine = .ok cov ∧ coverAll branchLine branchTaken cov = .ok () cov' ∧
      ¬ UnexecutedBlocksExact branchLine branchTaken cov' := by
  have hinit : init branchLine = .ok (initial branchLine) := init_eq_initial (by decide +kernel)
  have hrun := Lib.eq_ok_of_returns (m := coverAll branchLine branchTaken)
    (s := initial branchLine) (by decide +kernel)
  have hreport : (fun cov' : Coverage ↦ (Files.line? cov'.files "main.c" 1).map fun sl ↦
      (sl.toJson cov').unexecutedBlock)
        (Lib.stateAfter (coverAll branchLine branchTaken) (initial branchLine)) =
      some false := by decide +kernel
  have hspan : (⟨4#64, 8#64, 4#64⟩ : Span) ∈ branchLine.spans := by decide +kernel
  have hholds : branchLine.HoldsLine "main.c" 1 ⟨4#64, 8#64, 4#64⟩ :=
    ⟨4#64, by decide +kernel, by decide +kernel, by decide⟩
  refine ⟨_, _, hinit, hrun, fun h ↦ ?_⟩
  obtain ⟨sl, hsl, hfalse⟩ := Option.map_eq_some_iff.mp hreport
  have htrue := (h "main.c" 1 sl hsl).mpr (.inr ⟨_, hspan, hholds, ?_⟩)
  · rw [hfalse] at htrue
    cases htrue
  · simp [Span.Executed, branchTaken, Span.Contains]

end CoverageVP.Iss.Coverage
