import CoverageVP.Iss.CoverageInit
import Mathlib.Data.List.Basic

/-!
# What the coverage records

The initialisation enters a line and a function with the first instruction that maps to it, in the
order in which the instructions are visited, and a block for each location of the last instruction
of a span between two leaders. Executed instructions change counts, flags and marks of what has been
entered, and nothing else.
-/

namespace CoverageVP.Iss.Coverage

open Instr

/-! ## Lookups -/

theorem getElem?_insert_eq {α β : Type} [Ord α] [Std.TransOrd α] [Std.LawfulEqOrd α] [DecidableEq α]
    (m : Std.ExtTreeMap α β compare) (k a : α) (v : β) :
    (m.insert k v)[a]? = if k = a then some v else m[a]? := by
  rw [Std.ExtTreeMap.getElem?_insert]
  exact if_congr Std.LawfulEqCmp.compare_eq_iff_eq rfl rfl

namespace Files

def line? (files : Files) (path : String) (line : Int) : Option SourceLine :=
  files[path]?.bind (·.lines[line]?)

def func? (files : Files) (path name : String) : Option Function :=
  files[path]?.bind (·.funcs[name]?)

theorem line?_insert (files : Files) (path : String) (sf : SourceFile) (p : String) (l : Int) :
    line? (files.insert path sf) p l = if path = p then sf.lines[l]? else files.line? p l := by
  rw [line?, getElem?_insert_eq]
  split
  · rfl
  · rfl

theorem func?_insert (files : Files) (path : String) (sf : SourceFile) (p n : String) :
    func? (files.insert path sf) p n = if path = p then sf.funcs[n]? else files.func? p n := by
  rw [func?, getElem?_insert_eq]
  split
  · rfl
  · rfl

theorem lines_getD (files : Files) (p : String) (l : Int) :
    (files[p]?.getD ⟨p, ∅, ∅⟩).lines[l]? = files.line? p l := by
  rw [line?]
  cases files[p]? with
  | none => exact Std.ExtTreeMap.getElem?_empty
  | some sf => rfl

theorem funcs_getD (files : Files) (p n : String) :
    (files[p]?.getD ⟨p, ∅, ∅⟩).funcs[n]? = files.func? p n := by
  rw [func?]
  cases files[p]? with
  | none => exact Std.ExtTreeMap.getElem?_empty
  | some sf => rfl

end Files

def inFile (s : SourceInfo) (path : String) : Bool := s.sourcePath = path

def onLine (s : SourceInfo) (path : String) (line : Int) : Bool :=
  s.sourcePath = path && s.line = line

def inFunc (s : SourceInfo) (path name : String) : Bool :=
  s.sourcePath = path && s.symbolName = name

namespace Image

variable (image : Image)

def mapsToFile (path : String) (addr : BitVec 64) : Bool :=
  (image.getSources addr).any (inFile · path)

def mapsToLine (path : String) (line : Int) (addr : BitVec 64) : Bool :=
  (image.getSources addr).any (onLine · path line)

def mapsToFunc (path name : String) (addr : BitVec 64) : Bool :=
  (image.getSources addr).any (inFunc · path name)

end Image

/-! ## Entering a location -/

/-- What is counted for a line: its first instruction, its count, and whether a flag is set. -/
def lineInfo (sl : SourceLine) : BitVec 64 × Nat × Bool :=
  (sl.firstInstr, sl.execCount, sl.symbolicOnce || sl.taintedOnce || sl.initialConc)

/-- What is counted for a function: its first instruction, its count, and its blocks. -/
def funcInfo (f : Function) : BitVec 64 × Nat × List Nat := (f.firstInstr, f.execCount, f.blocks)

theorem funcInfo_extendTo (f : Function) (definition : Location) :
    funcInfo (extendTo f definition) = funcInfo f := by
  unfold extendTo
  split
  · rfl
  · rfl

theorem lines_enter (sf : SourceFile) (s : SourceInfo) (addr : BitVec 64) (l : Int) :
    (enter sf s addr).lines[l]?.map lineInfo = (sf.lines[l]?.map lineInfo).or
      (if s.line = l then some (addr, 0, false) else none) := by
  unfold enter
  by_cases hmem : s.line ∈ sf.lines
  · rw [if_pos hmem]
    by_cases hl : s.line = l
    · obtain ⟨sl, hsl⟩ := Option.isSome_iff_exists.mp
        (Std.ExtTreeMap.mem_iff_isSome_getElem?.mp (hl ▸ hmem))
      rw [hsl]
      rfl
    · rw [if_neg hl, Option.or_none]
  · rw [if_neg hmem, getElem?_insert_eq]
    by_cases hl : s.line = l
    · rw [if_pos hl, if_pos hl, ← hl, Std.ExtTreeMap.getElem?_eq_none hmem]
      rfl
    · rw [if_neg hl, if_neg hl, Option.or_none]

theorem funcs_enter (sf : SourceFile) (s : SourceInfo) (addr : BitVec 64) (n : String) :
    (enter sf s addr).funcs[n]?.map funcInfo = (sf.funcs[n]?.map funcInfo).or
      (if s.symbolName = n then some (addr, 0, []) else none) := by
  have hentry : ∀ f : Function,
      funcInfo f = funcInfo (sf.funcs[s.symbolName]?.getD (newFunction s addr)) →
      (sf.funcs.insert s.symbolName f)[n]?.map funcInfo = (sf.funcs[n]?.map funcInfo).or
        (if s.symbolName = n then some (addr, 0, []) else none) := by
    intro f hf
    rw [getElem?_insert_eq]
    by_cases hn : s.symbolName = n
    · rw [if_pos hn, if_pos hn, ← hn, Option.map_some, hf]
      cases sf.funcs[s.symbolName]? with
      | none => rfl
      | some f => rfl
    · rw [if_neg hn, if_neg hn, Option.or_none]
  unfold enter
  by_cases hmem : s.line ∈ sf.lines
  · rw [if_pos hmem]
    exact hentry _ rfl
  · rw [if_neg hmem]
    exact hentry _ (funcInfo_extendTo _ _)

section AddSource

variable {addr : BitVec 64} {files files' : Files} {s : SourceInfo}

theorem addSource_line (h : addSource addr files s = .ok files') (p : String) (l : Int) :
    (files'.line? p l).map lineInfo = ((files.line? p l).map lineInfo).or
      (if onLine s p l then some (addr, 0, false) else none) := by
  unfold addSource at h
  split at h
  · cases h
  obtain rfl := Except.ok.inj h
  rw [Files.line?_insert]
  by_cases hp : s.sourcePath = p
  · obtain rfl := hp
    rw [if_pos rfl, lines_enter, Files.lines_getD]
    simp [onLine]
  · rw [if_neg hp, onLine, decide_eq_false hp, Bool.false_and, if_neg Bool.false_ne_true,
      Option.or_none]

theorem addSource_func (h : addSource addr files s = .ok files') (p n : String) :
    (files'.func? p n).map funcInfo = ((files.func? p n).map funcInfo).or
      (if inFunc s p n then some (addr, 0, []) else none) := by
  unfold addSource at h
  split at h
  · cases h
  obtain rfl := Except.ok.inj h
  rw [Files.func?_insert]
  by_cases hp : s.sourcePath = p
  · obtain rfl := hp
    rw [if_pos rfl, funcs_enter, Files.funcs_getD]
    simp [inFunc]
  · rw [if_neg hp, inFunc, decide_eq_false hp, Bool.false_and, if_neg Bool.false_ne_true,
      Option.or_none]

theorem addSource_file (h : addSource addr files s = .ok files') (p : String) :
    p ∈ files' ↔ p ∈ files ∨ inFile s p = true := by
  unfold addSource at h
  split at h
  · cases h
  obtain rfl := Except.ok.inj h
  rw [Std.ExtTreeMap.mem_insert, Std.LawfulEqCmp.compare_eq_iff_eq, inFile, decide_eq_true_iff,
    or_comm]

end AddSource

/-- The instructions between two leaders. -/
structure Span where
  start : BitVec 64
  stop : BitVec 64
  last : BitVec 64
  deriving DecidableEq

namespace Image

variable (image : Image)

/-- The address after an instruction; the initialisation does not get past one that cannot be
loaded. -/
def next (addr : BitVec 64) : BitVec 64 :=
  match image.loadInstr addr with
  | .ok instr => addr + instrSize instr
  | .error _ => addr + 4#64

def instrsFrom (hipc : BitVec 64) : Nat → BitVec 64 → List (BitVec 64)
  | 0, _ => []
  | fuel + 1, addr =>
    if addr < hipc then addr :: instrsFrom hipc fuel (image.next addr) else []

def spansFrom (leaders : List (BitVec 64)) (hipc : BitVec 64) :
    Nat → BitVec 64 → BitVec 64 → List Span
  | 0, _, _ => []
  | fuel + 1, addr, blockPrev =>
    if addr < hipc then
      if image.next addr ∈ leaders ∨ image.next addr = hipc then
        ⟨blockPrev, image.next addr, addr⟩ ::
          spansFrom leaders hipc fuel (image.next addr) (image.next addr)
      else spansFrom leaders hipc fuel (image.next addr) blockPrev
    else []

def leaders : List (BitVec 64) :=
  (image.functions.foldlM (initBasicBlocks image) []).toOption.getD []

/-- The instructions of all functions, in the order in which they are visited. -/
def instrs : List (BitVec 64) :=
  image.functions.flatMap fun range ↦
    image.instrsFrom range.hipc (range.hipc.toNat - range.lopc.toNat) range.lopc

/-- The spans of all functions, in the order in which they are visited. -/
def spans : List Span :=
  image.functions.flatMap fun range ↦
    image.spansFrom image.leaders range.hipc (range.hipc.toNat - range.lopc.toNat) range.lopc
      range.lopc

/-- The locations of instructions. -/
def visits (addrs : List (BitVec 64)) : List (BitVec 64 × SourceInfo) :=
  addrs.flatMap fun addr ↦ (image.getSources addr).map (addr, ·)

/-- The blocks of spans, with the locations they are attached to. -/
def entries (spans : List Span) : List (Span × SourceInfo) :=
  spans.flatMap fun span ↦ (image.getSources span.last).map (span, ·)

end Image

/-! ## The initialisation -/

/-- The coverage after the visits and with the blocks given. -/
structure Records (visits : List (BitVec 64 × SourceInfo)) (entries : List (Span × SourceInfo))
    (cov : Coverage) : Prop where
  lines : ∀ p l, (Files.line? cov.files p l).map lineInfo =
    (visits.find? fun v ↦ onLine v.2 p l).map fun v ↦ (v.1, 0, false)
  funcs : ∀ p n, (Files.func? cov.files p n).map funcInfo =
    (visits.find? fun v ↦ inFunc v.2 p n).map fun v ↦
      (v.1, 0, entries.findIdxs fun e ↦ inFunc e.2 p n)
  files : ∀ p, p ∈ cov.files ↔ ∃ v ∈ visits, inFile v.2 p = true
  blocks : cov.blocks = entries.map fun e ↦ ⟨e.1.start, e.1.stop, false⟩
  visited : ∀ e ∈ entries, ∃ addr, (addr, e.2) ∈ visits

theorem Records.empty : Records [] [] ⟨[], ∅⟩ where
  lines := fun p l ↦ by
    rw [Files.line?, Std.ExtTreeMap.getElem?_empty]
    rfl
  funcs := fun p n ↦ by
    rw [Files.func?, Std.ExtTreeMap.getElem?_empty]
    rfl
  files := fun p ↦ by simp
  blocks := rfl
  visited := nofun

section Steps

variable {visits : List (BitVec 64 × SourceInfo)} {entries : List (Span × SourceInfo)}
  {cov : Coverage}

theorem find?_append_singleton {α : Type} (l : List α) (a : α) (q : α → Bool) :
    (l ++ [a]).find? q = (l.find? q).or (if q a then some a else none) := by
  rw [List.find?_append, List.find?_cons, List.find?_nil]
  cases q a with
  | true => rfl
  | false => rfl

theorem Records.addSource (h : Records visits entries cov) {addr : BitVec 64} {s : SourceInfo}
    {files : Files} (hadd : addSource addr cov.files s = .ok files) :
    Records (visits ++ [(addr, s)]) entries { cov with files := files } where
  lines := by
    intro p l
    rw [addSource_line hadd, h.lines, find?_append_singleton]
    cases visits.find? fun v ↦ onLine v.2 p l with
    | some v => rfl
    | none => cases onLine s p l <;> rfl
  funcs := by
    intro p n
    rw [addSource_func hadd, h.funcs, find?_append_singleton]
    cases hfind : visits.find? fun v ↦ inFunc v.2 p n with
    | some v => rfl
    | none =>
      cases hs : inFunc s p n with
      | false => rfl
      | true =>
        have hnone : entries.findIdxs (fun e ↦ inFunc e.2 p n) = [] := by
          refine List.findIdxs_eq_nil_iff.mpr fun e he ↦ ?_
          obtain ⟨a, ha⟩ := h.visited e he
          simpa using List.find?_eq_none.mp hfind _ ha
        rw [hnone]
        rfl
  files := by
    intro p
    rw [addSource_file hadd, h.files]
    simp [or_and_right, exists_or]
  blocks := h.blocks
  visited := by
    intro e he
    obtain ⟨a, ha⟩ := h.visited e he
    exact ⟨a, List.mem_append_left _ ha⟩

theorem addBlock_eq {start stop : BitVec 64} {s : SourceInfo} {cov' : Coverage}
    (h : addBlock start stop cov s = .ok cov') :
    ∃ sf f, cov.files[s.sourcePath]? = some sf ∧ sf.funcs[s.symbolName]? = some f ∧
      cov' = ⟨cov.blocks ++ [⟨start, stop, false⟩], cov.files.insert s.sourcePath
        { sf with funcs := (sf.funcs.insert s.symbolName
          { f with blocks := f.blocks ++ [cov.blocks.length] }) }⟩ := by
  unfold addBlock at h
  split at h
  · cases h
  case h_2 sf hsf =>
    split at h
    case h_1 f sl hf hsl => exact ⟨sf, f, hsf, hf, (Except.ok.inj h).symm⟩
    case h_2 => cases h

theorem Records.addBlock (h : Records visits entries cov) {span : Span} {s : SourceInfo}
    (hs : ∃ addr, (addr, s) ∈ visits) {cov' : Coverage}
    (hadd : addBlock span.start span.stop cov s = .ok cov') :
    Records visits (entries ++ [(span, s)]) cov' := by
  obtain ⟨sf, f, hsf, hf, rfl⟩ := addBlock_eq hadd
  have hlength : cov.blocks.length = entries.length := by
    rw [h.blocks, List.length_map]
  refine ⟨fun p l ↦ ?_, fun p n ↦ ?_, fun p ↦ ?_, ?_, fun e he ↦ ?_⟩
  · rw [← h.lines, Files.line?_insert]
    by_cases hp : s.sourcePath = p
    · rw [if_pos hp, ← hp, Files.line?, hsf]
      rfl
    · rw [if_neg hp]
  · rw [Files.func?_insert, List.findIdxs_append, List.findIdxs_singleton, Nat.zero_add]
    have hold := h.funcs p n
    by_cases hp : s.sourcePath = p
    · rw [Files.func?, ← hp, hsf, Option.bind_some] at hold
      rw [if_pos hp, getElem?_insert_eq]
      by_cases hn : s.symbolName = n
      · rw [← hn, hf] at hold
        have hin : inFunc s p n = true := by simp [inFunc, hp, hn]
        rw [if_pos hn, hin]
        rw [← hp, ← hn]
        cases hfind : visits.find? fun v ↦ inFunc v.2 s.sourcePath s.symbolName with
        | none =>
          rw [hfind] at hold
          cases hold
        | some v =>
          rw [hfind] at hold
          simp only [Option.map_some, funcInfo, Option.some.injEq, Prod.mk.injEq] at hold ⊢
          rw [hold.1, hold.2.1, hold.2.2, hlength]
          simp
      · have hin : inFunc s p n = false := by simp [inFunc, hn]
        rw [if_neg hn, hold, hp, hin]
        simp
    · have hin : inFunc s p n = false := by simp [inFunc, hp]
      rw [if_neg hp, hold, hin]
      simp
  · rw [← h.files, Std.ExtTreeMap.mem_insert, Std.LawfulEqCmp.compare_eq_iff_eq]
    refine ⟨fun hp ↦ hp.elim (fun hp ↦ ?_) id, .inr⟩
    rw [← hp, Std.ExtTreeMap.mem_iff_isSome_getElem?, hsf]
    rfl
  · rw [List.map_append, ← h.blocks]
    rfl
  · rcases List.mem_append.mp he with he | he
    · exact h.visited e he
    · obtain rfl := List.mem_singleton.mp he
      exact hs

end Steps

section Loops

variable {visits : List (BitVec 64 × SourceInfo)} {entries : List (Span × SourceInfo)}
  {cov cov' : Coverage}

/-- The parts of a computation that succeeds. -/
theorem exists_ok_of_bind {ε α β : Type} {m : Except ε α} {f : α → Except ε β} {b : β}
    (h : (m >>= f) = .ok b) : ∃ a, m = .ok a ∧ f a = .ok b := by
  cases m with
  | ok a => exact ⟨a, rfl, h⟩
  | error e => cases h

theorem Records.addSources (h : Records visits entries cov) {addr : BitVec 64}
    {sources : List SourceInfo} {files : Files}
    (hadd : sources.foldlM (Coverage.addSource addr) cov.files = .ok files) :
    Records (visits ++ sources.map (addr, ·)) entries { cov with files := files } := by
  induction sources generalizing visits cov with
  | nil =>
    obtain rfl := Except.ok.inj hadd
    simpa using h
  | cons s sources ih =>
    rw [List.foldlM_cons] at hadd
    obtain ⟨files₁, hfirst, hrest⟩ := exists_ok_of_bind hadd
    have hih := ih (h.addSource hfirst) hrest
    rwa [List.append_assoc] at hih

theorem Records.addBlocks (h : Records visits entries cov) {span : Span}
    {sources : List SourceInfo} (hsources : ∀ s ∈ sources, ∃ addr, (addr, s) ∈ visits)
    (hadd : sources.foldlM (Coverage.addBlock span.start span.stop) cov = .ok cov') :
    Records visits (entries ++ sources.map (span, ·)) cov' := by
  induction sources generalizing entries cov with
  | nil =>
    obtain rfl := Except.ok.inj hadd
    simpa using h
  | cons s sources ih =>
    rw [List.foldlM_cons] at hadd
    obtain ⟨cov₁, hfirst, hrest⟩ := exists_ok_of_bind hadd
    have hih := ih (h.addBlock (hsources s List.mem_cons_self) hfirst)
      (fun s' hs' ↦ hsources s' (List.mem_cons_of_mem s hs')) hrest
    rwa [List.append_assoc] at hih

variable {image : Image}

theorem Image.next_of_fetch {addr : BitVec 64} {instr : Instruction}
    (h : image.fetch addr = .ok instr) : image.next addr = addr + instrSize instr := by
  unfold Image.fetch at h
  unfold Image.next
  cases hload : image.loadInstr addr with
  | ok word =>
    rw [hload] at h
    obtain rfl := Except.ok.inj h
    rfl
  | error e =>
    rw [hload] at h
    cases h

theorem Records.addFuncFrom {leaders : List (BitVec 64)} {range : FuncRange} {fuel : Nat}
    {addr blockPrev : BitVec 64} (h : Records visits entries cov)
    (hadd : Coverage.addFuncFrom image leaders range fuel addr blockPrev cov = .ok cov') :
    Records (visits ++ image.visits (image.instrsFrom range.hipc fuel addr))
      (entries ++ image.entries (image.spansFrom leaders range.hipc fuel addr blockPrev)) cov' := by
  induction fuel generalizing visits entries cov addr blockPrev with
  | zero =>
    obtain rfl := Except.ok.inj hadd
    simpa [Image.instrsFrom, Image.spansFrom, Image.visits, Image.entries] using h
  | succ fuel ih =>
    unfold Coverage.addFuncFrom at hadd
    unfold Image.instrsFrom Image.spansFrom
    by_cases haddr : addr < range.hipc
    · rw [if_pos haddr] at hadd
      obtain ⟨files, hfiles, hadd⟩ := exists_ok_of_bind hadd
      obtain ⟨instr, hinstr, hadd⟩ := exists_ok_of_bind hadd
      have hvisited := h.addSources hfiles
      rw [if_pos haddr, if_pos haddr, Image.visits, List.flatMap_cons, ← List.append_assoc]
      rw [← Image.next_of_fetch hinstr] at hadd
      by_cases hleader : image.next addr ∈ leaders ∨ image.next addr = range.hipc
      · rw [if_pos hleader] at hadd
        rw [if_pos hleader, Image.entries, List.flatMap_cons, ← List.append_assoc]
        split at hadd
        case isTrue =>
          obtain ⟨cov₁, hblocks, hadd⟩ := exists_ok_of_bind hadd
          have hsources : ∀ s ∈ image.getSources addr,
              ∃ a, (a, s) ∈ visits ++ (image.getSources addr).map (addr, ·) :=
            fun s hs ↦ ⟨addr, List.mem_append_right _ (List.mem_map_of_mem hs)⟩
          let span : Span := ⟨blockPrev, image.next addr, addr⟩
          have hentered : Records _ (entries ++ (image.getSources addr).map (span, ·)) cov₁ :=
            hvisited.addBlocks hsources hblocks
          exact ih hentered hadd
        case isFalse => cases hadd
      · rw [if_neg hleader] at hadd ⊢
        exact ih hvisited hadd
    · rw [if_neg haddr] at hadd
      obtain rfl := Except.ok.inj hadd
      rw [if_neg haddr, if_neg haddr]
      simpa [Image.visits, Image.entries] using h

theorem Records.addFuncs {leaders : List (BitVec 64)} {ranges : List FuncRange}
    (h : Records visits entries cov)
    (hadd : ranges.foldlM (addFunc image leaders) cov = .ok cov') :
    Records (visits ++ image.visits (ranges.flatMap fun range ↦
        image.instrsFrom range.hipc (range.hipc.toNat - range.lopc.toNat) range.lopc))
      (entries ++ image.entries (ranges.flatMap fun range ↦
        image.spansFrom leaders range.hipc (range.hipc.toNat - range.lopc.toNat) range.lopc
          range.lopc)) cov' := by
  induction ranges generalizing visits entries cov with
  | nil =>
    obtain rfl := Except.ok.inj hadd
    simpa [Image.visits, Image.entries] using h
  | cons range ranges ih =>
    rw [List.foldlM_cons] at hadd
    obtain ⟨cov₁, hfirst, hrest⟩ := exists_ok_of_bind hadd
    have hih := ih (h.addFuncFrom hfirst) hrest
    rw [List.append_assoc, List.append_assoc] at hih
    simpa only [Image.visits, Image.entries, List.flatMap_cons, List.flatMap_append] using hih

/-- What the initialisation records. -/
theorem records_init (h : init image = .ok cov) :
    Records (image.visits image.instrs) (image.entries image.spans) cov := by
  obtain ⟨leaders, hleaders, hadd⟩ := exists_ok_of_bind h
  have hrecords := Records.empty.addFuncs hadd
  have heq : image.leaders = leaders := by
    rw [Image.leaders, hleaders]
    rfl
  rw [List.nil_append, List.nil_append] at hrecords
  rw [Image.instrs, Image.spans, heq]
  exact hrecords

end Loops

/-- The coverage of a program before the first run. -/
def initial (image : Image) : Coverage := (init image).toOption.getD ⟨[], ∅⟩

theorem init_eq_initial {image : Image} (h : (init image).toOption.isSome = true) :
    init image = .ok (initial image) := by
  unfold initial
  cases hinit : init image with
  | ok cov => rfl
  | error e =>
    rw [hinit] at h
    cases h

/-! ## Executed instructions -/

/-- An executed instruction with one of its locations. -/
abbrev Hit := Executed × SourceInfo

def Image.hits (image : Image) (executed : List Executed) : List Hit :=
  executed.flatMap fun e ↦ (image.getSources e.addr).map (e, ·)

def countLine (p : String) (l : Int) (hits : List Hit) (sl : SourceLine) : SourceLine :=
  hits.foldl (fun sl hit ↦ if onLine hit.2 p l then sl.count hit.1.addr hit.1.flags else sl) sl

def countFunc (p n : String) (hits : List Hit) (f : Function) : Function :=
  hits.foldl (fun f hit ↦ if inFunc hit.2 p n then f.count hit.1.addr else f) f

def visitAll (known : String → Prop) [DecidablePred known] (hits : List Hit)
    (blocks : List BasicBlock) : List BasicBlock :=
  hits.foldl (fun blocks hit ↦ if known hit.2.sourcePath then visit hit.1.addr blocks else blocks)
    blocks

theorem countLine_cons (p : String) (l : Int) (hit : Hit) (hits : List Hit) (sl : SourceLine) :
    countLine p l (hit :: hits) sl = countLine p l hits
      (if onLine hit.2 p l then sl.count hit.1.addr hit.1.flags else sl) := rfl

theorem countFunc_cons (p n : String) (hit : Hit) (hits : List Hit) (f : Function) :
    countFunc p n (hit :: hits) f = countFunc p n hits
      (if inFunc hit.2 p n then f.count hit.1.addr else f) := rfl

theorem countLine_of_not {hit : Hit} {p : String} {l : Int} (h : onLine hit.2 p l = false) :
    countLine p l [hit] = id := by
  funext sl
  exact if_neg (Bool.eq_false_iff.mp h)

theorem countFunc_of_not {hit : Hit} {p n : String} (h : inFunc hit.2 p n = false) :
    countFunc p n [hit] = id := by
  funext f
  exact if_neg (Bool.eq_false_iff.mp h)

/-- The coverage after the hits. -/
structure Counted (hits : List Hit) (cov cov' : Coverage) : Prop where
  lines : ∀ p l, Files.line? cov'.files p l = (Files.line? cov.files p l).map (countLine p l hits)
  funcs : ∀ p n, Files.func? cov'.files p n = (Files.func? cov.files p n).map (countFunc p n hits)
  files : ∀ p, p ∈ cov'.files ↔ p ∈ cov.files
  blocks : cov'.blocks = visitAll (· ∈ cov.files) hits cov.blocks

theorem Counted.nil (cov : Coverage) : Counted [] cov cov where
  lines := fun _ _ ↦ Option.map_id'.symm
  funcs := fun _ _ ↦ Option.map_id'.symm
  files := fun _ ↦ Iff.rfl
  blocks := rfl

theorem Counted.append {hits hits' : List Hit} {cov cov₁ cov' : Coverage}
    (h : Counted hits cov cov₁) (h' : Counted hits' cov₁ cov') :
    Counted (hits ++ hits') cov cov' where
  lines := by
    intro p l
    rw [h'.lines, h.lines, Option.map_map]
    refine congrArg (Option.map · _) (funext fun sl ↦ ?_)
    exact List.foldl_append.symm
  funcs := by
    intro p n
    rw [h'.funcs, h.funcs, Option.map_map]
    refine congrArg (Option.map · _) (funext fun f ↦ ?_)
    exact List.foldl_append.symm
  files := fun p ↦ (h'.files p).trans (h.files p)
  blocks := by
    rw [h'.blocks, h.blocks]
    simp only [visitAll, h.files, List.foldl_append]

theorem counted_coverSource {e : Executed} {s : SourceInfo} {cov cov' : Coverage}
    (h : coverSource e.addr e.flags s cov = .ok () cov') : Counted [(e, s)] cov cov' := by
  unfold coverSource at h
  split at h
  case h_1 hfile =>
    cases h
    have hnot : s.sourcePath ∉ cov.files := by
      rw [Std.ExtTreeMap.mem_iff_isSome_getElem?, hfile]
      exact Bool.false_ne_true
    refine ⟨fun p l ↦ ?_, fun p n ↦ ?_, fun p ↦ Iff.rfl, ?_⟩
    · by_cases hp : s.sourcePath = p
      · rw [Files.line?, ← hp, hfile]
        rfl
      · rw [countLine_of_not (by simp [onLine, hp]), Option.map_id]
        rfl
    · by_cases hp : s.sourcePath = p
      · rw [Files.func?, ← hp, hfile]
        rfl
      · rw [countFunc_of_not (by simp [inFunc, hp]), Option.map_id]
        rfl
    · exact (if_neg hnot).symm
  case h_2 sf hsf =>
    split at h
    case h_1 => cases h
    case h_2 f hf =>
      dsimp only at h
      split at h
      case h_1 => cases h
      case h_2 sl hsl =>
        cases h
        have hmem : s.sourcePath ∈ cov.files := by
          rw [Std.ExtTreeMap.mem_iff_isSome_getElem?, hsf]
          rfl
        refine ⟨fun p l ↦ ?_, fun p n ↦ ?_, fun p ↦ ?_, (if_pos hmem).symm⟩
        · rw [Files.line?_insert]
          by_cases hp : s.sourcePath = p
          · rw [if_pos hp, getElem?_insert_eq, Files.line?, ← hp, hsf, Option.bind_some]
            by_cases hl : s.line = l
            · rw [if_pos hl, ← hl, hsl]
              simp [countLine, onLine]
            · rw [if_neg hl, countLine_of_not (by simp [onLine, hl]), Option.map_id]
              rfl
          · rw [if_neg hp, countLine_of_not (by simp [onLine, hp]), Option.map_id]
            rfl
        · rw [Files.func?_insert]
          by_cases hp : s.sourcePath = p
          · rw [if_pos hp, getElem?_insert_eq, Files.func?, ← hp, hsf, Option.bind_some]
            by_cases hn : s.symbolName = n
            · rw [if_pos hn, ← hn, hf]
              simp [countFunc, inFunc]
            · rw [if_neg hn, countFunc_of_not (by simp [inFunc, hn]), Option.map_id]
              rfl
          · rw [if_neg hp, countFunc_of_not (by simp [inFunc, hp]), Option.map_id]
            rfl
        · rw [Std.ExtTreeMap.mem_insert, Std.LawfulEqCmp.compare_eq_iff_eq]
          exact ⟨fun hp ↦ hp.elim (fun hp ↦ hp ▸ hmem) id, .inr⟩

theorem counted_coverSources {e : Executed} {sources : List SourceInfo} {cov cov' : Coverage}
    (h : coverSources e.addr e.flags sources cov = .ok () cov') :
    Counted (sources.map (e, ·)) cov cov' := by
  induction sources generalizing cov with
  | nil =>
    cases h
    exact .nil _
  | cons s sources ih =>
    obtain ⟨_, cov₁, hfirst, hrest⟩ := Lib.exists_ok_of_bind_eq_ok h
    exact (counted_coverSource hfirst).append (ih hrest)

/-- What executed instructions count. -/
theorem counted_coverAll {image : Image} {executed : List Executed} {cov cov' : Coverage}
    (h : coverAll image executed cov = .ok () cov') :
    Counted (image.hits executed) cov cov' := by
  induction executed generalizing cov with
  | nil =>
    cases h
    exact .nil _
  | cons e executed ih =>
    obtain ⟨_, cov₁, hfirst, hrest⟩ := Lib.exists_ok_of_bind_eq_ok h
    exact (counted_coverSources hfirst).append (ih hrest)

end CoverageVP.Iss.Coverage
