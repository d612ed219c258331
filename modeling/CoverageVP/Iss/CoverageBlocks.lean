import CoverageVP.Iss.CoverageRecords

/-!
# Accounts of basic blocks

A block is added once for each location of the last instruction of its span, and an executed address
marks the first block that it lies in. So if code is inlined at the end of an executed span, one
object of several with the same range is marked.
-/

namespace CoverageVP.Iss.Coverage

/-! ## Marks -/

def Span.Contains (span : Span) (addr : BitVec 64) : Prop := span.start ≤ addr ∧ addr < span.stop

instance (span : Span) (addr : BitVec 64) : Decidable (span.Contains addr) :=
  inferInstanceAs (Decidable (_ ∧ _))

/-- The address lies in the span at a position and in none before it. -/
def FirstIn (spans : List Span) (i : Nat) (addr : BitVec 64) : Prop :=
  (∃ span, spans[i]? = some span ∧ span.Contains addr) ∧
    ∀ span ∈ spans.take i, ¬ span.Contains addr

theorem firstIn_succ {span : Span} {spans : List Span} {i : Nat} {addr : BitVec 64}
    (h : ¬ span.Contains addr) : FirstIn (span :: spans) (i + 1) addr ↔ FirstIn spans i addr := by
  simp [FirstIn, List.take_succ_cons, h]

/-- The blocks of the spans, those at the given positions marked. -/
def Marked : List Span → (Nat → Prop) → List BasicBlock → Prop
  | [], _, blocks => blocks = []
  | span :: spans, marks, blocks =>
    ∃ block rest, blocks = block :: rest ∧ block.start = span.start ∧ block.stop = span.stop ∧
      (block.visited = true ↔ marks 0) ∧ Marked spans (fun i ↦ marks (i + 1)) rest

theorem Marked.congr {spans : List Span} {marks marks' : Nat → Prop} {blocks : List BasicBlock}
    (h : Marked spans marks blocks) (hmarks : ∀ i, marks i ↔ marks' i) :
    Marked spans marks' blocks := by
  obtain rfl : marks = marks' := funext fun i ↦ propext (hmarks i)
  exact h

theorem Marked.init (spans : List Span) :
    Marked spans (fun _ ↦ False) (spans.map fun span ↦ ⟨span.start, span.stop, false⟩) := by
  induction spans with
  | nil => rfl
  | cons span spans ih => exact ⟨_, _, rfl, rfl, rfl, iff_of_false Bool.false_ne_true id, ih⟩

/-- The first block that an address lies in is marked. -/
theorem Marked.visit {spans : List Span} {marks : Nat → Prop} {blocks : List BasicBlock}
    (h : Marked spans marks blocks) (addr : BitVec 64) :
    Marked spans (fun i ↦ marks i ∨ FirstIn spans i addr) (visit addr blocks) := by
  induction spans generalizing marks blocks with
  | nil =>
    rw [Marked] at h
    rw [h]
    rfl
  | cons span spans ih =>
    obtain ⟨block, rest, rfl, hstart, hstop, hvisited, hrest⟩ := h
    unfold Iss.visit
    rw [hstart, hstop]
    by_cases hin : span.Contains addr
    · refine (if_pos hin).symm ▸ ⟨_, _, rfl, rfl, rfl, ?_, hrest.congr fun i ↦ ?_⟩
      · exact iff_of_true rfl (.inr ⟨⟨span, rfl, hin⟩, nofun⟩)
      · exact (or_iff_left fun hfirst ↦ hfirst.2 span List.mem_cons_self hin).symm
    · refine (if_neg hin).symm ▸ ⟨_, _, rfl, hstart, hstop, ?_, (ih hrest).congr fun i ↦ ?_⟩
      · refine hvisited.trans (or_iff_left fun hfirst ↦ ?_).symm
        obtain ⟨span', hspan', hin'⟩ := hfirst.1
        obtain rfl := Option.some.inj hspan'
        exact hin hin'
      · exact or_congr_right (firstIn_succ hin).symm

theorem Marked.visitAll {spans : List Span} {marks : Nat → Prop} {blocks : List BasicBlock}
    (known : String → Prop) [DecidablePred known] (hits : List Hit)
    (h : Marked spans marks blocks) :
    Marked spans (fun i ↦ marks i ∨ ∃ hit ∈ hits, known hit.2.sourcePath ∧
      FirstIn spans i hit.1.addr) (visitAll known hits blocks) := by
  induction hits generalizing marks blocks with
  | nil => exact h.congr fun i ↦ by simp
  | cons hit hits ih =>
    have hcons : Coverage.visitAll known (hit :: hits) blocks = Coverage.visitAll known hits
        (if known hit.2.sourcePath then Iss.visit hit.1.addr blocks else blocks) := rfl
    rw [hcons]
    by_cases hknown : known hit.2.sourcePath
    · rw [if_pos hknown]
      refine (ih (h.visit hit.1.addr)).congr fun i ↦ ?_
      simp [hknown, or_assoc]
    · rw [if_neg hknown]
      refine (ih h).congr fun i ↦ ?_
      simp [hknown]

theorem Marked.getElem? {spans : List Span} {marks : Nat → Prop} {blocks : List BasicBlock}
    (h : Marked spans marks blocks) (i : Nat) :
    (blocks[i]?).map (fun block ↦ (block.start, block.stop)) =
        (spans[i]?).map (fun span ↦ (span.start, span.stop)) ∧
      ∀ block, blocks[i]? = some block → (block.visited = true ↔ marks i) := by
  induction spans generalizing marks blocks i with
  | nil =>
    rw [Marked] at h
    rw [h]
    exact ⟨rfl, nofun⟩
  | cons span spans ih =>
    obtain ⟨block, rest, rfl, hstart, hstop, hvisited, hrest⟩ := h
    cases i with
    | zero =>
      refine ⟨?_, fun block' hblock' ↦ ?_⟩
      · simp [hstart, hstop]
      · obtain rfl := Option.some.inj hblock'
        exact hvisited
    | succ i => exact ih hrest i

/-! ## Positions of blocks -/

theorem filterMap_findIdxs {α : Type} (xs : List α) (q : α → Bool) :
    (xs.findIdxs q).filterMap (xs[·]?) = xs.filter q := by
  induction xs with
  | nil => rfl
  | cons x xs ih =>
    have hshift : (xs.findIdxs q 1).filterMap ((x :: xs)[·]?) = xs.filter q := by
      rw [List.findIdxs_start, List.filterMap_map, ← ih]
      rfl
    rw [List.findIdxs_cons, Nat.zero_add]
    cases hx : q x with
    | true => rw [if_pos rfl, List.filterMap_cons, hshift, List.filter_cons, if_pos hx]; rfl
    | false => rw [if_neg Bool.false_ne_true, hshift, List.filter_cons, if_neg (by simp [hx])]

theorem pairwise_forall_iff {α β : Type} {R : β → α → α → Prop} {l : List α} :
    l.Pairwise (fun a b ↦ ∀ x, R x a b) ↔ ∀ x, l.Pairwise (R x) := by
  simp only [List.pairwise_iff_getElem]
  exact ⟨fun h x i j hi hj hij ↦ h i j hi hj hij x, fun h i j hi hj hij x ↦ h x i j hi hj hij⟩

section Entries

variable {image : Image}

theorem entries_cons (span : Span) (spans : List Span) :
    image.entries (span :: spans) =
      (image.getSources span.last).map (span, ·) ++ image.entries spans :=
  List.flatMap_cons

/-- The entry at a position belongs to a location of the last instruction of a span, and the entries
before it are those of the spans before and of the locations before. -/
theorem exists_span_of_entry {spans : List Span} {i : Nat} {e : Span × SourceInfo}
    (h : (image.entries spans)[i]? = some e) :
    ∃ k m, spans[k]? = some e.1 ∧ (image.getSources e.1.last)[m]? = some e.2 ∧
      (image.entries spans).take i = image.entries (spans.take k) ++
        ((image.getSources e.1.last).take m).map (e.1, ·) := by
  induction spans generalizing i with
  | nil => cases h
  | cons span spans ih =>
    rw [entries_cons] at h ⊢
    by_cases hi : i < ((image.getSources span.last).map (span, ·)).length
    · rw [List.getElem?_append_left hi, List.getElem?_map] at h
      obtain ⟨s, hs, rfl⟩ := Option.map_eq_some_iff.mp h
      refine ⟨0, i, rfl, hs, ?_⟩
      rw [List.take_append_of_le_length (Nat.le_of_lt hi), ← List.map_take]
      rfl
    · rw [List.getElem?_append_right (Nat.not_lt.mp hi)] at h
      obtain ⟨k, m, hk, hm, htake⟩ := ih h
      refine ⟨k + 1, m, hk, hm, ?_⟩
      rw [List.take_append, List.take_of_length_le (Nat.not_lt.mp hi), htake, List.take_succ_cons,
        entries_cons, List.append_assoc]

theorem exists_entry_of_span {spans : List Span} {k m : Nat} {span : Span} {s : SourceInfo}
    (hk : spans[k]? = some span) (hm : (image.getSources span.last)[m]? = some s) :
    ∃ i, (image.entries spans)[i]? = some (span, s) ∧
      (image.entries spans).take i = image.entries (spans.take k) ++
        ((image.getSources span.last).take m).map (span, ·) := by
  induction spans generalizing k with
  | nil => cases hk
  | cons head spans ih =>
    rw [entries_cons]
    cases k with
    | zero =>
      obtain rfl := Option.some.inj hk
      have hlt : m < ((image.getSources head.last).map (head, ·)).length := by
        rw [List.length_map]
        exact (List.getElem?_eq_some_iff.mp hm).1
      refine ⟨m, ?_, ?_⟩
      · rw [List.getElem?_append_left hlt, List.getElem?_map, hm]
        rfl
      · rw [List.take_append_of_le_length (Nat.le_of_lt hlt), ← List.map_take]
        rfl
    | succ k =>
      obtain ⟨i, hi, htake⟩ := ih hk
      refine ⟨((image.getSources head.last).map (head, ·)).length + i, ?_, ?_⟩
      · rw [List.getElem?_append_right (Nat.le_add_right _ _), Nat.add_sub_cancel_left]
        exact hi
      · rw [List.take_append, List.take_of_length_le (Nat.le_add_right _ _),
          Nat.add_sub_cancel_left, List.take_succ_cons, htake, entries_cons, List.append_assoc]

theorem mem_entries {spans : List Span} {e : Span × SourceInfo} :
    e ∈ image.entries spans ↔ e.1 ∈ spans ∧ e.2 ∈ image.getSources e.1.last := by
  simp only [Image.entries, List.mem_flatMap, List.mem_map]
  constructor
  · rintro ⟨span, hspan, s, hs, rfl⟩
    exact ⟨hspan, hs⟩
  · rintro ⟨hspan, hs⟩
    exact ⟨e.1, hspan, e.2, hs, rfl⟩

end Entries

theorem instrSize_bounds (instr : Instr.Instruction) :
    0 < (instrSize instr).toNat ∧ (instrSize instr).toNat ≤ 4 := by
  unfold instrSize
  split
  · decide
  · decide

/-- The end of a function leaves room for the address after its last instruction. -/
theorem lt_next (image : Image) {range : FuncRange} {addr : BitVec 64} (h : addr < range.hipc) :
    addr < image.next addr := by
  have hroom := range.fits
  have hstep : ∀ size : BitVec 64, 0 < size.toNat → size.toNat ≤ 4 → addr < addr + size := by
    intro size hpos hle
    rw [BitVec.lt_def] at h ⊢
    rw [BitVec.toNat_add, Nat.mod_eq_of_lt (by omega)]
    omega
  unfold Image.next
  split
  · exact hstep _ (instrSize_bounds _).1 (instrSize_bounds _).2
  · exact hstep _ (by decide) (by decide)

theorem mem_spansFrom {image : Image} {leaders : List (BitVec 64)} {range : FuncRange} {fuel : Nat}
    {addr blockPrev : BitVec 64} (hprev : blockPrev ≤ addr) {span : Span}
    (h : span ∈ image.spansFrom leaders range.hipc fuel addr blockPrev) :
    span.Contains span.last ∧ span.last ∈ image.instrsFrom range.hipc fuel addr := by
  induction fuel generalizing addr blockPrev with
  | zero => cases h
  | succ fuel ih =>
    unfold Image.spansFrom at h
    unfold Image.instrsFrom
    split at h
    case isFalse => cases h
    case isTrue haddr =>
      have hnext := lt_next image haddr
      rw [if_pos haddr]
      split at h
      case isTrue =>
        rcases List.mem_cons.mp h with rfl | h
        · exact ⟨⟨hprev, hnext⟩, List.mem_cons_self⟩
        · obtain ⟨hcontains, hmem⟩ := ih (BitVec.le_refl _) h
          exact ⟨hcontains, List.mem_cons_of_mem _ hmem⟩
      case isFalse =>
        obtain ⟨hcontains, hmem⟩ := ih (BitVec.le_trans hprev (BitVec.le_of_lt hnext)) h
        exact ⟨hcontains, List.mem_cons_of_mem _ hmem⟩

/-- The last instruction of a span is one of the visited ones and lies in it. -/
theorem mem_spans {image : Image} {span : Span} (h : span ∈ image.spans) :
    span.Contains span.last ∧ span.last ∈ image.instrs := by
  obtain ⟨range, hrange, hspan⟩ := List.mem_flatMap.mp h
  obtain ⟨hcontains, hmem⟩ := mem_spansFrom (BitVec.le_refl _) hspan
  exact ⟨hcontains, List.mem_flatMap.mpr ⟨range, hrange, hmem⟩⟩

/-! ## Blocks after runs -/

/-- The address maps to a file that the initialisation has seen. -/
def Image.Known (image : Image) (addr : BitVec 64) : Prop :=
  ∃ s ∈ image.getSources addr, ∃ a ∈ image.instrs, image.mapsToFile s.sourcePath a = true

theorem blocks_countFunc (p n : String) (hits : List Hit) (f : Function) :
    (countFunc p n hits f).blocks = f.blocks := by
  induction hits generalizing f with
  | nil => rfl
  | cons hit hits ih =>
    rw [countFunc_cons, ih]
    split
    · unfold Function.count
      split
      · rfl
      · rfl
    · rfl

section Recorded

variable {image : Image} {executed : List Executed} {cov cov' : Coverage}

/-- The spans of all blocks. -/
def Image.blockSpans (image : Image) : List Span := (image.entries image.spans).map Prod.fst

theorem mem_files_iff (hinit : init image = .ok cov) (p : String) :
    p ∈ cov.files ↔ ∃ a ∈ image.instrs, image.mapsToFile p a = true := by
  rw [(records_init hinit).files]
  simp only [Image.visits, List.mem_flatMap, List.mem_map, Image.mapsToFile, List.any_eq_true]
  constructor
  · rintro ⟨_, ⟨a, ha, s, hs, rfl⟩, hin⟩
    exact ⟨a, ha, s, hs, hin⟩
  · rintro ⟨a, ha, s, hs, hin⟩
    exact ⟨(a, s), ⟨a, ha, s, hs, rfl⟩, hin⟩

theorem marked_of_run (hinit : init image = .ok cov)
    (hrun : coverAll image executed cov = .ok () cov') :
    Marked image.blockSpans (fun i ↦ ∃ e ∈ executed, image.Known e.addr ∧
      FirstIn image.blockSpans i e.addr) cov'.blocks := by
  have hblocks : cov.blocks = image.blockSpans.map fun span ↦ ⟨span.start, span.stop, false⟩ := by
    rw [(records_init hinit).blocks, Image.blockSpans, List.map_map]
    rfl
  have hmarked := (Marked.init image.blockSpans).visitAll (· ∈ cov.files) (image.hits executed)
  rw [← hblocks, ← (counted_coverAll hrun).blocks] at hmarked
  refine hmarked.congr fun i ↦ ?_
  simp only [false_or, Image.hits, List.mem_flatMap, List.mem_map, mem_files_iff hinit]
  constructor
  · rintro ⟨_, ⟨e, he, s, hs, rfl⟩, hknown, hfirst⟩
    exact ⟨e, he, ⟨s, hs, hknown⟩, hfirst⟩
  · rintro ⟨e, he, ⟨s, hs, hknown⟩, hfirst⟩
    exact ⟨(e, s), ⟨e, he, s, hs, rfl⟩, hknown, hfirst⟩

/-- The blocks of a function are those of its entries. -/
theorem blocks_of_func? (hinit : init image = .ok cov)
    (hrun : coverAll image executed cov = .ok () cov') {p n : String} {f : Function}
    (h : Files.func? cov'.files p n = some f) :
    f.blocks = (image.entries image.spans).findIdxs fun e ↦ inFunc e.2 p n := by
  rw [(counted_coverAll hrun).funcs] at h
  obtain ⟨f₀, hf₀, rfl⟩ := Option.map_eq_some_iff.mp h
  have hentered := (records_init hinit).funcs p n
  rw [hf₀, Option.map_some] at hentered
  obtain ⟨v, -, hinfo⟩ := Option.map_eq_some_iff.mp hentered.symm
  simp only [funcInfo, Prod.mk.injEq] at hinfo
  rw [blocks_countFunc, ← hinfo.2.2]

/-- An entry belongs to a function of the report. -/
theorem exists_func?_of_entry (hinit : init image = .ok cov)
    (hrun : coverAll image executed cov = .ok () cov') {e : Span × SourceInfo}
    (he : e ∈ image.entries image.spans) {p n : String} (hin : inFunc e.2 p n = true) :
    ∃ f, Files.func? cov'.files p n = some f := by
  obtain ⟨addr, hvisit⟩ := (records_init hinit).visited e he
  have hfound : ((image.visits image.instrs).find? fun v ↦ inFunc v.2 p n).isSome = true :=
    List.find?_isSome.mpr ⟨_, hvisit, hin⟩
  obtain ⟨v, hv⟩ := Option.isSome_iff_exists.mp hfound
  have hentered := (records_init hinit).funcs p n
  rw [hv, Option.map_some] at hentered
  obtain ⟨f, hf, -⟩ := Option.map_eq_some_iff.mp hentered
  exact ⟨_, by rw [(counted_coverAll hrun).funcs, hf, Option.map_some]⟩

theorem ranges_blocksAt (hinit : init image = .ok cov)
    (hrun : coverAll image executed cov = .ok () cov') {p n : String} {f : Function}
    (h : Files.func? cov'.files p n = some f) :
    (cov'.blocksAt f.blocks).map (fun b ↦ (b.start, b.stop)) =
      ((image.entries image.spans).filter fun e ↦ inFunc e.2 p n).map fun e ↦
        (e.1.start, e.1.stop) := by
  have hrange : ∀ i : Nat, (cov'.blocks[i]?).map (fun b ↦ (b.start, b.stop)) =
      ((image.entries image.spans)[i]?).map fun e ↦ (e.1.start, e.1.stop) := by
    intro i
    rw [((marked_of_run hinit hrun).getElem? i).1, Image.blockSpans, List.getElem?_map,
      Option.map_map]
    rfl
  rw [blocksAt, List.map_filterMap, blocks_of_func? hinit hrun h, ← filterMap_findIdxs,
    List.map_filterMap]
  simp only [hrange]

/-- The blocks of a function, with their entries. -/
theorem mem_blocksAt (hinit : init image = .ok cov)
    (hrun : coverAll image executed cov = .ok () cov') {p n : String} {f : Function}
    (h : Files.func? cov'.files p n = some f) {b : BasicBlock} :
    b ∈ cov'.blocksAt f.blocks ↔ ∃ (i : Nat) (e : Span × SourceInfo),
      (image.entries image.spans)[i]? = some e ∧ inFunc e.2 p n = true ∧
        cov'.blocks[i]? = some b := by
  rw [blocksAt, List.mem_filterMap, blocks_of_func? hinit hrun h]
  simp only [List.mem_findIdxs_iff_exists_getElem_pos]
  constructor
  · rintro ⟨i, ⟨hi, hin⟩, hb⟩
    exact ⟨i, _, List.getElem?_eq_getElem hi, hin, hb⟩
  · rintro ⟨i, e, he, hin, hb⟩
    obtain ⟨hi, rfl⟩ := List.getElem?_eq_some_iff.mp he
    exact ⟨i, ⟨hi, hin⟩, hb⟩

end Recorded

/-! ## Accounts -/

/-- The blocks of a function are different ranges, those that an executed address lies in are
visited and no others, and so all of them if the whole function has been executed. -/
structure BlocksAccounted (image : Image) (executed : List Executed) (cov : Coverage) : Prop where
  distinct : ∀ p n f, Files.func? cov.files p n = some f →
    ((cov.blocksAt f.blocks).map fun b ↦ (b.start, b.stop)).Nodup
  visited : ∀ p n f, Files.func? cov.files p n = some f → ∀ b ∈ cov.blocksAt f.blocks,
    (b.visited = true ↔ ∃ e ∈ executed, b.start ≤ e.addr ∧ e.addr < b.stop)
  bounded : ∀ p n f, Files.func? cov.files p n = some f →
    (f.toJson cov).blocksExecuted ≤ (f.toJson cov).blocks
  complete : ∀ p n f, Files.func? cov.files p n = some f →
    (∀ addr ∈ image.instrs, image.mapsToFunc p n addr = true → ∃ e ∈ executed, e.addr = addr) →
    (f.toJson cov).blocksExecuted = (f.toJson cov).blocks

def SameFunc (s s' : SourceInfo) : Prop :=
  s.sourcePath = s'.sourcePath ∧ s.symbolName = s'.symbolName

/-- The locations at the ends of spans: those of one span are in different functions, spans of the
same range have no function in common, an executed span has one location, and an executed address in
it that is in no earlier span and in a known file. -/
structure SpansSeparate (image : Image) (executed : List Executed) : Prop where
  functions : ∀ span ∈ image.spans,
    (image.getSources span.last).Pairwise fun s s' ↦ ¬ SameFunc s s'
  ranges : image.spans.Pairwise fun span span' ↦
    (span.start, span.stop) = (span'.start, span'.stop) →
      ∀ s ∈ image.getSources span.last, ∀ s' ∈ image.getSources span'.last, ¬ SameFunc s s'
  single : ∀ span ∈ image.spans, (∃ e ∈ executed, span.Contains e.addr) →
    (image.getSources span.last).length ≤ 1
  first : ∀ k span, image.spans[k]? = some span → image.getSources span.last ≠ [] →
    (∃ e ∈ executed, span.Contains e.addr) →
    ∃ e ∈ executed, image.Known e.addr ∧ span.Contains e.addr ∧
      ∀ span' ∈ image.spans.take k, image.getSources span'.last ≠ [] → ¬ span'.Contains e.addr

section Accounts

variable {image : Image} {executed : List Executed} {cov cov' : Coverage}

/-- Ranges are distinct if and only if locations are. -/
theorem pairwise_entries_iff :
    ((image.entries image.spans).Pairwise fun e e' ↦
      SameFunc e.2 e'.2 → (e.1.start, e.1.stop) ≠ (e'.1.start, e'.1.stop)) ↔
      (∀ span ∈ image.spans, (image.getSources span.last).Pairwise fun s s' ↦ ¬ SameFunc s s') ∧
      image.spans.Pairwise fun span span' ↦
        (span.start, span.stop) = (span'.start, span'.stop) →
          ∀ s ∈ image.getSources span.last, ∀ s' ∈ image.getSources span'.last,
            ¬ SameFunc s s' := by
  rw [Image.entries, List.pairwise_flatMap]
  simp only [List.pairwise_map, List.forall_mem_map]
  refine and_congr (forall₂_congr fun span _ ↦ ?_) ?_
  · simp
  · have hiff : ∀ span span' : Span,
        (∀ s ∈ image.getSources span.last, ∀ s' ∈ image.getSources span'.last,
          SameFunc s s' → (span.start, span.stop) ≠ (span'.start, span'.stop)) ↔
        ((span.start, span.stop) = (span'.start, span'.stop) →
          ∀ s ∈ image.getSources span.last, ∀ s' ∈ image.getSources span'.last,
            ¬ SameFunc s s') :=
      fun span span' ↦ ⟨fun h heq s hs s' hs' hsame ↦ h s hs s' hs' hsame heq,
        fun h s hs s' hs' hsame heq ↦ h heq s hs s' hs' hsame⟩
    simp only [hiff]

theorem distinct_iff (hinit : init image = .ok cov)
    (hrun : coverAll image executed cov = .ok () cov') :
    (∀ p n f, Files.func? cov'.files p n = some f →
      ((cov'.blocksAt f.blocks).map fun b ↦ (b.start, b.stop)).Nodup) ↔
      (image.entries image.spans).Pairwise fun e e' ↦
        SameFunc e.2 e'.2 → (e.1.start, e.1.stop) ≠ (e'.1.start, e'.1.stop) := by
  have hfunc : ∀ p n, (((image.entries image.spans).filter fun e ↦ inFunc e.2 p n).map fun e ↦
      (e.1.start, e.1.stop)).Nodup ↔ (image.entries image.spans).Pairwise fun e e' ↦
        inFunc e.2 p n = true → inFunc e'.2 p n = true →
          (e.1.start, e.1.stop) ≠ (e'.1.start, e'.1.stop) := by
    intro p n
    rw [List.Nodup, List.pairwise_map, List.pairwise_filter]
  constructor
  · intro h
    have hall : ∀ p n, (image.entries image.spans).Pairwise fun e e' ↦
        inFunc e.2 p n = true → inFunc e'.2 p n = true →
          (e.1.start, e.1.stop) ≠ (e'.1.start, e'.1.stop) := by
      intro p n
      rw [← hfunc]
      by_cases hnone : ∃ e ∈ image.entries image.spans, inFunc e.2 p n = true
      · obtain ⟨e, he, hin⟩ := hnone
        obtain ⟨f, hf⟩ := exists_func?_of_entry hinit hrun he hin
        have hdistinct := h p n f hf
        rwa [ranges_blocksAt hinit hrun hf] at hdistinct
      · have hempty : (image.entries image.spans).filter (fun e ↦ inFunc e.2 p n) = [] :=
          List.filter_eq_nil_iff.mpr fun e he hin ↦ hnone ⟨e, he, hin⟩
        rw [hempty]
        exact List.nodup_nil
    refine List.Pairwise.imp (fun {e e'} h hsame ↦ ?_)
      (pairwise_forall_iff.mpr fun p ↦ pairwise_forall_iff.mpr (hall p))
    exact h e.2.sourcePath e.2.symbolName (by simp [inFunc]) (by simp [inFunc, hsame.1, hsame.2])
  · intro h p n f hf
    rw [ranges_blocksAt hinit hrun hf, hfunc]
    refine h.imp fun {e e'} h hin hin' ↦ h ?_
    simp only [inFunc, Bool.and_eq_true, decide_eq_true_eq] at hin hin'
    exact ⟨hin.1.trans hin'.1.symm, hin.2.trans hin'.2.symm⟩

/-- Every entry that an executed address lies in is the first one of an executed address. -/
def EntriesFirst (image : Image) (executed : List Executed) : Prop :=
  ∀ (i : Nat) (e : Span × SourceInfo), (image.entries image.spans)[i]? = some e →
    (∃ x ∈ executed, e.1.Contains x.addr) →
    ∃ x ∈ executed, image.Known x.addr ∧ FirstIn image.blockSpans i x.addr

theorem firstIn_iff {i : Nat} {e : Span × SourceInfo} {addr : BitVec 64}
    (he : (image.entries image.spans)[i]? = some e) :
    FirstIn image.blockSpans i addr ↔ e.1.Contains addr ∧
      ∀ e' ∈ (image.entries image.spans).take i, ¬ e'.1.Contains addr := by
  rw [FirstIn, Image.blockSpans, List.getElem?_map, he, ← List.map_take, List.forall_mem_map]
  simp

theorem entry_of_block (hinit : init image = .ok cov)
    (hrun : coverAll image executed cov = .ok () cov') {i : Nat} {e : Span × SourceInfo}
    (he : (image.entries image.spans)[i]? = some e) :
    ∃ b, cov'.blocks[i]? = some b ∧ b.start = e.1.start ∧ b.stop = e.1.stop ∧
      (b.visited = true ↔ ∃ x ∈ executed, image.Known x.addr ∧
        FirstIn image.blockSpans i x.addr) := by
  obtain ⟨hrange, hvisited⟩ := (marked_of_run hinit hrun).getElem? i
  rw [Image.blockSpans, List.getElem?_map, he] at hrange
  obtain ⟨b, hb, heq⟩ := Option.map_eq_some_iff.mp hrange
  obtain ⟨hstart, hstop⟩ := Prod.mk.inj heq
  exact ⟨b, hb, hstart, hstop, hvisited b hb⟩

theorem visited_iff (hinit : init image = .ok cov)
    (hrun : coverAll image executed cov = .ok () cov') :
    (∀ p n f, Files.func? cov'.files p n = some f → ∀ b ∈ cov'.blocksAt f.blocks,
      (b.visited = true ↔ ∃ e ∈ executed, b.start ≤ e.addr ∧ e.addr < b.stop)) ↔
      EntriesFirst image executed := by
  constructor
  · intro h i e he hexecuted
    obtain ⟨b, hb, hstart, hstop, hvisited⟩ := entry_of_block hinit hrun he
    have hin : inFunc e.2 e.2.sourcePath e.2.symbolName = true := by simp [inFunc]
    obtain ⟨f, hf⟩ := exists_func?_of_entry hinit hrun (List.mem_of_getElem? he) hin
    refine hvisited.mp ((h _ _ f hf b ?_).mpr ?_)
    · exact (mem_blocksAt hinit hrun hf).mpr ⟨i, e, he, hin, hb⟩
    · rw [hstart, hstop]
      exact hexecuted
  · intro h p n f hf b hb
    obtain ⟨i, e, he, -, hb⟩ := (mem_blocksAt hinit hrun hf).mp hb
    obtain ⟨b', hb', hstart, hstop, hvisited⟩ := entry_of_block hinit hrun he
    obtain rfl := Option.some.inj (hb.symm.trans hb')
    rw [hvisited, hstart, hstop]
    refine ⟨?_, h i e he⟩
    rintro ⟨x, hx, -, hfirst⟩
    exact ⟨x, hx, ((firstIn_iff he).mp hfirst).1⟩

/-- The same for spans. -/
theorem entriesFirst_iff :
    EntriesFirst image executed ↔
      (∀ span ∈ image.spans, (∃ e ∈ executed, span.Contains e.addr) →
        (image.getSources span.last).length ≤ 1) ∧
      ∀ (k : Nat) span, image.spans[k]? = some span → image.getSources span.last ≠ [] →
        (∃ e ∈ executed, span.Contains e.addr) →
        ∃ e ∈ executed, image.Known e.addr ∧ span.Contains e.addr ∧
          ∀ span' ∈ image.spans.take k, image.getSources span'.last ≠ [] →
            ¬ span'.Contains e.addr := by
  constructor
  · intro h
    refine ⟨fun span hspan hexecuted ↦ ?_, fun k span hk hne hexecuted ↦ ?_⟩
    · -- The second entry of a span is never the first one of an address.
      by_contra hlength
      obtain ⟨k, hk⟩ := List.mem_iff_getElem?.mp hspan
      have hone : 1 < (image.getSources span.last).length := Nat.not_le.mp hlength
      obtain ⟨i, hi, htake⟩ := exists_entry_of_span hk (List.getElem?_eq_getElem hone)
      obtain ⟨x, -, -, hfirst⟩ := h i _ hi hexecuted
      obtain ⟨hin, hnot⟩ := (firstIn_iff hi).mp hfirst
      refine hnot (span, (image.getSources span.last)[0]) ?_ hin
      rw [htake]
      refine List.mem_append_right _ (List.mem_map_of_mem ?_)
      exact List.mem_take_iff_getElem.mpr ⟨0, by omega, rfl⟩
    · obtain ⟨s, hs⟩ := List.exists_mem_of_ne_nil _ hne
      have hzero : 0 < (image.getSources span.last).length := List.length_pos_of_mem hs
      obtain ⟨i, hi, htake⟩ := exists_entry_of_span hk (List.getElem?_eq_getElem hzero)
      obtain ⟨x, hx, hknown, hfirst⟩ := h i _ hi hexecuted
      obtain ⟨hin, hnot⟩ := (firstIn_iff hi).mp hfirst
      refine ⟨x, hx, hknown, hin, fun span' hspan' hne' ↦ ?_⟩
      obtain ⟨s', hs'⟩ := List.exists_mem_of_ne_nil _ hne'
      refine hnot (span', s') ?_
      rw [htake]
      exact List.mem_append_left _ (mem_entries.mpr ⟨hspan', hs'⟩)
  · rintro ⟨hsingle, hfirst⟩ i e he hexecuted
    obtain ⟨k, m, hk, hm, htake⟩ := exists_span_of_entry he
    have hone := hsingle e.1 (List.mem_of_getElem? hk) hexecuted
    obtain ⟨hlt, -⟩ := List.getElem?_eq_some_iff.mp hm
    have hne : image.getSources e.1.last ≠ [] := List.ne_nil_of_length_pos (by omega)
    obtain ⟨x, hx, hknown, hin, hnot⟩ := hfirst k e.1 hk hne hexecuted
    refine ⟨x, hx, hknown, (firstIn_iff he).mpr ⟨hin, fun e' he' ↦ ?_⟩⟩
    obtain rfl : m = 0 := by omega
    rw [htake, List.take_zero, List.map_nil, List.append_nil] at he'
    obtain ⟨hspan', hs'⟩ := mem_entries.mp he'
    exact hnot e'.1 hspan' (List.ne_nil_of_mem hs')

/-- A function has as many visited blocks as blocks if the ends of their spans were executed. -/
theorem blocksExecuted_eq (hinit : init image = .ok cov)
    (hrun : coverAll image executed cov = .ok () cov') (hfirst : EntriesFirst image executed)
    {p n : String} {f : Function} (hf : Files.func? cov'.files p n = some f)
    (hall : ∀ addr ∈ image.instrs, image.mapsToFunc p n addr = true →
      ∃ e ∈ executed, e.addr = addr) :
    (f.toJson cov').blocksExecuted = (f.toJson cov').blocks := by
  have hlength : (cov'.blocksAt f.blocks).length = f.blocks.length := by
    have hranges := congrArg List.length (ranges_blocksAt hinit hrun hf)
    rw [List.length_map, List.length_map] at hranges
    rw [hranges, blocks_of_func? hinit hrun hf, List.length_findIdxs, List.countP_eq_length_filter]
  change ((cov'.blocksAt f.blocks).filter (·.visited)).length = f.blocks.length
  rw [← hlength, List.filter_eq_self.mpr]
  intro b hb
  refine ((visited_iff hinit hrun).mpr hfirst p n f hf b hb).mpr ?_
  obtain ⟨i, e, he, hin, hb⟩ := (mem_blocksAt hinit hrun hf).mp hb
  obtain ⟨b', hb', hstart, hstop, -⟩ := entry_of_block hinit hrun he
  obtain rfl := Option.some.inj (hb.symm.trans hb')
  obtain ⟨hspan, hsource⟩ := mem_entries.mp (List.mem_of_getElem? he)
  obtain ⟨hcontains, hmem⟩ := mem_spans hspan
  obtain ⟨x, hx, hx'⟩ := hall e.1.last hmem (List.any_eq_true.mpr ⟨e.2, hsource, hin⟩)
  refine ⟨x, hx, ?_⟩
  rw [hx', hstart, hstop]
  exact hcontains

theorem blocksAccounted_iff_spansSeparate (hinit : init image = .ok cov)
    (hrun : coverAll image executed cov = .ok () cov') :
    BlocksAccounted image executed cov' ↔ SpansSeparate image executed := by
  constructor
  · intro h
    obtain ⟨hfunctions, hranges⟩ :=
      pairwise_entries_iff.mp ((distinct_iff hinit hrun).mp h.distinct)
    obtain ⟨hsingle, hfirst⟩ := entriesFirst_iff.mp ((visited_iff hinit hrun).mp h.visited)
    exact ⟨hfunctions, hranges, hsingle, hfirst⟩
  · intro h
    have hfirst : EntriesFirst image executed := entriesFirst_iff.mpr ⟨h.single, h.first⟩
    refine ⟨?_, (visited_iff hinit hrun).mpr hfirst, fun p n f hf ↦ ?_, fun p n f hf hall ↦ ?_⟩
    · exact (distinct_iff hinit hrun).mpr (pairwise_entries_iff.mpr ⟨h.functions, h.ranges⟩)
    · calc
        (f.toJson cov').blocksExecuted ≤ (cov'.blocksAt f.blocks).length :=
          List.length_filter_le _ _
        _ ≤ (f.toJson cov').blocks := List.length_filterMap_le _ _
    · exact blocksExecuted_eq hinit hrun hfirst hf hall

end Accounts

/-- Two instructions of one span, both at the locations given. -/
def oneSpan (sources : List SourceInfo) : Image where
  loadInstr := fun _ ↦ .ok 0x13#32
  functions := [eightBytes]
  getSources := fun addr ↦ if addr.toNat < 8 then sources else []

def plainSpan : Image := oneSpan [⟨"main", "main.c", 1, 1⟩]

def inlinedSpan : Image := oneSpan [⟨"inlined", "main.c", 1, 1⟩, ⟨"main", "main.c", 5, 1⟩]

def executedSpan : List Executed := [⟨0#64, ⟨false, false, false⟩⟩, ⟨4#64, ⟨false, false, false⟩⟩]

theorem blocksAccounted_iff_spansSeparate_plainSpan :
    ∃ cov cov', init plainSpan = .ok cov ∧ coverAll plainSpan executedSpan cov = .ok () cov' ∧
      BlocksAccounted plainSpan executedSpan cov' := by
  have hinit : init plainSpan = .ok (initial plainSpan) := init_eq_initial (by decide +kernel)
  have hrun := Lib.eq_ok_of_returns (m := coverAll plainSpan executedSpan)
    (s := initial plainSpan) (by decide +kernel)
  have hspans : plainSpan.spans = [⟨0#64, 8#64, 4#64⟩] := by decide +kernel
  have hsources : plainSpan.getSources 4#64 = [⟨"main", "main.c", 1, 1⟩] := by decide +kernel
  have hknown : plainSpan.Known 0#64 :=
    ⟨⟨"main", "main.c", 1, 1⟩, by decide +kernel, 0#64, by decide +kernel, by decide +kernel⟩
  refine ⟨_, _, hinit, hrun, (blocksAccounted_iff_spansSeparate hinit hrun).mpr ⟨?_, ?_, ?_, ?_⟩⟩
  · rw [hspans]
    simp [hsources]
  · rw [hspans]
    exact List.pairwise_singleton _ _
  · rw [hspans]
    simp [hsources]
  · rw [hspans]
    intro k span hk _ _
    have hzero : k = 0 := by simpa using (List.getElem?_eq_some_iff.mp hk).1
    obtain rfl := hzero
    obtain rfl := Option.some.inj hk
    exact ⟨_, List.mem_cons_self, hknown, by decide, nofun⟩

/-- Where a function is inlined at the end of a span, only the first of two blocks is visited. -/
theorem not_blocksAccounted_of_inlined :
    ∃ cov cov', init inlinedSpan = .ok cov ∧ coverAll inlinedSpan executedSpan cov = .ok () cov' ∧
      ¬ BlocksAccounted inlinedSpan executedSpan cov' := by
  have hinit : init inlinedSpan = .ok (initial inlinedSpan) := init_eq_initial (by decide +kernel)
  have hrun := Lib.eq_ok_of_returns (m := coverAll inlinedSpan executedSpan)
    (s := initial inlinedSpan) (by decide +kernel)
  have hreport : (fun cov' : Coverage ↦ (Files.func? cov'.files "main.c" "main").map fun f ↦
      ((f.toJson cov').blocks, (f.toJson cov').blocksExecuted))
        (Lib.stateAfter (coverAll inlinedSpan executedSpan) (initial inlinedSpan)) =
      some (1, 0) := by decide +kernel
  have hinstrs : inlinedSpan.instrs = [0#64, 4#64] := by decide +kernel
  refine ⟨_, _, hinit, hrun, fun h ↦ ?_⟩
  obtain ⟨f, hf, hblocks⟩ := Option.map_eq_some_iff.mp hreport
  obtain ⟨hone, hzero⟩ := Prod.mk.inj hblocks
  have hcomplete := h.complete "main.c" "main" f hf (by simp [hinstrs, executedSpan])
  rw [hone, hzero] at hcomplete
  cases hcomplete

end CoverageVP.Iss.Coverage
