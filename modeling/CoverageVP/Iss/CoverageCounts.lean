import CoverageVP.Iss.CoverageRecords

/-!
# Counts of lines and functions

A line or a function is counted when its first instruction is executed, where the first instruction
is the first one that the initialisation visits. An execution that enters a line elsewhere, at an
inlined copy or behind the target of a jump, leaves its count at zero.
-/

namespace CoverageVP.Iss.Coverage

/-! ## Counts -/

section Counts

variable {p n : String} {l : Int} {hits : List Hit}

theorem firstInstr_count (f : Function) (addr : BitVec 64) :
    (f.count addr).firstInstr = f.firstInstr := by
  unfold Function.count
  split
  · rfl
  · rfl

theorem execCount_pos_count (f : Function) (addr : BitVec 64) :
    0 < (f.count addr).execCount ↔ 0 < f.execCount ∨ addr = f.firstInstr := by
  unfold Function.count
  split
  case isTrue h => exact iff_of_true (Nat.succ_pos _) (.inr h)
  case isFalse h => exact (or_iff_left h).symm

theorem execCount_pos_countLine (hits : List Hit) (sl : SourceLine) :
    0 < (countLine p l hits sl).execCount ↔
      0 < sl.execCount ∨ ∃ hit ∈ hits, onLine hit.2 p l = true ∧ hit.1.addr = sl.firstInstr := by
  induction hits generalizing sl with
  | nil => simp [countLine]
  | cons hit hits ih =>
    rw [countLine_cons, ih]
    by_cases hon : onLine hit.2 p l = true
    · rw [if_pos hon]
      by_cases hfirst : hit.1.addr = sl.firstInstr
      · simp [SourceLine.count, hon, hfirst]
      · simp [SourceLine.count, hon, hfirst]
    · rw [if_neg hon]
      simp [hon]

theorem execCount_pos_countFunc (hits : List Hit) (f : Function) :
    0 < (countFunc p n hits f).execCount ↔
      0 < f.execCount ∨ ∃ hit ∈ hits, inFunc hit.2 p n = true ∧ hit.1.addr = f.firstInstr := by
  induction hits generalizing f with
  | nil => simp [countFunc]
  | cons hit hits ih =>
    rw [countFunc_cons, ih]
    by_cases hin : inFunc hit.2 p n = true
    · rw [if_pos hin, execCount_pos_count, firstInstr_count]
      simp [hin, or_assoc]
    · rw [if_neg hin]
      simp [hin]

/-- Some flag of a line is set. -/
def Flagged (sl : SourceLine) : Prop :=
  sl.symbolicOnce = true ∨ sl.taintedOnce = true ∨ sl.initialConc = true

/-- A flag is set by an instruction of the line. -/
theorem flagged_countLine {sl : SourceLine} (h : Flagged (countLine p l hits sl)) :
    Flagged sl ∨ ∃ hit ∈ hits, onLine hit.2 p l = true := by
  induction hits generalizing sl with
  | nil => exact .inl h
  | cons hit hits ih =>
    by_cases hon : onLine hit.2 p l = true
    · exact .inr ⟨hit, List.mem_cons_self, hon⟩
    · rw [countLine_cons, if_neg hon] at h
      rcases ih h with h | ⟨hit', hmem, hon'⟩
      · exact .inl h
      · exact .inr ⟨hit', List.mem_cons_of_mem hit hmem, hon'⟩

end Counts

/-! ## First instructions -/

variable {image : Image} {executed : List Executed}

theorem find?_map_pair {addr : BitVec 64} (sources : List SourceInfo) (q : SourceInfo → Bool) :
    ((sources.map (addr, ·)).find? fun v ↦ q v.2).map Prod.fst =
      if sources.any q then some addr else none := by
  induction sources with
  | nil => rfl
  | cons s sources ih =>
    rw [List.map_cons, List.find?_cons, List.any_cons]
    cases q s with
    | true => rfl
    | false => exact ih

/-- The first visit of a location is at the first instruction that maps to it. -/
theorem find?_visits (image : Image) (addrs : List (BitVec 64)) (q : SourceInfo → Bool) :
    ((image.visits addrs).find? fun v ↦ q v.2).map Prod.fst =
      addrs.find? fun addr ↦ (image.getSources addr).any q := by
  induction addrs with
  | nil => rfl
  | cons addr addrs ih =>
    rw [Image.visits, List.flatMap_cons, List.find?_append, List.find?_cons, Option.map_or,
      find?_map_pair]
    cases (image.getSources addr).any q with
    | true => rfl
    | false => exact ih

theorem exists_hit_iff (q : SourceInfo → Bool) (r : BitVec 64 → Prop) :
    (∃ hit ∈ image.hits executed, q hit.2 = true ∧ r hit.1.addr) ↔
      ∃ e ∈ executed, (image.getSources e.addr).any q = true ∧ r e.addr := by
  simp only [Image.hits, List.mem_flatMap, List.mem_map, List.any_eq_true]
  constructor
  · rintro ⟨_, ⟨e, he, s, hs, rfl⟩, hq, hr⟩
    exact ⟨e, he, ⟨s, hs, hq⟩, hr⟩
  · rintro ⟨e, he, ⟨s, hs, hq⟩, hr⟩
    exact ⟨(e, s), ⟨e, he, s, hs, rfl⟩, hq, hr⟩

section Recorded

variable {cov cov' : Coverage}

/-- The line of a report, from the line that was entered. -/
theorem line?_of_run (hinit : init image = .ok cov) (hrun : coverAll image executed cov = .ok () cov')
    {p : String} {l : Int} {sl' : SourceLine} (h : Files.line? cov'.files p l = some sl') :
    ∃ first, image.instrs.find? (image.mapsToLine p l) = some first ∧
      (0 < sl'.execCount ↔ ∃ e ∈ executed, image.mapsToLine p l e.addr = true ∧ e.addr = first) ∧
      (Flagged sl' → ∃ e ∈ executed, image.mapsToLine p l e.addr = true) := by
  rw [(counted_coverAll hrun).lines] at h
  obtain ⟨sl, hsl, rfl⟩ := Option.map_eq_some_iff.mp h
  have hentered := (records_init hinit).lines p l
  rw [hsl, Option.map_some] at hentered
  obtain ⟨v, hv, hinfo⟩ := Option.map_eq_some_iff.mp hentered.symm
  simp only [lineInfo, Prod.mk.injEq, Bool.false_eq, Bool.or_eq_false_iff] at hinfo
  obtain ⟨hfirst, hzero, ⟨hsymbolic, htainted⟩, hinitial⟩ := hinfo
  refine ⟨v.1, ?_, ?_, fun hflagged ↦ ?_⟩
  · have hfind := find?_visits image image.instrs (onLine · p l)
    rw [hv] at hfind
    exact hfind.symm
  · rw [execCount_pos_countLine, ← hzero, ← hfirst, exists_hit_iff (onLine · p l) (· = v.1)]
    exact or_iff_right (Nat.lt_irrefl 0)
  · rcases flagged_countLine hflagged with h | ⟨hit, hmem, hon⟩
    · simp [Flagged, hsymbolic, htainted, hinitial] at h
    · obtain ⟨e, he, hmaps, -⟩ := (exists_hit_iff (onLine · p l) fun _ ↦ True).mp
        ⟨hit, hmem, hon, trivial⟩
      exact ⟨e, he, hmaps⟩

theorem func?_of_run (hinit : init image = .ok cov) (hrun : coverAll image executed cov = .ok () cov')
    {p n : String} {f' : Function} (h : Files.func? cov'.files p n = some f') :
    ∃ first, image.instrs.find? (image.mapsToFunc p n) = some first ∧
      (0 < f'.execCount ↔ ∃ e ∈ executed, image.mapsToFunc p n e.addr = true ∧ e.addr = first) := by
  rw [(counted_coverAll hrun).funcs] at h
  obtain ⟨f, hf, rfl⟩ := Option.map_eq_some_iff.mp h
  have hentered := (records_init hinit).funcs p n
  rw [hf, Option.map_some] at hentered
  obtain ⟨v, hv, hinfo⟩ := Option.map_eq_some_iff.mp hentered.symm
  simp only [funcInfo, Prod.mk.injEq] at hinfo
  refine ⟨v.1, ?_, ?_⟩
  · have hfind := find?_visits image image.instrs (inFunc · p n)
    rw [hv] at hfind
    exact hfind.symm
  · rw [execCount_pos_countFunc, ← hinfo.2.1, ← hinfo.1, exists_hit_iff (inFunc · p n) (· = v.1)]
    exact or_iff_right (Nat.lt_irrefl 0)

/-- What maps to a visited instruction is reported. -/
theorem exists_line?_of_run (hinit : init image = .ok cov)
    (hrun : coverAll image executed cov = .ok () cov') {p : String} {l : Int} {first : BitVec 64}
    (h : image.instrs.find? (image.mapsToLine p l) = some first) :
    ∃ sl, Files.line? cov'.files p l = some sl := by
  have hfind := (find?_visits image image.instrs (onLine · p l)).trans h
  obtain ⟨v, hv, -⟩ := Option.map_eq_some_iff.mp hfind
  have hentered := (records_init hinit).lines p l
  rw [hv, Option.map_some] at hentered
  obtain ⟨sl, hsl, -⟩ := Option.map_eq_some_iff.mp hentered
  exact ⟨_, by rw [(counted_coverAll hrun).lines, hsl, Option.map_some]⟩

theorem exists_func?_of_run (hinit : init image = .ok cov)
    (hrun : coverAll image executed cov = .ok () cov') {p n : String} {first : BitVec 64}
    (h : image.instrs.find? (image.mapsToFunc p n) = some first) :
    ∃ f, Files.func? cov'.files p n = some f := by
  have hfind := (find?_visits image image.instrs (inFunc · p n)).trans h
  obtain ⟨v, hv, -⟩ := Option.map_eq_some_iff.mp hfind
  have hentered := (records_init hinit).funcs p n
  rw [hv, Option.map_some] at hentered
  obtain ⟨f, hf, -⟩ := Option.map_eq_some_iff.mp hentered
  exact ⟨_, by rw [(counted_coverAll hrun).funcs, hf, Option.map_some]⟩

end Recorded

/-! ## Executed code -/

/-- Counts are positive for the lines and functions that an executed instruction maps to, and only
for these, and a line with a flag has a positive count. -/
structure CountsExecuted (image : Image) (executed : List Executed) (cov : Coverage) : Prop where
  lines : ∀ p l sl, Files.line? cov.files p l = some sl →
    (0 < (sl.toJson cov).count ↔ ∃ e ∈ executed, image.mapsToLine p l e.addr = true)
  funcs : ∀ p n f, Files.func? cov.files p n = some f →
    (0 < (f.toJson cov).executionCount ↔ ∃ e ∈ executed, image.mapsToFunc p n e.addr = true)
  flags : ∀ p l sl, Files.line? cov.files p l = some sl →
    (sl.toJson cov).symbolicOnce = true ∨ (sl.toJson cov).taintedOnce = true ∨
      (sl.toJson cov).initialConcretization = true → 0 < (sl.toJson cov).count

/-- If an instruction of a line or a function is executed, then so is the first one. -/
structure FirstExecuted (image : Image) (executed : List Executed) : Prop where
  lines : ∀ p l first, image.instrs.find? (image.mapsToLine p l) = some first →
    (∃ e ∈ executed, image.mapsToLine p l e.addr = true) → ∃ e ∈ executed, e.addr = first
  funcs : ∀ p n first, image.instrs.find? (image.mapsToFunc p n) = some first →
    (∃ e ∈ executed, image.mapsToFunc p n e.addr = true) → ∃ e ∈ executed, e.addr = first

theorem countsExecuted_iff_firstExecuted {cov cov' : Coverage} (hinit : init image = .ok cov)
    (hrun : coverAll image executed cov = .ok () cov') :
    CountsExecuted image executed cov' ↔ FirstExecuted image executed := by
  constructor
  · intro h
    refine ⟨fun p l first hfirst hexecuted ↦ ?_, fun p n first hfirst hexecuted ↦ ?_⟩
    · obtain ⟨sl, hsl⟩ := exists_line?_of_run hinit hrun hfirst
      obtain ⟨first', hfirst', hcount, -⟩ := line?_of_run hinit hrun hsl
      obtain rfl := Option.some.inj (hfirst.symm.trans hfirst')
      obtain ⟨e, he, -, haddr⟩ := hcount.mp ((h.lines p l sl hsl).mpr hexecuted)
      exact ⟨e, he, haddr⟩
    · obtain ⟨f, hf⟩ := exists_func?_of_run hinit hrun hfirst
      obtain ⟨first', hfirst', hcount⟩ := func?_of_run hinit hrun hf
      obtain rfl := Option.some.inj (hfirst.symm.trans hfirst')
      obtain ⟨e, he, -, haddr⟩ := hcount.mp ((h.funcs p n f hf).mpr hexecuted)
      exact ⟨e, he, haddr⟩
  · intro h
    have hline : ∀ p l sl, Files.line? cov'.files p l = some sl →
        (0 < (sl.toJson cov').count ↔ ∃ e ∈ executed, image.mapsToLine p l e.addr = true) := by
      intro p l sl hsl
      obtain ⟨first, hfirst, hcount, -⟩ := line?_of_run hinit hrun hsl
      refine hcount.trans ⟨fun ⟨e, he, hmaps, _⟩ ↦ ⟨e, he, hmaps⟩, fun hexecuted ↦ ?_⟩
      obtain ⟨e, he, rfl⟩ := h.lines p l first hfirst hexecuted
      exact ⟨e, he, List.find?_some hfirst, rfl⟩
    refine ⟨hline, fun p n f hf ↦ ?_, fun p l sl hsl hflag ↦ ?_⟩
    · obtain ⟨first, hfirst, hcount⟩ := func?_of_run hinit hrun hf
      refine hcount.trans ⟨fun ⟨e, he, hmaps, _⟩ ↦ ⟨e, he, hmaps⟩, fun hexecuted ↦ ?_⟩
      obtain ⟨e, he, rfl⟩ := h.funcs p n first hfirst hexecuted
      exact ⟨e, he, List.find?_some hfirst, rfl⟩
    · obtain ⟨-, -, -, hflagged⟩ := line?_of_run hinit hrun hsl
      exact (hline p l sl hsl).mpr (hflagged hflag)

def twoInstrs : Image where
  loadInstr := fun _ ↦ .ok 0x13#32
  functions := [eightBytes]
  getSources := fun addr ↦ if addr.toNat < 8 then [⟨"main", "main.c", 1, 1⟩] else []

def executedTwice : List Executed := [⟨0#64, ⟨false, false, false⟩⟩, ⟨4#64, ⟨false, true, false⟩⟩]

def executedSecond : List Executed := [⟨4#64, ⟨false, true, false⟩⟩]

theorem countsExecuted_iff_firstExecuted_twoInstrs :
    ∃ cov cov', init twoInstrs = .ok cov ∧ coverAll twoInstrs executedTwice cov = .ok () cov' ∧
      CountsExecuted twoInstrs executedTwice cov' := by
  have hinit : init twoInstrs = .ok (initial twoInstrs) := init_eq_initial (by decide +kernel)
  have hrun := Lib.eq_ok_of_returns (m := coverAll twoInstrs executedTwice)
    (s := initial twoInstrs) (by decide +kernel)
  have hinstrs : twoInstrs.instrs = [0#64, 4#64] := by decide +kernel
  have hall : ∀ addr ∈ twoInstrs.instrs, ∃ e ∈ executedTwice, e.addr = addr := by
    rw [hinstrs]
    simp [executedTwice]
  refine ⟨_, _, hinit, hrun, (countsExecuted_iff_firstExecuted hinit hrun).mpr ⟨?_, ?_⟩⟩
  · exact fun p l first hfirst _ ↦ hall first (List.mem_of_find?_eq_some hfirst)
  · exact fun p n first hfirst _ ↦ hall first (List.mem_of_find?_eq_some hfirst)

/-- A line that is entered at its second instruction is marked as symbolic and not counted. -/
theorem not_countsExecuted_of_second :
    ∃ cov cov', init twoInstrs = .ok cov ∧ coverAll twoInstrs executedSecond cov = .ok () cov' ∧
      ¬ CountsExecuted twoInstrs executedSecond cov' := by
  have hinit : init twoInstrs = .ok (initial twoInstrs) := init_eq_initial (by decide +kernel)
  have hrun := Lib.eq_ok_of_returns (m := coverAll twoInstrs executedSecond)
    (s := initial twoInstrs) (by decide +kernel)
  have hreport : (fun cov' : Coverage ↦ (Files.line? cov'.files "main.c" 1).map fun sl ↦
      ((sl.toJson cov').symbolicOnce, (sl.toJson cov').count))
        (Lib.stateAfter (coverAll twoInstrs executedSecond) (initial twoInstrs)) =
      some (true, 0) := by decide +kernel
  refine ⟨_, _, hinit, hrun, fun h ↦ ?_⟩
  obtain ⟨sl, hsl, hflags⟩ := Option.map_eq_some_iff.mp hreport
  obtain ⟨hsymbolic, hcount⟩ := Prod.mk.inj hflags
  exact Nat.ne_of_gt (h.flags "main.c" 1 sl hsl (.inl hsymbolic)) hcount

end CoverageVP.Iss.Coverage
