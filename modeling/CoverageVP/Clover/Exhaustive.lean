import CoverageVP.Clover.Search

/-!
# The exploration is exhaustive

From the model that the solver returned to the inputs of the next run, and from there to the whole
loop: every run is new, there are finitely many paths, and when the loop ends every input follows a
path that was executed.
-/

namespace CoverageVP.Clover

open Lib

/-! ## From a model to a schedule -/

theorem intFromVector_bytesOf (T : IntType) (x : BitVec (8 * T.byteSize)) :
    ∃ value, IntValue.intFromVector (bytesOf x) = some value ∧ value.type = T ∧
      BitVec.ofNat (8 * T.byteSize) value.intToUint = x := by
  cases T with
  | uint8 =>
    change BitVec 8 at x
    have hbyte : x.extractLsb' 0 8 = x := BitVec.extractLsb'_eq_self
    refine ⟨.uint8 x, ?_, rfl, by
      simp only [IntValue.intToUint, BitVec.ofNat_toNat]
      exact BitVec.setWidth_eq x⟩
    change some (IntValue.uint8 (x.extractLsb' 0 8)) = _
    rw [hbyte]
  | uint32 =>
    change BitVec 32 at x
    have hbytes : x.extractLsb' 24 8 ++ x.extractLsb' 16 8 ++ x.extractLsb' 8 8 ++
        x.extractLsb' 0 8 = x := by
      apply BitVec.eq_of_getLsbD_eq
      intro i hi
      simp only [BitVec.getLsbD_append, BitVec.getLsbD_extractLsb']
      grind
    refine ⟨.uint32 x, ?_, rfl, by
      simp only [IntValue.intToUint, BitVec.ofNat_toNat]
      exact BitVec.setWidth_eq x⟩
    change some (IntValue.uint32 (x.extractLsb' 24 8 ++ x.extractLsb' 16 8 ++
      x.extractLsb' 8 8 ++ x.extractLsb' 0 8)) = _
    rw [hbytes]

/-- The store has the value that `τ` gives to an array. -/
def Stores (store : ConcreteStore) (τ : Assignment) (array : SymArray) : Prop :=
  ∃ value, store[array.name]? = some value ∧ value.type.byteSize = array.size ∧
    BitVec.ofNat _ value.intToUint = τ array

section Schedule

variable {inputs : List (IntType × String)} {τ : Assignment}

/-- The array of an input. -/
def inputArray (input : IntType × String) : SymArray := ⟨input.2, input.1.byteSize⟩

theorem inputArray_injOn (hnodup : (inputs.map Prod.snd).Nodup) {a b : IntType × String}
    (ha : a ∈ inputs) (hb : b ∈ inputs) (hname : a.2 = b.2) : a = b :=
  List.inj_on_of_nodup_map hnodup ha hb hname

/-- Storing further arrays of the inputs keeps what is stored. -/
theorem foldlM_insert_stores (hnodup : (inputs.map Prod.snd).Nodup) (objects done : List SymArray)
    (store : ConcreteStore)
    (hobjects : ∀ array ∈ objects, ∃ input ∈ inputs, array = inputArray input)
    (hdone : ∀ array ∈ done, ∃ input ∈ inputs, array = inputArray input)
    (hstores : ∀ array ∈ done, Stores store τ array)
    (honly : ∀ n value, store[n]? = some value → (value.type, n) ∈ inputs) :
    ∃ store', (objects.map fun array ↦ (array, bytesOf (τ array))).foldlM
        (fun (store : ConcreteStore) binding ↦ do
          let value ← IntValue.intFromVector binding.2
          return store.insert binding.1.name value) store = some store' ∧
      (∀ array ∈ done ++ objects, Stores store' τ array) ∧
      ∀ n value, store'[n]? = some value → (value.type, n) ∈ inputs := by
  induction objects generalizing done store with
  | nil => exact ⟨store, rfl, by simpa using hstores, honly⟩
  | cons array objects ih =>
    obtain ⟨⟨T, name⟩, hinput, rfl⟩ := hobjects array List.mem_cons_self
    obtain ⟨value, hvalue, htype, hmeaning⟩ := intFromVector_bytesOf T (τ (inputArray (T, name)))
    subst htype
    have hdone' : ∀ array ∈ done ++ [inputArray (value.type, name)],
        ∃ input ∈ inputs, array = inputArray input := by
      intro array harray
      rcases List.mem_append.mp harray with harray | harray
      · exact hdone array harray
      · exact ⟨_, hinput, List.mem_singleton.mp harray⟩
    have hnew : Stores (store.insert name value) τ (inputArray (value.type, name)) :=
      ⟨value, by simp [inputArray], rfl, hmeaning⟩
    have hstores' : ∀ array ∈ done ++ [inputArray (value.type, name)],
        Stores (store.insert name value) τ array := by
      intro array harray
      rcases List.mem_append.mp harray with harray | harray
      · by_cases hname : name = array.name
        · obtain ⟨input, hmem, rfl⟩ := hdone array harray
          have hsame := inputArray_injOn hnodup hinput hmem hname
          rw [← hsame]
          exact hnew
        · obtain ⟨old, hold, hold'⟩ := hstores array harray
          refine ⟨old, ?_, hold'⟩
          rw [Std.ExtTreeMap.getElem?_insert, if_neg (by simpa using hname), hold]
      · rw [List.mem_singleton.mp harray]
        exact hnew
    have honly' : ∀ n v, (store.insert name value)[n]? = some v →
        (v.type, n) ∈ inputs := by
      intro n v hv
      rw [Std.ExtTreeMap.getElem?_insert] at hv
      split at hv
      · next hn =>
        obtain rfl := Option.some.inj hv
        obtain rfl : name = n := by simpa using hn
        exact hinput
      · exact honly n v hv
    obtain ⟨store', hfold, hall, hnames⟩ := ih (done ++ [inputArray (value.type, name)]) _
      (fun array h ↦ hobjects array (List.mem_cons_of_mem _ h)) hdone' hstores' honly'
    refine ⟨store', ?_, by simpa using hall, hnames⟩
    have hbytes : IntValue.intFromVector (bytesOf (τ (inputArray (value.type, name)))) =
        some value := hvalue
    rw [List.map_cons, List.foldlM_cons, ← hfold]
    simp only [hbytes]
    rfl

theorem getStore_stores (τ : Assignment) (hnodup : (inputs.map Prod.snd).Nodup) {objects : List SymArray}
    (hobjects : ∀ array ∈ objects, ∃ input ∈ inputs, array = inputArray input) :
    ∃ store, Trace.getStore (objects.map fun array ↦ (array, bytesOf (τ array))) = some store ∧
      (∀ array ∈ objects, Stores store τ array) ∧
      ∀ n value, store[n]? = some value → (value.type, n) ∈ inputs :=
  foldlM_insert_stores hnodup objects [] ∅ hobjects (by simp) (by simp) (by simp)

end Schedule

/-! ## From a schedule to the inputs of a run -/

section Inputs

variable {inputs : List (IntType × String)} {s s' : InputState} {values : List IntValue}

/-- Values are scheduled for inputs of their type only. -/
def Suits (schedule : ConcreteStore) (inputs : List (IntType × String)) : Prop :=
  ∀ n value, schedule[n]? = some value → (value.type, n) ∈ inputs

/-- An assertion can only fail at an input that is scheduled with another type. -/
theorem Aborted.not_accepts (h : Aborted inputs s s') :
    ∃ input ∈ inputs, ¬ Accepts s.ctx.nextRun input.1 input.2 := by
  induction h with
  | here hnot => exact ⟨_, List.mem_cons_self, hnot⟩
  | @later T name rest value s s₁ s₂ hstep hrest ih =>
    obtain ⟨input, hmem, hnot⟩ := ih
    refine ⟨input, List.mem_cons_of_mem _ hmem, fun haccepts ↦ hnot ?_⟩
    intro x hx
    rw [hstep.getElem?_nextRun] at hx
    split at hx
    · cases hx
    · exact haccepts x hx

theorem Suits.fetched (hsuits : Suits s.ctx.nextRun inputs)
    (hnodup : (inputs.map Prod.snd).Nodup) :
    ∃ values s', fetch inputs s = .ok values s' ∧ Fetched inputs s values s' := by
  rcases fetch_cases inputs s with hok | ⟨s', -, haborted⟩
  · exact hok
  · obtain ⟨input, hmem, hnot⟩ := haborted.not_accepts
    refine absurd (fun value hvalue ↦ ?_) hnot
    have hsame := inputArray_injOn hnodup (hsuits _ _ hvalue) hmem rfl
    rw [← hsame]

theorem Fetched.nextRun_eq_none (h : Fetched inputs s values s')
    (hsuits : Suits s.ctx.nextRun inputs) (n : String) : s'.ctx.nextRun[n]? = none := by
  by_cases hn : n ∈ inputs.map Prod.snd
  · exact h.not_scheduled hn
  · rw [(h.frame hn).2]
    cases hvalue : s.ctx.nextRun[n]? with
    | none => rfl
    | some value => exact absurd (List.mem_map_of_mem (hsuits n value hvalue)) hn

/-- The values of a run are found under the names of its inputs. -/
theorem find?_zip (hnodup : (inputs.map Prod.snd).Nodup) {i : Nat} {input : IntType × String}
    {value : IntValue} (hinput : inputs[i]? = some input) (hvalue : values[i]? = some value) :
    (inputs.zip values).find? (fun entry ↦ entry.1.2 = input.2) = some (input, value) := by
  induction inputs generalizing i values with
  | nil => cases hinput
  | cons head inputs ih =>
    cases values with
    | nil => cases hvalue
    | cons v values =>
      rw [List.map_cons, List.nodup_cons] at hnodup
      rw [List.zip_cons_cons, List.find?_cons]
      cases i with
      | zero =>
        obtain rfl : head = input := by simpa using hinput
        obtain rfl : v = value := by simpa using hvalue
        simp
      | succ i =>
        have hmem : input ∈ inputs := List.mem_of_getElem? hinput
        have hne : head.2 ≠ input.2 := fun h ↦ hnodup.1 (h ▸ List.mem_map_of_mem hmem)
        simpa [hne] using ih hnodup.2 (i := i) hinput hvalue

/-- A run that is given the values stored for a model agrees with the model. -/
theorem Fetched.inputAssignment_eq (h : Fetched inputs s values s')
    (hnodup : (inputs.map Prod.snd).Nodup) {τ : Assignment} {input : IntType × String}
    (hmem : input ∈ inputs) (hstores : Stores s.ctx.nextRun τ (inputArray input)) :
    inputAssignment inputs values (inputArray input) = τ (inputArray input) := by
  obtain ⟨i, hi⟩ := List.getElem?_of_mem hmem
  obtain ⟨hlt, -⟩ := List.getElem?_eq_some_iff.mp hi
  obtain ⟨v, hvalue⟩ : ∃ v, values[i]? = some v :=
    ⟨_, List.getElem?_eq_getElem (h.length_eq ▸ hlt)⟩
  obtain ⟨value, hscheduled, -, hmeaning⟩ := hstores
  have hname : (inputs.map Prod.snd)[i]? = some input.2 := by simp [hi]
  have heq := (h.getElem? hnodup hname hvalue).2 value hscheduled
  rw [heq] at hvalue
  unfold inputAssignment inputArray
  rw [find?_zip hnodup hi hvalue]
  exact hmeaning

end Inputs

/-! ## The loop -/

section Loop

open Branch

variable {klee : Klee} {program : Program} {executed : List (List Bool)} {st st' : ExploreState}

/-- The path of an input. -/
def Program.path (program : Program) (σ : Assignment) : List Bool :=
  program.tree.follow (decides σ)

/-- The execution tree is explored, and its leaves are the executed paths. -/
structure Traced (program : Program) (executed : List (List Bool)) (root : Branch) : Prop where
  ne_null : root ≠ .null
  explored : Explored (fun _ ↦ True) root program.tree
  leaf : ∀ path, root.HasLeaf path ↔ path ∈ executed

/-- Before a run: the scheduled values suit the inputs, and whatever inputs the run is given, its
path is new and its conditions complete the execution tree. -/
structure Ready (program : Program) (executed : List (List Bool)) (st : ExploreState) : Prop where
  suits : Suits st.ctx.nextRun program.inputs
  run : ∀ values s', Fetched program.inputs ⟨st.ctx, st.rand⟩ values s' →
    let σ := inputAssignment program.inputs values
    program.path σ ∉ executed ∧
      Traced program (executed ++ [program.path σ])
        (st.trace.pathCondsRoot.insert σ program.tree)

/-- After a run. -/
structure Rested (program : Program) (executed : List (List Bool)) (st : ExploreState) : Prop where
  drained : ∀ n : String, st.ctx.nextRun[n]? = none
  traced : Traced program executed st.trace.pathCondsRoot

theorem ready_init (program : Program) (rand : RandSource) :
    Ready program [] (ExploreState.init rand) := by
  refine ⟨?_, ?_⟩
  · intro n value hvalue
    simp [ExploreState.init, ExecutionContext.init] at hvalue
  · intro values s' hfetched σ
    obtain ⟨hexplored, hleaf⟩ :=
      @insert_placeholder σ (fun _ ↦ True) program.tree trivial
    refine ⟨List.not_mem_nil, insert_ne_null _ placeholder_ne_null, hexplored, ?_⟩
    intro path
    rw [List.nil_append, List.mem_singleton]
    exact hleaf path

/-- One run of the program. -/
theorem Ready.runProgram (klee : Klee) (h : Ready program executed st) :
    ∃ σ st', runProgram klee program st = some (program.path σ, st') ∧
      program.path σ ∉ executed ∧ Rested program (executed ++ [program.path σ]) st' := by
  obtain ⟨values, s', hok, hfetched⟩ := Suits.fetched (s := ⟨st.ctx, st.rand⟩) h.suits program.nodup
  obtain ⟨hnew, htraced⟩ := h.run values s' hfetched
  refine ⟨inputAssignment program.inputs values, _, by rw [Clover.runProgram, hok]; rfl, hnew, ?_⟩
  refine ⟨hfetched.nextRun_eq_none h.suits, ?_⟩
  rw [pathCondsRoot_report]
  exact htraced

/-- The search between two runs. -/
theorem Rested.setupNewValues (hk : klee.Lawful) (h : Rested program executed st) :
    (∃ st', setupNewValues klee st = some (true, st') ∧ Ready program executed st') ∨
    (∃ st', setupNewValues klee st = some (false, st') ∧ ∀ σ, program.path σ ∈ executed) := by
  obtain ⟨found, trace', rand', hfind, hsearched⟩ := findNewPath_searched hk program.width
    st.trace st.rand h.traced.explored h.traced.ne_null
  rw [Clover.setupNewValues, hfind]
  cases hsearched with
  | done hall => exact .inr ⟨_, rfl, fun σ ↦ (h.traced.leaf _).mp (hall σ)⟩
  | @found objects τ hreads hpending hleaf =>
    have hobjects : ∀ array ∈ objects, ∃ input ∈ program.inputs, array = inputArray input := by
      intro array harray
      obtain ⟨c, hc, harray⟩ := List.mem_flatMap.mp (hreads harray)
      exact program.reads c hc array harray
    obtain ⟨store, hstore, hstores, honly⟩ := getStore_stores τ program.nodup hobjects
    have hschedule : ∀ n : String, (st.ctx.nextRun ∪ store)[n]? = store[n]? := by
      intro n
      rw [Std.ExtTreeMap.getElem?_union, h.drained n, Option.or_none]
    refine .inl ⟨⟨st.ctx.setupNewValues store, trace', rand'⟩, by simp only [hstore], ?_, ?_⟩
    · intro n value hvalue
      exact honly n value (by rw [← hschedule]; exact hvalue)
    · intro values s' hfetched σ
      have hagree : ∀ array ∈ objects, σ array = τ array := by
        intro array harray
        obtain ⟨input, hinput, rfl⟩ := hobjects array harray
        refine hfetched.inputAssignment_eq program.nodup hinput ?_
        obtain ⟨value, hvalue, hmeaning⟩ := hstores _ harray
        exact ⟨value, (hschedule _).trans hvalue, hmeaning⟩
      obtain ⟨hexplored, hleaf', hnew⟩ := (hpending σ hagree).insert (fun _ ↦ True) trivial
      refine ⟨fun hmem ↦ hnew ((hleaf _).mpr ((h.traced.leaf _).mpr hmem)), ?_⟩
      refine ⟨insert_ne_null _ (hpending σ hagree).ne_null, hexplored, fun path ↦ ?_⟩
      rw [hleaf', hleaf, h.traced.leaf, List.mem_append, List.mem_singleton]
      rfl

/-- The loop from any state that is ready for a run, with enough fuel for the paths left. -/
theorem Ready.explorePaths (hk : klee.Lawful) (fuel : Nat) (h : Ready program executed st)
    (hnodup : executed.Nodup) (hpaths : ∀ path ∈ executed, path ∈ program.tree.paths)
    (hfuel : program.tree.paths.length ≤ executed.length + fuel) :
    ∃ more, explorePaths klee program fuel st = some more ∧ (executed ++ more).Nodup ∧
      (∀ path ∈ more, ∃ σ, program.path σ = path) ∧ ∀ σ, program.path σ ∈ executed ++ more := by
  induction fuel generalizing executed st with
  | zero =>
    obtain ⟨σ, st', -, hnew, -⟩ := h.runProgram klee
    have hnodup' : (program.path σ :: executed).Nodup := List.nodup_cons.mpr ⟨hnew, hnodup⟩
    have hlength := DecisionTree.length_le_of_nodup hnodup'
      (List.forall_mem_cons.mpr ⟨DecisionTree.follow_mem_paths _ _, hpaths⟩)
    rw [List.length_cons] at hlength
    omega
  | succ fuel ih =>
    obtain ⟨σ, st₁, hrun, hnew, hrested⟩ := h.runProgram klee
    have hnodup' : (executed ++ [program.path σ]).Nodup := by
      simpa [List.nodup_append] using ⟨hnodup, fun path hpath heq ↦ hnew (heq ▸ hpath)⟩
    have hpaths' : ∀ path ∈ executed ++ [program.path σ], path ∈ program.tree.paths := by
      intro path hpath
      rcases List.mem_append.mp hpath with hpath | hpath
      · exact hpaths path hpath
      · rw [List.mem_singleton.mp hpath]
        exact DecisionTree.follow_mem_paths _ _
    rw [Clover.explorePaths, hrun]
    rcases hrested.setupNewValues hk with ⟨st₂, hsetup, hready⟩ | ⟨st₂, hsetup, hall⟩
    · obtain ⟨more, hmore, hnodup'', hsat, hall⟩ := ih hready hnodup' hpaths' (by
        rw [List.length_append, List.length_singleton]
        omega)
      refine ⟨program.path σ :: more, by simp [hsetup, hmore], by simpa using hnodup'', ?_,
        by simpa using hall⟩
      exact List.forall_mem_cons.mpr ⟨⟨σ, rfl⟩, hsat⟩
    · exact ⟨[program.path σ], by simp [hsetup], hnodup', by simp, hall⟩

/-- The loop ends, no two runs follow the same path, every path that was executed is one of the
program, and the path of every input was executed exactly once. -/
theorem explorePaths_exhaustive (hk : klee.Lawful) (program : Program) (rand : RandSource) :
    ∃ fuel executed, explorePaths klee program fuel (.init rand) = some executed ∧
      executed.Nodup ∧ (∀ path ∈ executed, ∃ σ, program.path σ = path) ∧
      ∀ σ, executed.count (program.path σ) = 1 := by
  obtain ⟨executed, hexplore, hnodup, hsat, hall⟩ := (ready_init program rand).explorePaths hk
    program.tree.paths.length List.nodup_nil (by simp) (by simp)
  exact ⟨_, executed, hexplore, hnodup, hsat, fun σ ↦ List.count_eq_one_of_mem hnodup (hall σ)⟩

end Loop

/-- All assignments of the given arrays; other arrays are zero. -/
def assignments : List SymArray → List Assignment
  | [] => [fun _ ↦ 0#_]
  | array :: arrays =>
    (assignments arrays).flatMap fun σ ↦
      (List.range (2 ^ (8 * array.size))).map fun n ↦ Function.update σ array (BitVec.ofNat _ n)

theorem exists_mem_assignments (σ : Assignment) (arrays : List SymArray) :
    ∃ τ ∈ assignments arrays, ∀ array ∈ arrays, τ array = σ array := by
  induction arrays with
  | nil => exact ⟨_, List.mem_singleton_self _, by simp⟩
  | cons array arrays ih =>
    obtain ⟨τ, hτ, hagree⟩ := ih
    refine ⟨Function.update τ array (σ array), ?_, ?_⟩
    · refine List.mem_flatMap.mpr ⟨τ, hτ, List.mem_map.mpr ⟨(σ array).toNat, ?_, ?_⟩⟩
      · exact List.mem_range.mpr (σ array).isLt
      · rw [BitVec.ofNat_toNat, BitVec.setWidth_eq]
    · intro other hother
      by_cases hsame : other = array
      · subst hsame
        exact Function.update_self _ _ _
      · rw [Function.update_of_ne hsame]
        exact hagree other ((List.mem_cons.mp hother).resolve_left hsame)

/-- A solver that tries all assignments and simplifies nothing. -/
def Klee.exhaustive : Klee where
  simplifyExpr _ e := e
  addConstraint cs e := e :: cs
  createIsZero e := .binary .Eq e (.constant ⟨e.getWidth, 0#_⟩)
  getInitialValues cs e objects :=
    ((assignments ((e :: cs).flatMap Expr.findSymbolicObjects)).find? fun σ ↦
      (cs.all fun c ↦ decide (c.Holds σ)) && !decide (e.Holds σ)).map fun σ ↦
        objects.map fun array ↦ bytesOf (σ array)

theorem Klee.exhaustive_lawful : Klee.exhaustive.Lawful where
  simplifyExpr_eval _ _ _ _ := rfl
  simplifyExpr_reads _ _ := List.subset_append_left _ _
  addConstraint_holds cs e _ σ := by
    simp only [Klee.exhaustive, AllHold, List.forall_mem_cons]
    exact and_comm
  addConstraint_reads cs e := List.Subset.refl _
  createIsZero_eval e σ := by
    simp only [Klee.exhaustive, Expr.eval, BinOp.eval, BitVec.setWidth_zero, BV.toNat]
    congr 1
    rw [Bool.eq_iff_iff, beq_iff_eq, beq_iff_eq, BitVec.toNat_eq]
    rfl
  createIsZero_reads e := by simp [Klee.exhaustive, Expr.findSymbolicObjects]
  getInitialValues_none cs e objects hnone σ hσ := by
    simp only [Klee.exhaustive, Option.map_eq_none_iff, List.find?_eq_none] at hnone
    obtain ⟨τ, hτ, hagree⟩ := exists_mem_assignments σ ((e :: cs).flatMap Expr.findSymbolicObjects)
    have hreads : ∀ c ∈ e :: cs, (c.Holds τ ↔ c.Holds σ) := fun c hc ↦
      Expr.holds_congr fun array ha ↦ hagree array (List.mem_flatMap.mpr ⟨c, hc, ha⟩)
    have hcs : ∀ c ∈ cs, c.Holds τ := fun c hc ↦
      (hreads c (List.mem_cons_of_mem _ hc)).mpr (hσ c hc)
    rw [← hreads e List.mem_cons_self]
    have hvalid : (∀ c ∈ cs, c.Holds τ) → e.Holds τ := by simpa using hnone τ hτ
    exact hvalid hcs
  getInitialValues_some cs e objects values hsome := by
    obtain ⟨σ, hfind, rfl⟩ := Option.map_eq_some_iff.mp hsome
    have hσ := List.find?_some hfind
    simp only [Bool.and_eq_true, List.all_eq_true, decide_eq_true_eq, Bool.not_eq_true',
      decide_eq_false_iff_not] at hσ
    exact ⟨σ, hσ.1, hσ.2, rfl⟩

/-- A program that compares one byte with a constant. -/
def compareByte : Program where
  inputs := [(.uint8, "x")]
  tree := .node (.binary .Eq (.read ⟨"x", 1⟩) (.constant ⟨8, 7#8⟩)) .leaf .leaf
  nodup := by decide
  width := by decide
  reads := by decide

theorem explorePaths_compareByte :
    ∃ fuel executed, explorePaths .exhaustive compareByte fuel (.init fun _ ↦ 0) = some executed ∧
      executed.Nodup ∧ (∀ path ∈ executed, ∃ σ, compareByte.path σ = path) ∧
      ∀ σ, executed.count (compareByte.path σ) = 1 :=
  explorePaths_exhaustive Klee.exhaustive_lawful compareByte _

end CoverageVP.Clover
