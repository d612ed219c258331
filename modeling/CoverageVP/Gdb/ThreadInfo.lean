import CoverageVP.Gdb.VCont

/-!
# The list of threads

The debugger asks for the threads, which are the harts that have not terminated. The answer separates
their numbers by commas, where a comma follows a number unless it is the one of the last hart. The numbers
are printed with the base 10, but numbers of threads are read with the base 16, as positions of harts.
-/

namespace CoverageVP.Gdb

open Lib

/-! ## The answer -/

/-- A hart with the number that it gives itself. -/
structure Thread where
  hartId : BitVec 64
  status : Status
  deriving DecidableEq, Repr

namespace Thread

variable (t : Thread)

def alive : Bool := t.status ≠ .terminated

theorem alive_iff : t.alive = true ↔ t.status ≠ .terminated :=
  decide_eq_true_iff

/-- The number of the thread as it is printed. -/
def text : List Char := Nat.toDigits 10 (t.hartId + 1#64).toNat

/-- The number of the thread with the base that it is read with. -/
def hexText : List Char := Nat.toDigits 16 (t.hartId.toNat + 1)

end Thread

/-- What is appended for the harts from some position on. -/
def threadList : List Thread → List Char
  | [] => []
  | t :: ts =>
    if t.status = .terminated then threadList ts
    else t.text ++ (if 0 < ts.length then [','] else []) ++ threadList ts

def threadInfo (harts : List Thread) : List Char := 'm' :: threadList harts

/-- A parser of hexadecimal numbers, as far as they are signed words. -/
structure HexParser where
  parse : List Char → Option Int
  parse_digits : ∀ text, text ≠ [] → (∀ c ∈ text, (digitValue c).isSome = true) →
    digitsValue 0 text < 2 ^ 31 → parse text = some (digitsValue 0 text)

/-- A number, or `-1` for all threads. -/
def gdbHexid (hex : HexParser) (text : List Char) : Option Int :=
  (hex.parse text).or (if text = ['-', '1'] then some (-1) else none)

/-- A number of a thread, with a number of a process before it or without. -/
def gdbThreadId (hex : HexParser) : List Char → Option ThreadId
  | 'p' :: text =>
    match text.dropWhile (· ≠ '.') with
    | '.' :: tid => do
      let pid ← gdbHexid hex (text.takeWhile (· ≠ '.'))
      let tid ← gdbHexid hex tid
      return ⟨pid, tid⟩
    | _ => none
  | text => (gdbHexid hex text).map fun tid ↦ ⟨threadUnset, tid⟩

theorem digitValue_digitChar : ∀ d < 16, digitValue (Nat.digitChar d) = some d := by decide

/-- Numbers are printed with hexadecimal digits. -/
theorem exists_digit_of_mem {b n : Nat} (hb : 1 < b) (hle : b ≤ 16) {c : Char}
    (hc : c ∈ Nat.toDigits b n) : ∃ d < 16, c = Nat.digitChar d := by
  induction n using Nat.strongRecOn with
  | ind n ih =>
    rw [Nat.toDigits_eq_if hb] at hc
    split at hc
    case isTrue hlt =>
      rw [List.mem_singleton] at hc
      exact ⟨n, by omega, hc⟩
    case isFalse hge =>
      rcases List.mem_append.mp hc with hc | hc
      · exact ih (n / b) (Nat.div_lt_self (by omega) hb) hc
      · rw [List.mem_singleton] at hc
        exact ⟨n % b, Nat.lt_of_lt_of_le (Nat.mod_lt n (by omega)) hle, hc⟩

theorem isSome_of_mem {b n : Nat} (hb : 1 < b) (hle : b ≤ 16) {c : Char}
    (hc : c ∈ Nat.toDigits b n) : (digitValue c).isSome = true := by
  obtain ⟨d, hd, rfl⟩ := exists_digit_of_mem hb hle hc
  rw [digitValue_digitChar d hd]
  rfl

theorem digitsValue_singleton {d : Nat} (hd : d < 16) (acc : Nat) :
    digitsValue acc [Nat.digitChar d] = 16 * acc + d := by
  rw [digitsValue, digitValue_digitChar d hd]
  rfl

theorem digitsValue_append {xs : List Char} (hxs : ∀ c ∈ xs, (digitValue c).isSome = true)
    {d : Nat} (hd : d < 16) (acc : Nat) :
    digitsValue acc (xs ++ [Nat.digitChar d]) = 16 * digitsValue acc xs + d := by
  induction xs generalizing acc with
  | nil => exact digitsValue_singleton hd acc
  | cons c xs ih =>
    obtain ⟨v, hv⟩ := Option.isSome_iff_exists.mp (hxs c List.mem_cons_self)
    rw [List.cons_append, digitsValue, digitsValue, hv]
    exact ih (fun x hx ↦ hxs x (List.mem_cons_of_mem _ hx)) _

/-- A number is read as it is printed with the base 16. -/
theorem digitsValue_hex (n : Nat) : digitsValue 0 (Nat.toDigits 16 n) = n := by
  induction n using Nat.strongRecOn with
  | ind n ih =>
    rcases Nat.lt_or_ge n 16 with hlt | hge
    · rw [Nat.toDigits_of_lt_base hlt, digitsValue_singleton hlt]
      exact Nat.zero_add n
    · rw [Nat.toDigits_of_base_le (by decide) hge,
        digitsValue_append (fun c hc ↦ isSome_of_mem (by decide) (by decide) hc)
          (Nat.mod_lt n (by decide)), ih (n / 16) (Nat.div_lt_self (by omega) (by decide))]
      exact Nat.div_add_mod n 16

/-- A number with several digits is read as a larger one if it is printed with the base 10. -/
theorem digitsValue_decimal (n : Nat) : n ≤ digitsValue 0 (Nat.toDigits 10 n) ∧
    (10 ≤ n → n < digitsValue 0 (Nat.toDigits 10 n)) := by
  induction n using Nat.strongRecOn with
  | ind n ih =>
    rcases Nat.lt_or_ge n 10 with hlt | hge
    · have hvalue : digitsValue 0 (Nat.toDigits 10 n) = n := by
        rw [Nat.toDigits_of_lt_base hlt, digitsValue_singleton (by omega)]
        exact Nat.zero_add n
      rw [hvalue]
      exact ⟨le_rfl, fun hge ↦ absurd hlt (Nat.not_lt.mpr hge)⟩
    · have hrest := (ih (n / 10) (Nat.div_lt_self (by omega) (by decide))).1
      have hvalue : digitsValue 0 (Nat.toDigits 10 n) =
          16 * digitsValue 0 (Nat.toDigits 10 (n / 10)) + n % 10 := by
        rw [Nat.toDigits_of_base_le (by decide) hge]
        exact digitsValue_append (fun c hc ↦ isSome_of_mem (by decide) (by decide) hc)
          (Nat.lt_trans (Nat.mod_lt n (by decide)) (by decide)) 0
      rw [hvalue]
      omega

theorem text_eq_hexText_iff (t : Thread) : t.text = t.hexText ↔ t.hartId.toNat + 1 < 10 := by
  have hlt := t.hartId.isLt
  have hsucc : (t.hartId + 1#64).toNat = (t.hartId.toNat + 1) % 2 ^ 64 := BitVec.toNat_add _ _
  unfold Thread.text Thread.hexText
  constructor
  · intro h
    have hvalue := congrArg (digitsValue 0) h
    rw [digitsValue_hex] at hvalue
    obtain ⟨-, hlarge⟩ := digitsValue_decimal (t.hartId + 1#64).toNat
    rcases Nat.lt_or_ge (t.hartId + 1#64).toNat 10 with hsmall | hge
    · rw [Nat.toDigits_of_lt_base hsmall,
        digitsValue_singleton (Nat.lt_trans hsmall (by decide))] at hvalue
      omega
    · have hgt := hlarge hge
      rw [hvalue] at hgt
      omega
  · intro hsmall
    have hnat : (t.hartId + 1#64).toNat = t.hartId.toNat + 1 := by omega
    rw [hnat, Nat.toDigits_of_lt_base hsmall, Nat.toDigits_of_lt_base (by omega)]

/-! ## Elements -/

/-- The texts between the commas. -/
def elements : List Thread → List (List Char)
  | [] => []
  | t :: ts =>
    if t.status = .terminated then elements ts
    else t.text :: if ts = [] then [] else if elements ts = [] then [[]] else elements ts

theorem threadList_eq (harts : List Thread) : threadList harts = [','].intercalate (elements harts) := by
  induction harts with
  | nil => rfl
  | cons t ts ih =>
    rw [threadList, elements]
    split
    case isTrue => exact ih
    case isFalse =>
      by_cases hts : ts = []
      · subst hts
        simp [threadList]
      · rw [if_neg hts, if_pos (List.length_pos_iff.mpr hts), ih]
        by_cases helements : elements ts = []
        · rw [if_pos helements, helements]
          simp
        · rw [if_neg helements, List.intercalate_cons_of_ne_nil helements]

theorem elements_eq_nil_iff {harts : List Thread} :
    elements harts = [] ↔ harts.filter Thread.alive = [] := by
  induction harts with
  | nil => exact iff_of_true rfl rfl
  | cons t ts ih =>
    rw [elements]
    split
    case isTrue h =>
      have hdead : ¬ t.alive = true := fun halive ↦ t.alive_iff.mp halive h
      rw [ih, List.filter_cons_of_neg hdead]
    case isFalse h =>
      have halive : t.alive = true := t.alive_iff.mpr h
      rw [List.filter_cons_of_pos halive]
      exact iff_of_false (List.cons_ne_nil _ _) (List.cons_ne_nil _ _)

/-- No hart is alive, or the last one is. -/
def EndsAlive (harts : List Thread) : Prop :=
  harts.filter Thread.alive = [] ∨ ∀ t ∈ harts.getLast?, t.alive = true

theorem endsAlive_of_cons {t : Thread} {ts : List Thread} (h : EndsAlive (t :: ts)) : EndsAlive ts := by
  cases ts with
  | nil => exact .inl rfl
  | cons u us =>
    rcases h with h | h
    · left
      by_cases halive : t.alive = true
      · rw [List.filter_cons_of_pos halive] at h
        cases h
      · rwa [List.filter_cons_of_neg halive] at h
    · right
      rwa [List.getLast?_cons_cons] at h

theorem filter_ne_nil_of_last {ts : List Thread} (hts : ts ≠ [])
    (h : ∀ t ∈ ts.getLast?, t.alive = true) : ts.filter Thread.alive ≠ [] := by
  have hlast := List.getLast?_eq_some_getLast hts
  exact List.ne_nil_of_mem
    (List.mem_filter.mpr ⟨List.getLast_mem hts, h _ hlast⟩)

/-- The numbers of the threads are separated. -/
theorem elements_of_endsAlive {harts : List Thread} (h : EndsAlive harts) :
    elements harts = (harts.filter Thread.alive).map Thread.text := by
  induction harts with
  | nil => rfl
  | cons t ts ih =>
    have hrest := ih (endsAlive_of_cons h)
    rw [elements]
    split
    case isTrue hstatus =>
      have hdead : ¬ t.alive = true := fun halive ↦ t.alive_iff.mp halive hstatus
      rw [List.filter_cons_of_neg hdead]
      exact hrest
    case isFalse hstatus =>
      have halive : t.alive = true := t.alive_iff.mpr hstatus
      rw [List.filter_cons_of_pos halive]
      cases ts with
      | nil => rfl
      | cons u us =>
        rcases h with h | h
        · rw [List.filter_cons_of_pos halive] at h
          cases h
        · rw [List.getLast?_cons_cons] at h
          have hne : elements (u :: us) ≠ [] := fun hnil ↦
            filter_ne_nil_of_last (List.cons_ne_nil u us) h (elements_eq_nil_iff.mp hnil)
          rw [if_neg (List.cons_ne_nil u us), if_neg hne, hrest]
          rfl

/-- A comma is behind the last number. -/
theorem elements_of_not_endsAlive {harts : List Thread} (h : ¬ EndsAlive harts) :
    elements harts = (harts.filter Thread.alive).map Thread.text ++ [[]] := by
  induction harts with
  | nil => exact absurd (.inl rfl) h
  | cons t ts ih =>
    have hts : ts ≠ [] := by
      rintro rfl
      by_cases halive : t.alive = true
      · exact h (.inr fun u hu ↦ by cases hu; exact halive)
      · exact h (.inl (List.filter_cons_of_neg halive))
    obtain ⟨u, us, rfl⟩ := List.exists_cons_of_ne_nil hts
    have hlast : ¬ ∀ t ∈ (u :: us).getLast?, t.alive = true := by
      intro hall
      refine h (.inr ?_)
      rwa [List.getLast?_cons_cons]
    rw [elements]
    split
    case isTrue hstatus =>
      have hdead : ¬ t.alive = true := fun halive ↦ t.alive_iff.mp halive hstatus
      rw [List.filter_cons_of_neg hdead]
      refine ih fun hends ↦ h ?_
      rcases hends with hends | hends
      · exact .inl ((List.filter_cons_of_neg hdead).trans hends)
      · exact absurd hends hlast
    case isFalse hstatus =>
      have halive : t.alive = true := t.alive_iff.mpr hstatus
      rw [List.filter_cons_of_pos halive]
      by_cases hnil : elements (u :: us) = []
      · rw [if_pos hnil, elements_eq_nil_iff.mp hnil]
        rfl
      · rw [if_neg hnil, ih fun hends ↦ hends.elim (fun h ↦ hnil (elements_eq_nil_iff.mpr h)) hlast]
        rfl

theorem comma_not_mem {b n : Nat} (hb : 1 < b) (hle : b ≤ 16) : ',' ∉ Nat.toDigits b n := by
  intro hc
  exact absurd (isSome_of_mem hb hle hc) (by decide)

/-- Lists with the same text between commas are equal. -/
theorem eq_of_intercalate_eq {xs ys : List (List Char)} (hxs : ∀ x ∈ xs, ',' ∉ x)
    (hys : ∀ y ∈ ys, ',' ∉ y) (hx : xs ≠ []) (hy : ys ≠ [])
    (h : [','].intercalate xs = [','].intercalate ys) : xs = ys := by
  calc xs = ([','].intercalate xs).splitOn ',' := (List.splitOn_intercalate ',' hxs hx).symm
    _ = ([','].intercalate ys).splitOn ',' := by rw [h]
    _ = ys := List.splitOn_intercalate ',' hys hy

/-- The answer has the numbers of the threads with the base 16 if and only if these have one decimal
digit and the last hart is alive. -/
theorem threadInfo_eq_iff (harts : List Thread) :
    threadInfo harts = 'm' :: [','].intercalate ((harts.filter Thread.alive).map Thread.hexText) ↔
      EndsAlive harts ∧ ∀ t ∈ harts, t.alive = true → t.hartId.toNat + 1 < 10 := by
  have hmap : (harts.filter Thread.alive).map Thread.text =
      (harts.filter Thread.alive).map Thread.hexText ↔
      ∀ t ∈ harts, t.alive = true → t.hartId.toNat + 1 < 10 := by
    rw [List.map_inj_left]
    simp only [List.mem_filter, and_imp, text_eq_hexText_iff]
  rw [threadInfo, List.cons.injEq, threadList_eq, ← hmap]
  constructor
  · rintro ⟨-, h⟩
    by_cases hnone : harts.filter Thread.alive = []
    · rw [hnone]
      exact ⟨.inl hnone, rfl⟩
    have helements : ∀ x ∈ elements harts, ',' ∉ x := by
      intro x hx
      have hmem : x ∈ (harts.filter Thread.alive).map Thread.text ++ [[]] := by
        by_cases hends : EndsAlive harts
        · rw [elements_of_endsAlive hends] at hx
          exact List.mem_append_left _ hx
        · rwa [elements_of_not_endsAlive hends] at hx
      rcases List.mem_append.mp hmem with hmem | hmem
      · obtain ⟨t, -, rfl⟩ := List.mem_map.mp hmem
        exact comma_not_mem (by decide) (by decide)
      · rw [List.mem_singleton.mp hmem]
        exact List.not_mem_nil
    have heq : elements harts = (harts.filter Thread.alive).map Thread.hexText := by
      refine eq_of_intercalate_eq helements (fun y hy ↦ ?_)
        (fun hnil ↦ hnone (elements_eq_nil_iff.mp hnil)) (fun hnil ↦ hnone (List.map_eq_nil_iff.mp hnil)) h
      obtain ⟨t, -, rfl⟩ := List.mem_map.mp hy
      exact comma_not_mem (by decide) (by decide)
    have hends : EndsAlive harts := by
      by_contra hends
      have hlength := congrArg List.length heq
      rw [elements_of_not_endsAlive hends, List.length_append, List.length_map, List.length_map] at hlength
      exact absurd hlength (by simp)
    rw [elements_of_endsAlive hends] at heq
    exact ⟨hends, heq⟩
  · rintro ⟨hends, heq⟩
    rw [elements_of_endsAlive hends, heq]
    exact ⟨rfl, rfl⟩

/-! ## The threads -/

theorem gdbThreadId_hexText (hex : HexParser) {t : Thread} (h : t.hartId.toNat + 1 < 10) :
    gdbThreadId hex t.hexText = some ⟨threadUnset, t.hartId.toNat + 1⟩ := by
  have hdigits : ∀ c ∈ t.hexText, (digitValue c).isSome = true :=
    fun c hc ↦ isSome_of_mem (by decide) (by decide) hc
  have hvalue : digitsValue 0 t.hexText = t.hartId.toNat + 1 := digitsValue_hex _
  have hparse : hex.parse t.hexText = some (t.hartId.toNat + 1 : Int) := by
    have hparse := hex.parse_digits t.hexText Nat.toDigits_ne_nil hdigits (by omega)
    rw [hvalue] at hparse
    exact hparse
  have hid : gdbHexid hex t.hexText = some (t.hartId.toNat + 1 : Int) := by
    rw [gdbHexid, hparse]
    rfl
  unfold gdbThreadId
  split
  case h_1 text heq =>
    have hp := hdigits 'p' (by rw [heq]; exact List.mem_cons_self)
    exact absurd hp (by decide)
  case h_2 =>
    rw [hid]
    rfl

theorem threadsOf_eq_iff {count i n : Nat} (hi : i < count) :
    threadsOf count ((n : Int) + 1) = some [i] ↔ n = i := by
  have hany : ((n : Int) + 1) ≠ threadAny := by
    unfold threadAny
    omega
  have hall : ((n : Int) + 1) ≠ threadAll := by
    unfold threadAll
    omega
  have hnat : ((n : Int) + 1 - 1).toNat = n := by omega
  simp only [threadsOf, if_neg hany, if_neg hall, hnat]
  rw [if_neg (by omega)]
  constructor
  · intro h
    split at h
    case isTrue =>
      cases h
      rfl
    case isFalse => cases h
  · rintro rfl
    exact if_pos hi

/-- The answer has the numbers of exactly the harts that have not terminated, with the base 16 and
separated by commas, and each of them is read as the number of its hart. -/
def Listed (hex : HexParser) (harts : List Thread) : Prop :=
  threadInfo harts = 'm' :: [','].intercalate ((harts.filter Thread.alive).map Thread.hexText) ∧
    ∀ i (hi : i < harts.length), harts[i].alive = true →
      ∃ id, gdbThreadId hex harts[i].hexText = some id ∧ threadsOf harts.length id.tid = some [i]

/-- The last hart is alive unless none is, and those that are alive are among the first nine and are
numbered by their positions. -/
structure Numbered (harts : List Thread) : Prop where
  ends : EndsAlive harts
  positions : ∀ i (hi : i < harts.length), harts[i].alive = true → harts[i].hartId.toNat = i ∧ i < 9

/-- The list of threads is right if and only if the harts are numbered. -/
theorem listed_iff_numbered (hex : HexParser) (harts : List Thread) :
    Listed hex harts ↔ Numbered harts := by
  unfold Listed
  rw [threadInfo_eq_iff]
  constructor
  · rintro ⟨⟨hends, hsmall⟩, hthreads⟩
    refine ⟨hends, fun i hi halive ↦ ?_⟩
    have hlt := hsmall _ (List.getElem_mem hi) halive
    obtain ⟨id, hid, hpos⟩ := hthreads i hi halive
    cases (gdbThreadId_hexText hex hlt).symm.trans hid
    have hnat := (threadsOf_eq_iff hi).mp hpos
    omega
  · rintro ⟨hends, hpositions⟩
    have hsmall : ∀ i (hi : i < harts.length), harts[i].alive = true →
        harts[i].hartId.toNat + 1 < 10 := by
      intro i hi halive
      obtain ⟨hid, hlt⟩ := hpositions i hi halive
      omega
    refine ⟨⟨hends, fun t ht halive ↦ ?_⟩, fun i hi halive ↦ ?_⟩
    · obtain ⟨i, hi, rfl⟩ := List.getElem_of_mem ht
      exact hsmall i hi halive
    · exact ⟨_, gdbThreadId_hexText hex (hsmall i hi halive),
        (threadsOf_eq_iff hi).mpr (hpositions i hi halive).1⟩

/-- The parser that reads all digits. -/
def digitsParser : HexParser where
  parse text := if text ≠ [] ∧ text.all (fun c ↦ (digitValue c).isSome) = true then
    some (digitsValue 0 text) else none
  parse_digits := fun _ hne hdigits _ ↦ if_pos ⟨hne, List.all_eq_true.mpr hdigits⟩

/-- A comma is behind the only thread, and the tenth thread is printed as `10`. -/
theorem not_listed :
    ¬ Listed digitsParser [⟨0#64, .runnable⟩, ⟨1#64, .terminated⟩] ∧
      ¬ Listed digitsParser [⟨9#64, .runnable⟩] := by
  constructor
  · rintro ⟨h, -⟩
    exact absurd h (by decide)
  · rintro ⟨h, -⟩
    exact absurd h (by decide)

end CoverageVP.Gdb
