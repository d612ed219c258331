import CoverageVP.Clover.Context
import CoverageVP.Lib.Regex
import Mathlib.Data.List.TakeWhile

/-!
# Test cases in files

A test case is written with one line for each input: its name, the type of its value, and the value
in decimal, separated by tabs. Lines are read with a regular expression that is searched for in the
line. The name may contain tabs and even look like the rest of a line; the expression takes as much
as possible for the name.
-/

namespace CoverageVP.Clover

open Lib

namespace TestCase

/-! ## Lines -/

structure ParserError where
  fileName : String
  line : Nat
  msg : String
  deriving DecidableEq, Repr

def typeName : IntType → List Char
  | .uint8 => ['u', 'i', 'n', 't', '8', '_', 't']
  | .uint32 => ['u', 'i', 'n', 't', '3', '2', '_', 't']

/-- The characters that `.` stands for. -/
def anyChar (c : Char) : Bool := c ≠ '\n' && c ≠ '\r'

theorem anyChar_iff {c : Char} : anyChar c = true ↔ c ≠ '\n' ∧ c ≠ '\r' := by
  rw [anyChar, Bool.and_eq_true, decide_eq_true_eq, decide_eq_true_eq]

/-- The expression `(..*)`. -/
def nameRegex : Regex Char := .group (.seq (.one anyChar) (.many anyChar))

/-- The expression `(uint8_t|uint32_t)`. -/
def typeRegex : Regex Char :=
  .group (.alt (.text 'u' ['i', 'n', 't', '8', '_', 't'])
    (.text 'u' ['i', 'n', 't', '3', '2', '_', 't']))

/-- The expression `([0-9][0-9]*)`. -/
def digitsRegex : Regex Char := .group (.seq (.one Char.isDigit) (.many Char.isDigit))

/-- The expression for the type and the value, each after a tab. -/
def valueRegex : Regex Char :=
  .seq (.one (· = '\t')) (.seq typeRegex (.seq (.one (· = '\t')) digitsRegex))

def assignRegex : Regex Char := .seq nameRegex valueRegex

/-- The conversion `%u` of `sscanf` for a text that starts with a digit: a number that is too large
for 64 bits is read as the largest one. -/
def scanUnsigned (input : List Char) : Option Nat :=
  match input.takeWhile Char.isDigit with
  | [] => none
  | digits => some (min (Nat.ofDigitChars 10 digits 0) (2 ^ 64 - 1))

/-- The number is cut to the type. -/
def parseIntVal (type : IntType) (input : List Char) : Option IntValue :=
  (scanUnsigned input).map type.cast

def parseAssignType (type : List Char) : Option IntType :=
  if type = typeName .uint8 then some .uint8
  else if type = typeName .uint32 then some .uint32
  else none

def parseAssign (assign : List Char) : Option (String × IntValue) :=
  match assignRegex.search assign with
  | some ⟨[name, type, digits], _⟩ => do
    let type ← parseAssignType type
    let ival ← parseIntVal type digits
    return (String.ofList name, ival)
  | _ => none

/-- The lines of a text, the last one without an end of line if it is not empty. -/
def getLines : List Char → List (List Char)
  | [] => []
  | c :: text =>
    if c = '\n' then [] :: getLines text
    else
      match getLines text with
      | [] => [[c]]
      | line :: lines => (c :: line) :: lines

def readLines (name : String) : Nat → ConcreteStore → List (List Char) →
    Except ParserError ConcreteStore
  | _, assigns, [] => .ok assigns
  | lineNum, assigns, line :: lines =>
    match parseAssign line with
    | none => .error ⟨name, lineNum, "invalid assignment"⟩
    | some (var, value) => readLines name (lineNum + 1) (assigns.insert var value) lines

def fromFile (name : String) (text : List Char) : Except ParserError ConcreteStore :=
  readLines name 1 ∅ (getLines text)

/-- The line for an input. -/
def assignLine (name : String) (value : IntValue) : List Char :=
  name.toList ++ '\t' :: (typeName value.type ++ '\t' :: Nat.toDigits 10 value.intToUint)

/-- Lines with their ends. -/
def unlines (lines : List (List Char)) : List Char := lines.flatMap (· ++ ['\n'])

def toFile (store : ConcreteStore) : List Char :=
  unlines (store.toList.map fun assign ↦ assignLine assign.1 assign.2)

theorem allMatches_typeRegex_append (type : IntType) (ys : List Char) :
    typeRegex.allMatches (typeName type ++ ys) = [⟨[typeName type], ys⟩] := by
  rw [typeRegex, Regex.allMatches, Regex.allMatches]
  cases type with
  | uint8 =>
    have hother : ¬ 'u' :: ['i', 'n', 't', '3', '2', '_', 't'] <+: typeName .uint8 ++ ys := by
      simp [typeName, List.cons_prefix_cons]
    have hmatch : (Regex.text 'u' ['i', 'n', 't', '8', '_', 't']).allMatches
        (typeName .uint8 ++ ys) = [⟨[], ys⟩] :=
      Regex.allMatches_text_append _ _ ys
    rw [Regex.allMatches_text_of_not_isPrefix hother, hmatch, List.append_nil, List.map_singleton,
      Regex.Match.grouped_append]
  | uint32 =>
    have hother : ¬ 'u' :: ['i', 'n', 't', '8', '_', 't'] <+: typeName .uint32 ++ ys := by
      simp [typeName, List.cons_prefix_cons]
    have hmatch : (Regex.text 'u' ['i', 'n', 't', '3', '2', '_', 't']).allMatches
        (typeName .uint32 ++ ys) = [⟨[], ys⟩] :=
      Regex.allMatches_text_append _ _ ys
    rw [Regex.allMatches_text_of_not_isPrefix hother, hmatch, List.nil_append, List.map_singleton,
      Regex.Match.grouped_append]

theorem allMatches_typeRegex_of_ne {xs : List Char} (h : ∀ type ys, xs ≠ typeName type ++ ys) :
    typeRegex.allMatches xs = [] := by
  have hbegins : ∀ type, ¬ typeName type <+: xs := by
    rintro type ⟨ys, rfl⟩
    exact h type ys rfl
  rw [typeRegex, Regex.allMatches, Regex.allMatches,
    Regex.allMatches_text_of_not_isPrefix (hbegins .uint8),
    Regex.allMatches_text_of_not_isPrefix (hbegins .uint32)]
  rfl

/-- The type is fixed by the text. -/
theorem first_typeRegex_seq (s : Regex Char) (type : IntType) (ys : List Char) :
    (Regex.seq typeRegex s).first (typeName type ++ ys) =
      (s.first ys).map (·.after ⟨[typeName type], ys⟩) := by
  rw [Regex.first_seq, allMatches_typeRegex_append, List.findSome?_singleton]

theorem first_digitsRegex_cons (d : Char) (xs : List Char) :
    digitsRegex.first (d :: xs) =
      if d.isDigit then some ⟨[d :: xs.takeWhile Char.isDigit], xs.dropWhile Char.isDigit⟩
      else none := by
  rw [digitsRegex, Regex.first_group, Regex.first_seq_one_cons, Regex.first_many]
  split
  · have hsplit : d :: xs = (d :: xs.takeWhile Char.isDigit) ++ xs.dropWhile Char.isDigit := by
      rw [List.cons_append, List.takeWhile_append_dropWhile]
    rw [Option.map_some]
    conv_lhs => rw [hsplit]
    rw [Regex.Match.grouped_append]
  · rfl

/-- The rest of a line after the name. -/
def valueText (type : IntType) (digits : List Char) : List Char :=
  '\t' :: (typeName type ++ '\t' :: digits)

theorem first_valueRegex_cons (type : IntType) {d : Char} (hd : d.isDigit = true)
    (xs : List Char) :
    valueRegex.first (valueText type (d :: xs)) =
      some ⟨[typeName type, d :: xs.takeWhile Char.isDigit], xs.dropWhile Char.isDigit⟩ := by
  rw [valueRegex, valueText, Regex.first_seq_one_cons, if_pos (decide_eq_true rfl),
    first_typeRegex_seq, Regex.first_seq_one_cons, if_pos (decide_eq_true rfl),
    first_digitsRegex_cons, if_pos hd]
  rfl

/-- A match of the rest of a line. -/
theorem exists_of_first_valueRegex {xs : List Char} {m : Regex.Match Char}
    (h : valueRegex.first xs = some m) :
    ∃ type d ys, d.isDigit = true ∧ xs = valueText type (d :: ys) ∧
      m = ⟨[typeName type, d :: ys.takeWhile Char.isDigit], ys.dropWhile Char.isDigit⟩ := by
  suffices hxs : ∃ type d ys, d.isDigit = true ∧ xs = valueText type (d :: ys) by
    obtain ⟨type, d, ys, hd, rfl⟩ := hxs
    rw [first_valueRegex_cons type hd] at h
    exact ⟨type, d, ys, hd, rfl, (Option.some.inj h).symm⟩
  cases xs with
  | nil => cases h
  | cons c xs =>
    rw [valueRegex, Regex.first_seq_one_cons] at h
    split at h
    case isFalse => cases h
    case isTrue hc =>
      obtain rfl := of_decide_eq_true hc
      by_cases htype : ∃ type ys, xs = typeName type ++ ys
      · obtain ⟨type, ys, rfl⟩ := htype
        rw [first_typeRegex_seq] at h
        obtain ⟨m', hm', -⟩ := Option.map_eq_some_iff.mp h
        cases ys with
        | nil => cases hm'
        | cons c ys =>
          rw [Regex.first_seq_one_cons] at hm'
          split at hm'
          case isFalse => cases hm'
          case isTrue hc =>
            obtain rfl := of_decide_eq_true hc
            cases ys with
            | nil => cases hm'
            | cons d ys =>
              rw [first_digitsRegex_cons] at hm'
              split at hm'
              case isFalse => cases hm'
              case isTrue hd => exact ⟨type, d, ys, hd, rfl⟩
      · have hempty : typeRegex.allMatches xs = [] :=
          allMatches_typeRegex_of_ne fun type ys hxs ↦ htype ⟨type, ys, hxs⟩
        rw [Regex.first_seq, hempty] at h
        cases h

/-! ## The name of a line -/

theorem first_assignRegex_cons (c : Char) (xs : List Char) :
    assignRegex.first (c :: xs) =
      if anyChar c then
        (Regex.runs anyChar xs).findSome? fun rest ↦ (valueRegex.first rest).map
          (·.after (Regex.Match.grouped (c :: xs) ⟨[], rest⟩))
      else none := by
  rw [assignRegex, Regex.first_seq, nameRegex, Regex.allMatches, Regex.allMatches,
    Regex.allMatches]
  split
  · rw [List.flatMap_singleton, Regex.allMatches, List.map_map, List.map_map, List.findSome?_map]
    rfl
  · rfl

/-- The longest name that a value follows is taken. -/
theorem search_assignRegex {name ys : List Char} {m : Regex.Match Char} (hne : name ≠ [])
    (hname : ∀ c ∈ name, anyChar c = true) (hvalue : valueRegex.first ys = some m)
    (hlongest : ∀ pre ys', ys = pre ++ ys' → pre ≠ [] → valueRegex.first ys' = none) :
    assignRegex.search (name ++ ys) = some ⟨name :: m.groups, m.rest⟩ := by
  refine Regex.search_of_first ?_
  cases name with
  | nil => exact absurd rfl hne
  | cons c name =>
    rw [List.cons_append, first_assignRegex_cons, if_pos (hname c List.mem_cons_self)]
    refine Regex.findSome?_runs (fun x hx ↦ hname x (List.mem_cons_of_mem c hx)) ?_ ?_
    · rw [hvalue, ← List.cons_append, Regex.Match.grouped_append]
      rfl
    · intro pre ys' hys hpre _
      rw [hlongest pre ys' hys hpre]
      rfl

/-- What is found. -/
theorem exists_of_search_assignRegex {line : List Char} {m : Regex.Match Char}
    (h : assignRegex.search line = some m) :
    ∃ pre name type d ys, name ≠ [] ∧ (∀ c ∈ name, anyChar c = true) ∧ d.isDigit = true ∧
      line = pre ++ (name ++ valueText type (d :: ys)) ∧
      m = ⟨[name, typeName type, d :: ys.takeWhile Char.isDigit], ys.dropWhile Char.isDigit⟩ := by
  obtain ⟨pre, xs, rfl, hfirst⟩ := Regex.exists_first_of_search h
  cases xs with
  | nil => cases hfirst
  | cons c xs =>
    rw [first_assignRegex_cons] at hfirst
    split at hfirst
    case isFalse => cases hfirst
    case isTrue hc =>
      obtain ⟨rest, hrest, hm⟩ := List.exists_of_findSome?_eq_some hfirst
      obtain ⟨name, rfl, hname⟩ := Regex.mem_runs.mp hrest
      obtain ⟨m', hm', rfl⟩ := Option.map_eq_some_iff.mp hm
      obtain ⟨type, d, ys, hd, rfl, rfl⟩ := exists_of_first_valueRegex hm'
      refine ⟨pre, c :: name, type, d, ys, List.cons_ne_nil _ _,
        List.forall_mem_cons.mpr ⟨hc, hname⟩, hd, rfl, ?_⟩
      rw [← List.cons_append, Regex.Match.grouped_append]
      rfl

/-- Somewhere in the line stand the last character of a name and the start of a value. -/
def ContainsAssign (line : List Char) : Prop :=
  ∃ pre c type d ys, anyChar c = true ∧ d.isDigit = true ∧
    line = pre ++ c :: valueText type (d :: ys)

theorem search_assignRegex_eq_none_iff {line : List Char} :
    assignRegex.search line = none ↔ ¬ ContainsAssign line := by
  constructor
  · rintro h ⟨pre, c, type, d, ys, hc, hd, rfl⟩
    have hfirst := Regex.search_eq_none_iff.mp h pre _ rfl
    rw [first_assignRegex_cons, if_pos hc, List.findSome?_eq_none_iff] at hfirst
    have hvalue := hfirst (valueText type (d :: ys)) (Regex.mem_runs.mpr ⟨[], rfl, nofun⟩)
    rw [first_valueRegex_cons type hd] at hvalue
    cases hvalue
  · intro h
    cases hsearch : assignRegex.search line with
    | none => rfl
    | some m =>
      obtain ⟨pre, name, type, d, ys, hne, hname, hd, rfl, -⟩ :=
        exists_of_search_assignRegex hsearch
      obtain ⟨name', c, rfl⟩ := (List.eq_nil_or_concat' name).resolve_left hne
      refine absurd ⟨pre ++ name', c, type, d, ys, hname c (by simp), hd, ?_⟩ h
      rw [List.append_assoc, List.append_assoc, List.singleton_append]

theorem parseAssignType_typeName (type : IntType) :
    parseAssignType (typeName type) = some type := by
  cases type <;> decide

theorem parseIntVal_of_isDigit (type : IntType) {digits : List Char} (hne : digits ≠ [])
    (hdigits : ∀ c ∈ digits, c.isDigit = true) :
    parseIntVal type digits =
      some (type.cast (min (Nat.ofDigitChars 10 digits 0) (2 ^ 64 - 1))) := by
  have htake : digits.takeWhile Char.isDigit = digits := List.takeWhile_eq_self_iff.mpr hdigits
  rw [parseIntVal, scanUnsigned, htake]
  cases digits with
  | nil => exact absurd rfl hne
  | cons d digits => rfl

/-- A search that finds something gives an assignment. -/
theorem parseAssign_of_search {line name digits rest : List Char} {type : IntType}
    (h : assignRegex.search line = some ⟨[name, typeName type, digits], rest⟩)
    (hne : digits ≠ []) (hdigits : ∀ c ∈ digits, c.isDigit = true) :
    parseAssign line = some (String.ofList name,
      type.cast (min (Nat.ofDigitChars 10 digits 0) (2 ^ 64 - 1))) := by
  rw [parseAssign, h]
  dsimp only
  rw [parseAssignType_typeName, Option.bind_eq_bind, Option.bind_some,
    parseIntVal_of_isDigit type hne hdigits]
  rfl

theorem forall_isDigit_cons_takeWhile {d : Char} (hd : d.isDigit = true) (ys : List Char) :
    ∀ c ∈ d :: ys.takeWhile Char.isDigit, c.isDigit = true :=
  List.forall_mem_cons.mpr ⟨hd, fun _ hc ↦ List.mem_takeWhile_imp hc⟩

/-- A line is accepted if an assignment stands somewhere in it. -/
theorem parseAssign_eq_none_iff {line : List Char} :
    parseAssign line = none ↔ ¬ ContainsAssign line := by
  rw [← search_assignRegex_eq_none_iff]
  cases hsearch : assignRegex.search line with
  | none =>
    rw [parseAssign, hsearch]
    exact iff_of_true rfl rfl
  | some m =>
    obtain ⟨pre, name, type, d, ys, -, -, hd, -, rfl⟩ := exists_of_search_assignRegex hsearch
    rw [parseAssign_of_search hsearch (List.cons_ne_nil _ _) (forall_isDigit_cons_takeWhile hd ys)]
    exact iff_of_false (Option.some_ne_none _) (Option.some_ne_none _)

/-- A name that is read has no ends of lines. -/
theorem anyChar_of_parseAssign {line : List Char} {name : String} {value : IntValue}
    (h : parseAssign line = some (name, value)) : ∀ c ∈ name.toList, anyChar c = true := by
  cases hsearch : assignRegex.search line with
  | none =>
    rw [parseAssign, hsearch] at h
    cases h
  | some m =>
    obtain ⟨pre, name', type, d, ys, -, hname, hd, -, rfl⟩ := exists_of_search_assignRegex hsearch
    rw [parseAssign_of_search hsearch (List.cons_ne_nil _ _)
      (forall_isDigit_cons_takeWhile hd ys)] at h
    cases h
    rw [String.toList_ofList]
    exact hname

/-- The whole line is a name, a type and a number of the type, separated by tabs. -/
def IsAssignment (line : List Char) (name : String) (value : IntValue) : Prop :=
  name ≠ "" ∧ ∃ digits, digits ≠ [] ∧ (∀ c ∈ digits, c.isDigit = true) ∧
    line = name.toList ++ valueText value.type digits ∧
    Nat.ofDigitChars 10 digits 0 = value.intToUint

theorem isAssignment_assignLine {name : String} (h : name ≠ "") (value : IntValue) :
    IsAssignment (assignLine name value) name value :=
  ⟨h, Nat.toDigits 10 value.intToUint, Nat.toDigits_ne_nil,
    fun _ hc ↦ Nat.isDigit_of_mem_toDigits (by decide) (by decide) hc, rfl,
    Nat.ofDigitChars_ten_toDigits⟩

theorem cast_intToUint (value : IntValue) :
    value.type.cast (min value.intToUint (2 ^ 64 - 1)) = value := by
  cases value with
  | uint8 v =>
    have hv := v.isLt
    have hmin : min v.toNat (2 ^ 64 - 1) = v.toNat := by omega
    change IntValue.uint8 (BitVec.ofNat 8 (min v.toNat (2 ^ 64 - 1))) = _
    rw [hmin, BitVec.ofNat_toNat, BitVec.setWidth_eq]
  | uint32 v =>
    have hv := v.isLt
    have hmin : min v.toNat (2 ^ 64 - 1) = v.toNat := by omega
    change IntValue.uint32 (BitVec.ofNat 32 (min v.toNat (2 ^ 64 - 1))) = _
    rw [hmin, BitVec.ofNat_toNat, BitVec.setWidth_eq]

theorem tab_not_mem_typeName (type : IntType) : '\t' ∉ typeName type := by
  cases type <;> decide

theorem tab_not_mem_digits {digits : List Char} (h : ∀ c ∈ digits, c.isDigit = true) :
    '\t' ∉ digits :=
  fun htab ↦ absurd (h _ htab) (by decide)

/-- No value starts inside of a value: there are not enough tabs. -/
theorem first_valueRegex_of_append {type : IntType} {digits pre ys : List Char}
    (hdigits : ∀ c ∈ digits, c.isDigit = true) (h : valueText type digits = pre ++ ys)
    (hpre : pre ≠ []) : valueRegex.first ys = none := by
  cases hfirst : valueRegex.first ys with
  | none => rfl
  | some m =>
    obtain ⟨type', d, zs, -, rfl, -⟩ := exists_of_first_valueRegex hfirst
    obtain ⟨c, pre, rfl⟩ := List.exists_cons_of_ne_nil hpre
    rw [valueText, List.cons_append] at h
    obtain ⟨-, htail⟩ := List.cons_eq_cons.mp h
    have hcount := congrArg (List.count '\t') htail
    rw [List.count_append, List.count_cons_self, List.count_append, valueText,
      List.count_cons_self, List.count_append, List.count_cons_self,
      List.count_eq_zero.mpr (tab_not_mem_typeName type),
      List.count_eq_zero.mpr (tab_not_mem_digits hdigits)] at hcount
    omega

/-- Lines of the grammar are read, if `.` stands for all their characters. -/
theorem parseAssign_of_isAssignment {line : List Char} {name : String} {value : IntValue}
    (h : IsAssignment line name value) (hline : ∀ c ∈ line, anyChar c = true) :
    parseAssign line = some (name, value) := by
  obtain ⟨hname, digits, hne, hdigits, rfl, hvalue⟩ := h
  obtain ⟨d, ds, rfl⟩ := List.exists_cons_of_ne_nil hne
  have hd : d.isDigit = true := hdigits d List.mem_cons_self
  have hds : ∀ c ∈ ds, c.isDigit = true := fun c hc ↦ hdigits c (List.mem_cons_of_mem d hc)
  have hsearch := search_assignRegex (mt String.toList_eq_nil_iff.mp hname)
    (fun c hc ↦ hline c (List.mem_append_left _ hc)) (first_valueRegex_cons value.type hd ds)
    fun pre ys h hpre ↦ first_valueRegex_of_append hdigits h hpre
  rw [List.takeWhile_eq_self_iff.mpr hds] at hsearch
  rw [parseAssign_of_search hsearch hne hdigits, hvalue, cast_intToUint, String.ofList_toList]

theorem getLines_append {line : List Char} (h : '\n' ∉ line) (text : List Char) :
    getLines (line ++ '\n' :: text) = line :: getLines text := by
  induction line with
  | nil => rfl
  | cons c line ih =>
    rw [List.mem_cons, not_or] at h
    rw [List.cons_append, getLines, if_neg (Ne.symm h.1), ih h.2]

theorem getLines_unlines_append {lines : List (List Char)} (h : ∀ line ∈ lines, '\n' ∉ line)
    (text : List Char) : getLines (unlines lines ++ text) = lines ++ getLines text := by
  induction lines with
  | nil => rfl
  | cons line lines ih =>
    rw [List.forall_mem_cons] at h
    rw [unlines, List.flatMap_cons, List.append_assoc, List.append_assoc, List.singleton_append,
      getLines_append h.1]
    exact congrArg (line :: ·) (ih h.2)

theorem readLines_append (name : String) (lineNum : Nat) (assigns : ConcreteStore)
    (lines lines' : List (List Char)) :
    readLines name lineNum assigns (lines ++ lines') =
      (readLines name lineNum assigns lines).bind fun assigns' ↦
        readLines name (lineNum + lines.length) assigns' lines' := by
  induction lines generalizing lineNum assigns with
  | nil => rfl
  | cons line lines ih =>
    rw [List.cons_append, readLines, readLines]
    cases parseAssign line with
    | none => rfl
    | some assign =>
      dsimp only
      rw [ih, List.length_cons, Nat.add_right_comm, Nat.add_assoc lineNum]

/-! ## Round trips -/

theorem anyChar_of_mem_valueText (type : IntType) {digits : List Char}
    (h : ∀ c ∈ digits, c.isDigit = true) : ∀ c ∈ valueText type digits, anyChar c = true := by
  have htype : ∀ c ∈ typeName type, anyChar c = true :=
    List.all_eq_true.mp (by cases type <;> decide)
  have hdigit : ∀ c : Char, c.isDigit = true → anyChar c = true := by
    intro c hc
    refine anyChar_iff.mpr ⟨?_, ?_⟩
    · rintro rfl
      exact absurd hc (by decide)
    · rintro rfl
      exact absurd hc (by decide)
  intro c hc
  rw [valueText, List.mem_cons, List.mem_append, List.mem_cons] at hc
  rcases hc with rfl | hc | rfl | hc
  · decide
  · exact htype c hc
  · decide
  · exact hdigit c (h c hc)

/-- A store is made of the assignments that it lists. -/
theorem foldl_insert_toList (store : ConcreteStore) :
    store.toList.foldl (fun assigns assign ↦ assigns.insert assign.1 assign.2) ∅ = store := by
  have hmany : ∀ (assigns : List (String × IntValue)) (start : ConcreteStore),
      assigns.foldl (fun assigns assign ↦ assigns.insert assign.1 assign.2) start =
        start.insertMany assigns := by
    intro assigns
    induction assigns with
    | nil => exact fun start ↦ (Std.ExtTreeMap.insertMany_nil).symm
    | cons assign assigns ih =>
      intro start
      rw [List.foldl_cons, ih, Std.ExtTreeMap.insertMany_cons]
  rw [hmany]
  apply Std.ExtTreeMap.ext_getElem?
  intro name
  cases hname : store[name]? with
  | none =>
    rw [Std.ExtTreeMap.getElem?_insertMany_list_of_contains_eq_false]
    · rfl
    · rw [Std.ExtTreeMap.map_fst_toList_eq_keys, Std.ExtTreeMap.contains_keys,
        Std.ExtTreeMap.contains_eq_isSome_getElem?, hname]
      rfl
  | some value =>
    exact Std.ExtTreeMap.getElem?_insertMany_list_of_mem Std.ReflCmp.compare_self
      Std.ExtTreeMap.distinct_keys_toList
      (Std.ExtTreeMap.mem_toList_iff_getElem?_eq_some.mpr hname)

theorem readLines_assignLines (file : String) {assigns : List (String × IntValue)}
    (h : ∀ assign ∈ assigns, parseAssign (assignLine assign.1 assign.2) = some assign)
    (lineNum : Nat) (start : ConcreteStore) :
    readLines file lineNum start (assigns.map fun assign ↦ assignLine assign.1 assign.2) =
      .ok (assigns.foldl (fun assigns assign ↦ assigns.insert assign.1 assign.2) start) := by
  induction assigns generalizing lineNum start with
  | nil => rfl
  | cons assign assigns ih =>
    rw [List.forall_mem_cons] at h
    rw [List.map_cons, readLines, h.1]
    exact ih h.2 (lineNum + 1) _

/-- A store that is written to a file is read back. -/
theorem fromFile_toFile (file : String) (store : ConcreteStore)
    (h : ∀ name ∈ store, name ≠ "" ∧ '\n' ∉ name.toList ∧ '\r' ∉ name.toList) :
    fromFile file (toFile store) = .ok store := by
  have hnames : ∀ assign ∈ store.toList, assign.1 ≠ "" ∧ '\n' ∉ assign.1.toList ∧
      '\r' ∉ assign.1.toList := by
    intro assign hassign
    refine h assign.1 (Std.ExtTreeMap.mem_iff_isSome_getElem?.mpr ?_)
    rw [Std.ExtTreeMap.mem_toList_iff_getElem?_eq_some.mp hassign]
    rfl
  have hchars : ∀ assign ∈ store.toList, ∀ c ∈ assignLine assign.1 assign.2,
      anyChar c = true := by
    intro assign hassign c hc
    have hname := hnames assign hassign
    rcases List.mem_append.mp hc with hc | hc
    · refine anyChar_iff.mpr ⟨?_, ?_⟩
      · rintro rfl
        exact hname.2.1 hc
      · rintro rfl
        exact hname.2.2 hc
    · exact anyChar_of_mem_valueText _
        (fun _ hc ↦ Nat.isDigit_of_mem_toDigits (by decide) (by decide) hc) c hc
  have hlines : ∀ line ∈ store.toList.map fun assign ↦ assignLine assign.1 assign.2,
      '\n' ∉ line := by
    intro line hline hnewline
    obtain ⟨assign, hassign, rfl⟩ := List.mem_map.mp hline
    exact absurd (hchars assign hassign _ hnewline) (by decide)
  have hparse : ∀ assign ∈ store.toList,
      parseAssign (assignLine assign.1 assign.2) = some assign := by
    intro assign hassign
    exact parseAssign_of_isAssignment
      (isAssignment_assignLine (hnames assign hassign).1 assign.2) (hchars assign hassign)
  have hsplit := getLines_unlines_append hlines []
  rw [List.append_nil] at hsplit
  rw [fromFile, toFile, hsplit, getLines, List.append_nil, readLines_assignLines file hparse,
    foldl_insert_toList]

/-- Names that look like lines. -/
def tabbedStore : ConcreteStore :=
  ((∅ : ConcreteStore).insert "x\tuint8_t\t7" (.uint32 4294967295#32)).insert "y" (.uint8 0#8)

theorem fromFile_toFile_tabbedStore :
    fromFile "testcase" (toFile tabbedStore) = .ok tabbedStore := by
  refine fromFile_toFile "testcase" tabbedStore fun name hname ↦ ?_
  rw [tabbedStore, Std.ExtTreeMap.mem_insert, Std.ExtTreeMap.mem_insert,
    Std.LawfulEqCmp.compare_eq_iff_eq, Std.LawfulEqCmp.compare_eq_iff_eq] at hname
  rcases hname with rfl | rfl | hname
  · decide
  · decide
  · exact absurd hname Std.ExtTreeMap.not_mem_empty

/-! ## Accepted lines -/

/-- Wherever the line stands in a file, it is read as the grammar says: an assignment is added to the
store that was read so far, and any other line is an error with the number of the line. -/
structure ReadAsGrammar (line : List Char) : Prop where
  accepted : ∀ name value, IsAssignment line name value → ∀ file before store,
    (∀ l ∈ before, '\n' ∉ l) → fromFile file (unlines before) = .ok store →
    fromFile file (unlines (before ++ [line])) = .ok (store.insert name value)
  rejected : (∀ name value, ¬ IsAssignment line name value) → ∀ file before rest store,
    (∀ l ∈ before, '\n' ∉ l) → fromFile file (unlines before) = .ok store →
    fromFile file (unlines (before ++ [line]) ++ rest) =
      .error ⟨file, before.length + 1, "invalid assignment"⟩

/-- The line is an assignment without carriage returns, or no assignment and nothing in it looks like
the end of one. -/
def CleanLine (line : List Char) : Prop :=
  (∃ name value, IsAssignment line name value) ∧ '\r' ∉ line ∨
    (∀ name value, ¬ IsAssignment line name value) ∧ ¬ ContainsAssign line

section Line

variable {line : List Char} (hline : '\n' ∉ line)

include hline

/-- A file goes on with the line after the lines before it. -/
theorem fromFile_unlines_append {file : String} {before : List (List Char)} {store : ConcreteStore}
    (hbefore : ∀ l ∈ before, '\n' ∉ l) (hstore : fromFile file (unlines before) = .ok store)
    (rest : List Char) :
    fromFile file (unlines (before ++ [line]) ++ rest) =
      readLines file (1 + before.length) store (line :: getLines rest) := by
  have hlines : ∀ l ∈ before ++ [line], '\n' ∉ l := by
    intro l hl
    rcases List.mem_append.mp hl with hl | hl
    · exact hbefore l hl
    · rw [List.mem_singleton.mp hl]
      exact hline
  have hsplit := getLines_unlines_append hbefore []
  rw [List.append_nil, getLines, List.append_nil] at hsplit
  rw [fromFile, hsplit] at hstore
  rw [fromFile, getLines_unlines_append hlines, List.append_assoc, readLines_append, hstore]
  rfl

theorem fromFile_singleton (file : String) :
    fromFile file (unlines [line]) = readLines file 1 ∅ [line] := by
  have hfile := @fromFile_unlines_append line hline file [] ∅ nofun rfl []
  rwa [List.append_nil] at hfile

theorem readAsGrammar_of_cleanLine (h : CleanLine line) : ReadAsGrammar line where
  accepted := by
    intro name value hassign file before store hbefore hstore
    rcases h with ⟨-, hreturn⟩ | ⟨hnone, -⟩
    · have hchars : ∀ c ∈ line, anyChar c = true := by
        intro c hc
        refine anyChar_iff.mpr ⟨?_, ?_⟩
        · rintro rfl
          exact hline hc
        · rintro rfl
          exact hreturn hc
      have hfile := fromFile_unlines_append hline hbefore hstore []
      rw [List.append_nil] at hfile
      rw [hfile, readLines, parseAssign_of_isAssignment hassign hchars]
      rfl
    · exact absurd hassign (hnone name value)
  rejected := by
    intro hnone file before rest store hbefore hstore
    rcases h with ⟨⟨name, value, hassign⟩, -⟩ | ⟨-, hcontains⟩
    · exact absurd hassign (hnone name value)
    · rw [fromFile_unlines_append hline hbefore hstore, readLines,
        parseAssign_eq_none_iff.mpr hcontains, Nat.add_comm]

theorem cleanLine_of_readAsGrammar (h : ReadAsGrammar line) : CleanLine line := by
  by_cases hassign : ∃ name value, IsAssignment line name value
  · refine .inl ⟨hassign, fun hreturn ↦ ?_⟩
    obtain ⟨name, value, hassign⟩ := hassign
    have hfile := h.accepted name value hassign "" [] ∅ nofun rfl
    rw [List.nil_append, fromFile_singleton hline, readLines] at hfile
    cases hparse : parseAssign line with
    | none =>
      rw [hparse] at hfile
      cases hfile
    | some assign =>
      obtain ⟨name', value'⟩ := assign
      rw [hparse] at hfile
      have hinsert : (∅ : ConcreteStore).insert name' value' = (∅ : ConcreteStore).insert name value :=
        Except.ok.inj hfile
      have hmem : name ∈ (∅ : ConcreteStore).insert name' value' := by
        rw [hinsert]
        exact Std.ExtTreeMap.mem_insert_self
      rw [Std.ExtTreeMap.mem_insert, Std.LawfulEqCmp.compare_eq_iff_eq] at hmem
      obtain rfl := hmem.resolve_right Std.ExtTreeMap.not_mem_empty
      obtain ⟨-, digits, -, hdigits, rfl, -⟩ := hassign
      rcases List.mem_append.mp hreturn with hreturn | hreturn
      · exact absurd (anyChar_of_parseAssign hparse _ hreturn) (by decide)
      · exact absurd (anyChar_of_mem_valueText _ hdigits _ hreturn) (by decide)
  · have hnone : ∀ name value, ¬ IsAssignment line name value :=
      fun name value h' ↦ hassign ⟨name, value, h'⟩
    refine .inr ⟨hnone, parseAssign_eq_none_iff.mp ?_⟩
    have hfile := h.rejected hnone "" [] [] ∅ nofun rfl
    rw [List.append_nil, List.nil_append, fromFile_singleton hline, readLines] at hfile
    cases hparse : parseAssign line with
    | none => rfl
    | some assign =>
      rw [hparse] at hfile
      cases hfile

end Line

/-- A line is read as the grammar says exactly if it is clean. -/
theorem readAsGrammar_iff (line : List Char) (hline : '\n' ∉ line) :
    ReadAsGrammar line ↔ CleanLine line :=
  ⟨cleanLine_of_readAsGrammar hline, readAsGrammar_of_cleanLine hline⟩

theorem readAsGrammar_assignLine : ReadAsGrammar (assignLine "x" (.uint8 7#8)) := by
  refine (readAsGrammar_iff _ (by decide)).mpr (.inl ⟨⟨"x", .uint8 7#8, ?_⟩, by decide⟩)
  exact isAssignment_assignLine (by decide) _

/-- A line that is accepted although it is no assignment. -/
theorem not_readAsGrammar_of_parseAssign {line : List Char} (hline : '\n' ∉ line)
    {assign : String × IntValue} (hparse : parseAssign line = some assign)
    (hnone : ∀ name value, ¬ IsAssignment line name value) : ¬ ReadAsGrammar line := by
  intro h
  have hfile := h.rejected hnone "" [] [] ∅ nofun rfl
  rw [List.append_nil, List.nil_append, fromFile_singleton hline, readLines, hparse] at hfile
  cases hfile

/-- The line `x uint8_t 300`, with tabs. -/
def outOfRangeLine : List Char := 'x' :: valueText .uint8 ['3', '0', '0']

/-- A number that is too large for its type is cut. -/
theorem not_readAsGrammar_outOfRangeLine :
    fromFile "testcase" (unlines [outOfRangeLine]) =
        .ok ((∅ : ConcreteStore).insert "x" (.uint8 44#8)) ∧
      ¬ ReadAsGrammar outOfRangeLine := by
  have hline : '\n' ∉ outOfRangeLine := by decide
  have hparse : parseAssign outOfRangeLine = some ("x", .uint8 44#8) := by decide +kernel
  refine ⟨?_, not_readAsGrammar_of_parseAssign hline hparse fun name value hassign ↦ ?_⟩
  · rw [fromFile_singleton hline, readLines, hparse]
    rfl
  · have hchars : ∀ c ∈ outOfRangeLine, anyChar c = true := List.all_eq_true.mp (by decide)
    have hread := parseAssign_of_isAssignment hassign hchars
    rw [hparse] at hread
    cases hread
    obtain ⟨-, digits, -, -, heq, hvalue⟩ := hassign
    have hdigits : digits = ['3', '0', '0'] := by
      have hcancel : valueText .uint8 ['3', '0', '0'] = valueText .uint8 digits :=
        (List.cons_eq_cons.mp heq).2
      rw [valueText, valueText, List.cons_eq_cons, List.append_cancel_left_eq,
        List.cons_eq_cons] at hcancel
      exact hcancel.2.2.symm
    rw [hdigits] at hvalue
    exact absurd hvalue (by decide)

end TestCase

end CoverageVP.Clover
