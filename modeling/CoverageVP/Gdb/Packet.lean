import CoverageVP.Gdb.DebugMemory
import CoverageVP.Lib.Sequences
import Mathlib.Algebra.BigOperators.Group.List.Basic
import Mathlib.Data.Int.Basic
import Mathlib.Data.List.TakeWhile

/-!
# Packets of the debugger

A packet is its data between a character for its kind and a checksum, which is the sum of the data as
signed characters, printed with two hexadecimal digits. A negative remainder of the sum has eight digits.
-/

namespace CoverageVP.Gdb

open Lib

/-- A character of the source. -/
def chr (c : Char) : BitVec 8 := BitVec.ofNat 8 c.toNat

inductive Kind
  | notify | packet | nack | ack
  deriving DecidableEq, Repr

structure Packet where
  kind : Kind
  data : Option (List (BitVec 8))
  csum : List (BitVec 8)
  deriving DecidableEq, Repr

/-- How the functions on packets fail: by an assertion, by leaving the program, or by undefined
behaviour. -/
inductive PacketFault
  | assertion
  | exit (what : String)
  | undefined
  deriving DecidableEq, Repr

namespace Packet

/-- The length of a checksum. -/
def csumLen : Nat := 2

/-! ## Checksums -/

/-- An addition of signed words must not overflow. -/
def addInt (x : Int) (c : BitVec 8) : Except PacketFault Int :=
  if -2147483648 ≤ x + c.toInt ∧ x + c.toInt ≤ 2147483647 then .ok (x + c.toInt)
  else .error .undefined

def sumChars (data : List (BitVec 8)) : Except PacketFault Int := data.foldlM addInt 0

def calcCsum (data : List (BitVec 8)) : Except PacketFault Int := do
  let csum ← sumChars data
  return csum.tmod 256

/-- The digits of a word, without leading zeros but for the last two. -/
def digitsOf (value : BitVec 32) : List Nat :=
  let digits := (List.range 8).map fun i ↦ value.toNat / 16 ^ (7 - i) % 16
  (digits.take 6).dropWhile (· == 0) ++ digits.drop 6

/-- The format `%.2x`. -/
def formatHex (value : Int) : List (BitVec 8) :=
  (digitsOf (BitVec.ofInt 32 value)).map fun d ↦ chr (hexDigit d)

def isValid (pkt : Packet) : Except PacketFault Bool :=
  match pkt.data with
  | none => .ok true
  | some data => do
    let expcsum ← calcCsum data
    let strcsum := formatHex expcsum
    require (strcsum.length = csumLen) .assertion
    return pkt.csum == strcsum

def kindToChar : Kind → BitVec 8
  | .notify => chr '#'
  | .packet => chr '$'
  | .nack => chr '-'
  | .ack => chr '+'

/-- A packet with data. The buffer has the room for a checksum of two digits. -/
def serializeData (kind : Kind) (data : List (BitVec 8)) : Except PacketFault (List (BitVec 8)) := do
  let csum ← calcCsum data
  let pktlen := data.length + csumLen + 3
  let text := kindToChar kind :: data ++ chr '#' :: formatHex csum
  require (text.length < pktlen) (.exit "insufficient snprintf buffer size")
  return text

def serialize (kind : Kind) (data : Option (List (BitVec 8))) :
    Except PacketFault (List (BitVec 8)) :=
  match kind, data with
  | .nack, none => .ok [kindToChar .nack]
  | .ack, none => .ok [kindToChar .ack]
  | .nack, some _ => .error .assertion
  | .ack, some _ => .error .assertion
  | _, none => .error .undefined
  | kind, some data => serializeData kind data

/-! ## Parsing -/

/-- A parser for one character of a class. -/
def satisfy (accepts : BitVec 8 → Bool) :
    List (BitVec 8) → Option (List (BitVec 8) × List (BitVec 8))
  | [] => none
  | c :: text => if accepts c then some ([c], text) else none

/-- A character that is not one of the given ones. The end of a string is among them. -/
def noneof (chars : List (BitVec 8)) (c : BitVec 8) : Bool := c ≠ 0#8 && c ∉ chars

/-- Parsers one after another, with all their results. -/
def inSequence {α : Type} :
    List (List (BitVec 8) → Option (α × List (BitVec 8))) →
      List (BitVec 8) → Option (List α × List (BitVec 8))
  | [], text => some ([], text)
  | parse :: parsers, text => do
    let (x, text) ← parse text
    let (xs, text) ← inSequence parsers text
    return (x :: xs, text)

/-- A library of parsers, with the combinators of the grammar and what they accept. An alternative is
left if it does not accept the next character. -/
structure Mpc where
  Parser : Type → Type
  run : {α : Type} → Parser α → List (BitVec 8) → Option (α × List (BitVec 8))
  any : Parser (List (BitVec 8))
  char : BitVec 8 → Parser (List (BitVec 8))
  oneof : List (BitVec 8) → Parser (List (BitVec 8))
  noneof : List (BitVec 8) → Parser (List (BitVec 8))
  many : {β : Type} → (List (List (BitVec 8)) → β) → Parser (List (BitVec 8)) → Parser β
  and : {β : Type} → (List (List (BitVec 8)) → β) → List (Parser (List (BitVec 8))) → Parser β
  or : {α : Type} → List (Parser α) → Parser α
  apply : {β : Type} → Parser (List (BitVec 8)) → (List (BitVec 8) → β) → Parser β
  run_any : run any = satisfy fun _ ↦ true
  run_char : ∀ c, run (char c) = satisfy (· == c)
  run_oneof : ∀ chars c text, c ≠ 0#8 →
    run (oneof chars) (c :: text) = satisfy (decide <| · ∈ chars) (c :: text)
  run_noneof : ∀ chars, run (noneof chars) = satisfy (Packet.noneof chars)
  run_many : ∀ {β : Type} (fold : List (List (BitVec 8)) → β) {p : Parser (List (BitVec 8))} {accepts},
    run p = satisfy accepts → ∀ text,
      run (many fold p) text =
        some (fold ((text.takeWhile accepts).map ([·])), text.dropWhile accepts)
  run_and : ∀ {β : Type} (fold : List (List (BitVec 8)) → β) ps text,
    run (and fold ps) text = (inSequence (ps.map run) text).map fun r ↦ (fold r.1, r.2)
  run_or_nil : ∀ {α : Type} text, run (or [] : Parser α) text = none
  run_or_first : ∀ {α : Type} (p : Parser α) ps text result, run p text = some result →
    run (or (p :: ps)) text = some result
  run_or_next : ∀ {α : Type} (p : Parser α) ps c text, (∀ rest, run p (c :: rest) = none) →
    run (or (p :: ps)) (c :: text) = run (or ps) (c :: text)
  run_apply : ∀ {β : Type} (p : Parser (List (BitVec 8))) (f : List (BitVec 8) → β) text,
    run (apply p f) text = (run p text).map fun r ↦ (f r.1, r.2)

/-- The results of parsers are texts that follow each other. -/
def strfold (xs : List (List (BitVec 8))) : List (BitVec 8) := xs.flatten

/-- The leading mark of the checksum is skipped. -/
def gdbfPacket : List (List (BitVec 8)) → Except PacketFault Packet
  | [start, data, csum] =>
    if start.head? = some (chr '%') then .ok ⟨.notify, some data, (csum.drop 1).take csumLen⟩
    else if start.head? = some (chr '$') then .ok ⟨.packet, some data, (csum.drop 1).take csumLen⟩
    else .error .assertion
  | _ => .error .assertion

def gdbfAcknowledge (str : List (BitVec 8)) : Except PacketFault Packet :=
  if str.head? = some (chr '+') then .ok ⟨.ack, none, List.replicate csumLen 0#8⟩
  else if str.head? = some (chr '-') then .ok ⟨.nack, none, List.replicate csumLen 0#8⟩
  else .error .assertion

section Grammar

variable (mpc : Mpc)

def gdbCsum : mpc.Parser (List (BitVec 8)) :=
  mpc.and strfold [mpc.char (chr '#'), mpc.and strfold [mpc.any, mpc.any]]

def gdbPacket : mpc.Parser (Except PacketFault Packet) :=
  mpc.and gdbfPacket
    [mpc.char (chr '$'), mpc.many strfold (mpc.noneof [chr '#', chr '$']), gdbCsum mpc]

def gdbNotification : mpc.Parser (Except PacketFault Packet) :=
  mpc.and gdbfPacket
    [mpc.char (chr '%'), mpc.many strfold (mpc.noneof [chr '#', chr '$', chr '%']), gdbCsum mpc]

def gdbAcknowledge : mpc.Parser (Except PacketFault Packet) :=
  mpc.apply (mpc.oneof [chr '+', chr '-']) gdbfAcknowledge

/-- A packet at the start of a stream, and the rest of the stream. -/
def parseStage1 (stream : List (BitVec 8)) :
    Option (Except PacketFault Packet × List (BitVec 8)) :=
  mpc.run (mpc.or [gdbAcknowledge mpc, gdbPacket mpc, gdbNotification mpc]) stream

end Grammar

/-- The library as functions on texts. -/
def Mpc.functional : Mpc where
  Parser α := List (BitVec 8) → Option (α × List (BitVec 8))
  run p := p
  any := satisfy fun _ ↦ true
  char c := satisfy (· == c)
  oneof chars := satisfy (decide <| · ∈ chars)
  noneof chars := satisfy (Packet.noneof chars)
  many fold p text :=
    let accepts c := (p [c]).isSome
    some (fold ((text.takeWhile accepts).map ([·])), text.dropWhile accepts)
  and fold ps text := (inSequence ps text).map fun r ↦ (fold r.1, r.2)
  or ps text := ps.findSome? fun p ↦ p text
  apply p f text := (p text).map fun r ↦ (f r.1, r.2)
  run_any := rfl
  run_char _ := rfl
  run_oneof _ _ _ _ := rfl
  run_noneof _ := rfl
  run_many := by
    intro β fold p accepts hp text
    have haccepts : (fun c ↦ (p [c]).isSome) = accepts := by
      funext c
      rw [show p = _ from hp, satisfy]
      cases accepts c <;> rfl
    simp only [haccepts]
  run_and fold ps text := by rw [List.map_id']
  run_or_nil _ := rfl
  run_or_first p ps text result h := by
    have hp : p text = some result := h
    simp [hp]
  run_or_next p ps c text h := by
    have hp : p (c :: text) = none := h text
    simp [hp]
  run_apply _ _ _ := rfl

/-! ## Sums -/

/-- The sum of the data as signed characters does not overflow, and it is not negative or a multiple of
256. -/
def Summable (data : List (BitVec 8)) : Prop :=
  ∃ sum, sumChars data = .ok sum ∧ (0 ≤ sum ∨ (256 : Int) ∣ sum)

/-- One byte of the data has been changed to another one that does not end a string. -/
def Changed (data data' : List (BitVec 8)) : Prop :=
  ∃ i, ∃ _ : i < data.length, ∃ b : BitVec 8, b ≠ 0#8 ∧ b ≠ data[i] ∧ data' = data.set i b

theorem foldlM_addInt {data : List (BitVec 8)} {x sum : Int} (h : data.foldlM addInt x = .ok sum) :
    sum = x + (data.map BitVec.toInt).sum := by
  induction data generalizing x with
  | nil =>
    cases h
    exact (Int.add_zero _).symm
  | cons c data ih =>
    rw [List.foldlM_cons] at h
    obtain ⟨y, hy, h⟩ := bind_eq_ok.mp h
    unfold addInt at hy
    split at hy
    case isTrue =>
      cases hy
      rw [ih h, List.map_cons, List.sum_cons, Int.add_assoc]
    case isFalse => cases hy

theorem sum_of_sumChars {data : List (BitVec 8)} {sum : Int} (h : sumChars data = .ok sum) :
    sum = (data.map BitVec.toInt).sum := by
  rw [foldlM_addInt h, Int.zero_add]

theorem toInt_bounds (c : BitVec 8) : -128 ≤ c.toInt ∧ c.toInt ≤ 127 := by
  have hlow := BitVec.le_toInt c
  have hhigh := BitVec.toInt_lt (x := c)
  omega

theorem foldlM_addInt_of_length {data : List (BitVec 8)} {x : Int}
    (hlow : -2147483648 ≤ x - 128 * data.length) (hhigh : x + 128 * data.length ≤ 2147483647) :
    data.foldlM addInt x = .ok (x + (data.map BitVec.toInt).sum) := by
  induction data generalizing x with
  | nil => exact congrArg Except.ok (Int.add_zero x).symm
  | cons c data ih =>
    have hbounds := toInt_bounds c
    rw [List.length_cons, Nat.cast_add_one] at hlow hhigh
    have hadd : addInt x c = .ok (x + c.toInt) := if_pos ⟨by omega, by omega⟩
    rw [foldlM_cons_of_ok hadd, ih (by omega) (by omega), List.map_cons, List.sum_cons,
      Int.add_assoc]

/-- The sum of less than 16 MiB does not overflow. -/
theorem sumChars_of_length {data : List (BitVec 8)} (h : data.length < 2 ^ 24) :
    sumChars data = .ok (data.map BitVec.toInt).sum := by
  rw [sumChars, foldlM_addInt_of_length (by omega) (by omega), Int.zero_add]

theorem length_of_changed {data data' : List (BitVec 8)} (h : Changed data data') :
    data'.length = data.length := by
  obtain ⟨i, hi, b, -, -, rfl⟩ := h
  exact List.length_set

/-- A change of one byte changes the sum by less than 256. -/
theorem sum_of_changed {data data' : List (BitVec 8)} (h : Changed data data') :
    ∃ d : Int, d ≠ 0 ∧ -255 ≤ d ∧ d ≤ 255 ∧
      (data'.map BitVec.toInt).sum = (data.map BitVec.toInt).sum + d := by
  obtain ⟨i, hi, b, -, hne, rfl⟩ := h
  refine ⟨b.toInt - data[i].toInt, ?_, ?_, ?_, ?_⟩
  · intro hzero
    exact hne (BitVec.eq_of_toInt_eq (by omega))
  · have hb := toInt_bounds b
    have hd := toInt_bounds data[i]
    omega
  · have hb := toInt_bounds b
    have hd := toInt_bounds data[i]
    omega
  · rw [List.map_set, List.sum_set', dif_pos (by rwa [List.length_map]), List.getElem_map]
    omega

theorem tmod_of_summable {sum : Int} (h : 0 ≤ sum ∨ (256 : Int) ∣ sum) : sum.tmod 256 = sum % 256 := by
  rcases h with h | h
  · exact Int.tmod_eq_emod_of_nonneg h
  · rw [Int.tmod_eq_zero_of_dvd h, Int.emod_eq_zero_of_dvd h]

/-- A negative remainder is what the sum must not leave. -/
theorem summable_iff_tmod {sum : Int} : 0 ≤ sum.tmod 256 ↔ 0 ≤ sum ∨ (256 : Int) ∣ sum := by
  constructor
  · intro h
    by_contra hneg
    obtain ⟨hlt, hdvd⟩ := not_or.mp hneg
    have hle : sum.tmod 256 ≤ 0 := by
      rw [← Int.neg_neg sum, Int.neg_tmod]
      exact Int.neg_nonpos_of_nonneg (Int.tmod_nonneg _ (by omega))
    exact hdvd (Int.dvd_of_tmod_eq_zero (by omega))
  · intro h
    rw [tmod_of_summable h]
    exact Int.emod_nonneg _ (by decide)

theorem digitsOf_of_lt {value : BitVec 32} (h : value.toNat < 256) :
    digitsOf value = [value.toNat / 16, value.toNat % 16] := by
  have hleading :
      ((List.range 6).map fun i ↦ value.toNat / 16 ^ (7 - i) % 16).dropWhile (· == 0) = [] := by
    rw [List.dropWhile_eq_nil_iff]
    intro d hd
    obtain ⟨i, hi, rfl⟩ := List.mem_map.mp hd
    have hlt := List.mem_range.mp hi
    have hexp : 2 ≤ 7 - i := by omega
    have hpow : 16 ^ 2 ≤ 16 ^ (7 - i) := Nat.pow_le_pow_right (by decide) hexp
    rw [beq_iff_eq, Nat.div_eq_of_lt (h.trans_le hpow), Nat.zero_mod]
  have hhigh : value.toNat / 16 ^ 1 % 16 = value.toNat / 16 := by omega
  have hlow : value.toNat / 16 ^ 0 % 16 = value.toNat % 16 := by omega
  calc digitsOf value
    _ = ((List.range 6).map fun i ↦ value.toNat / 16 ^ (7 - i) % 16).dropWhile (· == 0) ++
        [value.toNat / 16 ^ 1 % 16, value.toNat / 16 ^ 0 % 16] := rfl
    _ = [value.toNat / 16, value.toNat % 16] := by rw [hleading, hhigh, hlow, List.nil_append]

/-- No zero leads if the first of the eight digits is none. -/
theorem length_digitsOf_of_ge {value : BitVec 32} (h : 16 ^ 7 ≤ value.toNat) :
    (digitsOf value).length = 8 := by
  have hfirst : ¬ (value.toNat / 16 ^ 7 % 16 == 0) = true := by
    have hlt : value.toNat < 2 ^ 32 := value.isLt
    rw [beq_iff_eq]
    omega
  change (([value.toNat / 16 ^ 7 % 16, _, _, _, _, _] : List Nat).dropWhile _ ++ _).length = _
  rw [List.dropWhile_cons_of_neg (p := (· == 0)) hfirst]
  rfl

theorem idxOf_hexDigit : ∀ d < 16, (hexDigits.map chr).idxOf (chr (hexDigit d)) = d := by
  decide

/-- Two digits determine the byte. -/
theorem digits_formatHex (n : Nat) (hn : n < 256) :
    (formatHex (n : Int)).map (fun c ↦ (hexDigits.map chr).idxOf c) = [n / 16, n % 16] := by
  have hvalue : (BitVec.ofInt 32 (n : Int)).toNat = n := by
    rw [BitVec.toNat_ofInt]
    omega
  rw [formatHex, digitsOf_of_lt (by omega), hvalue, List.map_map]
  exact congrArg₂ (fun high low ↦ [high, low]) (idxOf_hexDigit _ (by omega))
    (idxOf_hexDigit _ (by omega))

theorem length_formatHex_nat (n : Nat) (hn : n < 256) : (formatHex (n : Int)).length = csumLen := by
  have hlength := congrArg List.length (digits_formatHex n hn)
  rw [List.length_map] at hlength
  exact hlength

theorem length_formatHex_neg (n : Nat) (hn : n < 255) :
    (formatHex (-((n : Int) + 1))).length = 8 := by
  have hge : 16 ^ 7 ≤ (BitVec.ofInt 32 (-((n : Int) + 1))).toNat := by
    rw [BitVec.toNat_ofInt]
    omega
  rw [formatHex, List.length_map, length_digitsOf_of_ge hge]

/-- A checksum has two digits, or eight if it is negative. -/
theorem length_formatHex (sum : Int) : (formatHex (sum.tmod 256)).length =
    if 0 ≤ sum ∨ (256 : Int) ∣ sum then csumLen else 8 := by
  have hlt : sum.tmod 256 < 256 := Int.tmod_lt_of_pos _ (by decide)
  have hgt : -256 < sum.tmod 256 := Int.lt_tmod_of_pos _ (by decide)
  split
  case isTrue h =>
    have hnonneg := summable_iff_tmod.mpr h
    have hlength := length_formatHex_nat (sum.tmod 256).toNat (by omega)
    rw [Int.toNat_of_nonneg hnonneg] at hlength
    exact hlength
  case isFalse h =>
    have hneg := mt summable_iff_tmod.mp h
    have hlength := length_formatHex_neg (-(sum.tmod 256) - 1).toNat (by omega)
    have heq : -(((-(sum.tmod 256) - 1).toNat : Int) + 1) = sum.tmod 256 := by omega
    rw [heq] at hlength
    exact hlength

theorem formatHex_inj {x y : Int} (hx : 0 ≤ x ∧ x < 256) (hy : 0 ≤ y ∧ y < 256)
    (h : formatHex x = formatHex y) : x = y := by
  have hdx := digits_formatHex x.toNat (by omega)
  have hdy := digits_formatHex y.toNat (by omega)
  rw [Int.toNat_of_nonneg hx.1] at hdx
  rw [Int.toNat_of_nonneg hy.1] at hdy
  rw [h] at hdx
  have heq := hdx.symm.trans hdy
  simp only [List.cons.injEq] at heq
  omega

/-! ## Round trips -/

section RoundTrips

variable {kind : Kind} {data csum text : List (BitVec 8)}

theorem calcCsum_eq_ok_iff {c : Int} :
    calcCsum data = .ok c ↔ ∃ sum, sumChars data = .ok sum ∧ sum.tmod 256 = c := by
  refine bind_eq_ok.trans (exists_congr fun sum ↦ and_congr_right fun _ ↦ ?_)
  exact ⟨Except.ok.inj, congrArg Except.ok⟩

/-- A checksum is required to be printed with two digits. -/
theorem calcCsum_require_eq_ok_iff {α : Type} {P : Int → Prop} [DecidablePred P]
    {fault : PacketFault} {f : Int → α} {a : α}
    (hP : ∀ sum : Int, P (sum.tmod 256) ↔ 0 ≤ sum ∨ (256 : Int) ∣ sum) :
    (do
      let csum ← calcCsum data
      require (P csum) fault
      return f csum) = .ok a ↔
    ∃ sum, sumChars data = .ok sum ∧ (0 ≤ sum ∨ (256 : Int) ∣ sum) ∧ f (sum.tmod 256) = a := by
  constructor
  · intro h
    obtain ⟨_, hcsum, h⟩ := bind_eq_ok.mp h
    obtain ⟨sum, hsum, rfl⟩ := calcCsum_eq_ok_iff.mp hcsum
    obtain ⟨hsummable, h⟩ := require_bind_eq_ok.mp h
    exact ⟨sum, hsum, (hP sum).mp hsummable, Except.ok.inj h⟩
  · rintro ⟨sum, hsum, hsummable, rfl⟩
    refine bind_eq_ok.mpr ⟨_, calcCsum_eq_ok_iff.mpr ⟨sum, hsum, rfl⟩, ?_⟩
    exact require_bind_eq_ok.mpr ⟨(hP sum).mpr hsummable, rfl⟩

/-- A packet is checked without an assertion if and only if its data can be summed. -/
theorem isValid_eq_ok_iff {b : Bool} : isValid ⟨kind, some data, csum⟩ = .ok b ↔
    ∃ sum, sumChars data = .ok sum ∧ (0 ≤ sum ∨ (256 : Int) ∣ sum) ∧
      (csum == formatHex (sum.tmod 256)) = b := by
  have hlength (sum : Int) : (formatHex (sum.tmod 256)).length = csumLen ↔
      0 ≤ sum ∨ (256 : Int) ∣ sum := by
    rw [length_formatHex]
    split
    case isTrue h => exact iff_of_true rfl h
    case isFalse h => exact iff_of_false (by decide) h
  exact calcCsum_require_eq_ok_iff hlength

/-- Data is serialized if and only if it can be summed. -/
theorem serializeData_eq_ok_iff : serializeData kind data = .ok text ↔
    ∃ sum, sumChars data = .ok sum ∧ (0 ≤ sum ∨ (256 : Int) ∣ sum) ∧
      kindToChar kind :: data ++ chr '#' :: formatHex (sum.tmod 256) = text := by
  have hlength (sum : Int) :
      (kindToChar kind :: data ++ chr '#' :: formatHex (sum.tmod 256)).length <
        data.length + csumLen + 3 ↔ 0 ≤ sum ∨ (256 : Int) ∣ sum := by
    have hcsum : csumLen = 2 := rfl
    rw [List.length_append, List.length_cons, List.length_cons, length_formatHex]
    split
    case isTrue h => exact iff_of_true (by omega) h
    case isFalse h => exact iff_of_false (by omega) h
  exact calcCsum_require_eq_ok_iff hlength

theorem run_gdbCsum (mpc : Mpc) (first second : BitVec 8) :
    mpc.run (gdbCsum mpc) (chr '#' :: first :: second :: text) =
      some ([chr '#', first, second], text) := by
  have hcsum : mpc.run (mpc.and strfold [mpc.any, mpc.any]) (first :: second :: text) =
      some ([first, second], text) := by
    rw [mpc.run_and, List.map_cons, List.map_cons, mpc.run_any]
    rfl
  rw [gdbCsum, mpc.run_and]
  simp only [List.map_cons, List.map_nil, inSequence, mpc.run_char, satisfy, beq_self_eq_true,
    if_true, hcsum, Option.bind_eq_bind, Option.bind_some]
  rfl

/-- The grammar finds the data and the checksum of a packet. -/
theorem parseStage1_packet (mpc : Mpc) (hdata : ∀ c ∈ data, noneof [chr '#', chr '$'] c = true)
    (hcsum : csum.length = csumLen) :
    parseStage1 mpc (kindToChar .packet :: data ++ chr '#' :: csum) =
      some (.ok ⟨.packet, some data, csum⟩, []) := by
  obtain ⟨first, second, rfl⟩ := List.length_eq_two.mp hcsum
  have htake : (data ++ [chr '#', first, second]).takeWhile (noneof [chr '#', chr '$']) = data := by
    rw [List.takeWhile_append_of_pos hdata, List.takeWhile_cons_of_neg (by decide), List.append_nil]
  have hdrop : (data ++ [chr '#', first, second]).dropWhile (noneof [chr '#', chr '$']) =
      [chr '#', first, second] := by
    rw [List.dropWhile_append_of_pos hdata, List.dropWhile_cons_of_neg (by decide)]
  have hmany : mpc.run (mpc.many strfold (mpc.noneof [chr '#', chr '$']))
      (data ++ [chr '#', first, second]) = some (data, [chr '#', first, second]) := by
    rw [mpc.run_many strfold (mpc.run_noneof _), htake, hdrop, strfold, ← List.flatMap_def,
      List.flatMap_singleton']
  have hacknowledge : ∀ rest, mpc.run (gdbAcknowledge mpc) (chr '$' :: rest) = none := by
    intro rest
    rw [gdbAcknowledge, mpc.run_apply, mpc.run_oneof _ _ _ (by decide)]
    rfl
  have hpacket : mpc.run (gdbPacket mpc) (chr '$' :: (data ++ [chr '#', first, second])) =
      some (.ok ⟨.packet, some data, [first, second]⟩, []) := by
    rw [gdbPacket, mpc.run_and]
    simp only [List.map_cons, List.map_nil, inSequence, mpc.run_char, satisfy, beq_self_eq_true,
      if_true, hmany, run_gdbCsum, Option.bind_eq_bind, Option.bind_some]
    rfl
  rw [List.cons_append, parseStage1]
  exact (mpc.run_or_next _ _ _ _ hacknowledge).trans (mpc.run_or_first _ _ _ _ hpacket)

/-- Nothing starts with the character for notifications. -/
theorem parseStage1_notify (mpc : Mpc) : parseStage1 mpc (kindToChar .notify :: text) = none := by
  have hacknowledge : ∀ rest, mpc.run (gdbAcknowledge mpc) (chr '#' :: rest) = none := by
    intro rest
    rw [gdbAcknowledge, mpc.run_apply, mpc.run_oneof _ _ _ (by decide)]
    rfl
  have hstart : ∀ {start : BitVec 8} {ps : List (mpc.Parser (List (BitVec 8)))}, start ≠ chr '#' →
      ∀ rest, mpc.run (mpc.and gdbfPacket (mpc.char start :: ps)) (chr '#' :: rest) = none := by
    intro start ps hne rest
    have hchar : mpc.run (mpc.char start) (chr '#' :: rest) = none := by
      rw [mpc.run_char, satisfy, if_neg (by simpa using hne.symm)]
    rw [mpc.run_and, List.map_cons, inSequence, hchar]
    rfl
  rw [parseStage1]
  exact (mpc.run_or_next _ _ _ _ hacknowledge).trans <|
    (mpc.run_or_next _ _ _ _ (hstart (by decide))).trans <|
      (mpc.run_or_next _ _ _ _ (hstart (by decide))).trans (mpc.run_or_nil _)

/-- A packet is serialized, parsed and valid again, and a change of one byte of its data is found. -/
def RoundTrip (mpc : Mpc) (kind : Kind) (data : List (BitVec 8)) : Prop :=
  ∃ text pkt, serialize kind (some data) = .ok text ∧ parseStage1 mpc text = some (.ok pkt, []) ∧
    pkt.kind = kind ∧ pkt.data = some data ∧ isValid pkt = .ok true ∧
    ∀ data', Changed data data' → isValid { pkt with data := some data' } = .ok false

/-- The checksum of data that has been changed is another one. -/
theorem formatHex_ne_of_changed {data' : List (BitVec 8)} {sum sum' : Int}
    (hchanged : Changed data data') (hsum : sumChars data = .ok sum)
    (hsummable : 0 ≤ sum ∨ (256 : Int) ∣ sum) (hsum' : sumChars data' = .ok sum')
    (hsummable' : 0 ≤ sum' ∨ (256 : Int) ∣ sum') :
    formatHex (sum.tmod 256) ≠ formatHex (sum'.tmod 256) := by
  obtain ⟨d, hne, hlow, hhigh, heq⟩ := sum_of_changed hchanged
  rw [← sum_of_sumChars hsum, ← sum_of_sumChars hsum'] at heq
  rw [tmod_of_summable hsummable, tmod_of_summable hsummable']
  intro h
  have hmod := formatHex_inj ⟨Int.emod_nonneg _ (by decide), Int.emod_lt_of_pos _ (by decide)⟩
    ⟨Int.emod_nonneg _ (by decide), Int.emod_lt_of_pos _ (by decide)⟩ h
  omega

/-- The packets that are serialized, parsed, and protected against a change of a byte are those whose
data can be summed, also after any such change. Notifications are never parsed. -/
theorem packet_roundTrip_iff (mpc : Mpc) (hkind : kind = .packet ∨ kind = .notify)
    (hdata : ∀ c ∈ data, c ≠ 0#8 ∧ c ≠ chr '#' ∧ c ≠ chr '$' ∧ c ≠ chr '%') :
    RoundTrip mpc kind data ↔
      kind = .packet ∧ Summable data ∧ ∀ data', Changed data data' → Summable data' := by
  rcases hkind with rfl | rfl
  · have hchars : ∀ c ∈ data, noneof [chr '#', chr '$'] c = true := by
      intro c hc
      obtain ⟨hnul, hhash, hdollar, -⟩ := hdata c hc
      simp [noneof, hnul, hhash, hdollar]
    constructor
    · rintro ⟨text, ⟨kind, data₁, csum⟩, htext, -, rfl, rfl, -, hchanged⟩
      obtain ⟨sum, hsum, hsummable, -⟩ := serializeData_eq_ok_iff.mp htext
      refine ⟨rfl, ⟨sum, hsum, hsummable⟩, fun data' hdata' ↦ ?_⟩
      obtain ⟨sum', hsum', hsummable', -⟩ := isValid_eq_ok_iff.mp (hchanged data' hdata')
      exact ⟨sum', hsum', hsummable'⟩
    · rintro ⟨-, ⟨sum, hsum, hsummable⟩, hchanged⟩
      have hlength : (formatHex (sum.tmod 256)).length = csumLen := by
        rw [length_formatHex, if_pos hsummable]
      refine ⟨_, ⟨.packet, some data, formatHex (sum.tmod 256)⟩,
        serializeData_eq_ok_iff.mpr ⟨sum, hsum, hsummable, rfl⟩, parseStage1_packet mpc hchars hlength,
        rfl, rfl, isValid_eq_ok_iff.mpr ⟨sum, hsum, hsummable, beq_self_eq_true _⟩,
        fun data' hdata' ↦ ?_⟩
      obtain ⟨sum', hsum', hsummable'⟩ := hchanged data' hdata'
      refine isValid_eq_ok_iff.mpr ⟨sum', hsum', hsummable', beq_eq_false_iff_ne.mpr ?_⟩
      exact formatHex_ne_of_changed hdata' hsum hsummable hsum' hsummable'
  · refine iff_of_false ?_ fun h ↦ Kind.noConfusion h.1
    rintro ⟨text, pkt, htext, hparse, -⟩
    obtain ⟨sum, -, -, rfl⟩ := serializeData_eq_ok_iff.mp htext
    rw [List.cons_append, parseStage1_notify] at hparse
    cases hparse

instance (data : List (BitVec 8)) : Decidable (Summable data) :=
  match h : sumChars data with
  | .ok sum => decidable_of_iff (0 ≤ sum ∨ (256 : Int) ∣ sum)
      ⟨fun hsum ↦ ⟨sum, h, hsum⟩, fun hsum ↦ by
        obtain ⟨sum', h', hsum'⟩ := hsum
        cases h.symm.trans h'
        exact hsum'⟩
  | .error e => .isFalse fun hsum ↦ by
      obtain ⟨sum', h', -⟩ := hsum
      cases h.symm.trans h'

theorem packet_roundTrip_text : RoundTrip .functional .packet ("abc".toList.map chr) := by
  refine (packet_roundTrip_iff .functional (.inl rfl) (by decide)).mpr ⟨rfl, by decide, ?_⟩
  intro data' hchanged
  obtain ⟨d, -, hd, -, hsum⟩ := sum_of_changed hchanged
  have htext : (("abc".toList.map chr).map BitVec.toInt).sum = 294 := by decide
  refine ⟨_, sumChars_of_length ?_, .inl ?_⟩
  · rw [length_of_changed hchanged]
    decide
  · rw [hsum, htext]
    omega

/-- A notification is not parsed, and a packet with a byte from 128 on is not even serialized. -/
theorem not_packet_roundTrip : ¬ RoundTrip .functional .notify ("Stop".toList.map chr) ∧
    ¬ RoundTrip .functional .packet [0xFF#8] := by
  constructor
  · rintro ⟨text, pkt, htext, hparse, -⟩
    obtain ⟨sum, -, -, rfl⟩ := serializeData_eq_ok_iff.mp htext
    cases hparse
  · rintro ⟨text, pkt, htext, -⟩
    have hexit : serialize .packet (some [0xFF#8]) =
      .error (.exit "insufficient snprintf buffer size") := by decide
    cases hexit.symm.trans htext

end RoundTrips

end Packet

end CoverageVP.Gdb
