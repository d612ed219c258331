import CoverageVP.Lib.Bytes
import CoverageVP.Lib.Checks
import Mathlib.Data.Bool.AllAny

/-!
# Memory accesses of the debugger

The debugger reads and writes memory as text with two hexadecimal digits for each byte, through
transactions that the memory may refuse.
-/

namespace CoverageVP.Gdb

open Lib

/-! ## Text -/

def isSpace (c : Char) : Bool := c = ' ' || '\t' ≤ c && c ≤ '\r'

/-- The value of a hexadecimal digit. -/
def digitValue (c : Char) : Option Nat :=
  if '0' ≤ c ∧ c ≤ '9' then some (c.toNat - '0'.toNat)
  else if 'a' ≤ c ∧ c ≤ 'f' then some (c.toNat - 'a'.toNat + 10)
  else if 'A' ≤ c ∧ c ≤ 'F' then some (c.toNat - 'A'.toNat + 10)
  else none

/-- The number at the start of a text. -/
def digitsValue (acc : Nat) : List Char → Nat
  | [] => acc
  | c :: text =>
    match digitValue c with
    | some d => digitsValue (16 * acc + d) text
    | none => acc

/-- A prefix of hexadecimal numbers is skipped if a digit follows. -/
def skipMark : List Char → List Char
  | '0' :: x :: d :: text =>
    if (x = 'x' ∨ x = 'X') ∧ (digitValue d).isSome then d :: text else '0' :: x :: d :: text
  | text => text

/-- `strtol` with the base 16, for texts that are too short for an overflow. -/
def strtol (text : List Char) : Int :=
  match text.dropWhile isSpace with
  | '-' :: text => -(digitsValue 0 (skipMark text) : Int)
  | '+' :: text => digitsValue 0 (skipMark text)
  | text => digitsValue 0 (skipMark text)

def hexDigits : List Char :=
  ['0', '1', '2', '3', '4', '5', '6', '7', '8', '9', 'a', 'b', 'c', 'd', 'e', 'f']

/-- A digit of a byte as it is printed. -/
def hexDigit (d : Nat) : Char := hexDigits.getD d '0'

/-- A byte is printed with a leading zero. -/
def hexByte (byte : BitVec 8) : List Char := [hexDigit (byte.toNat / 16), hexDigit (byte.toNat % 16)]

/-! ## Memory -/

/-- The memory, and how many bytes of an access it transfers unless it reports an error. -/
structure DebugTarget where
  mem : Bytes
  transfers : Nat → Nat → Option Nat

/-- The assertions, on: the length of a text, the number of bytes in it, their values, and the bytes that
are transferred. -/
inductive DebugAssertion
  | even | size | byte | allRead | allWritten
  deriving DecidableEq, Repr

/-- How an access fails. -/
inductive DebugFault
  | assertion (what : DebugAssertion)
  | runtimeError (what : String)
  | outOfRange
  deriving DecidableEq, Repr

namespace DebugTarget

variable (t : DebugTarget)

def doDbgTransaction (addr numBytes : Nat) : Except DebugFault Nat :=
  match t.transfers addr numBytes with
  | some nbytes => .ok nbytes
  | none => .error (.runtimeError "debug transaction failed")

def readMemory (start nbytes : Nat) : Except DebugFault (List Char) := do
  let nbytesRead ← t.doDbgTransaction start nbytes
  require (nbytesRead = nbytes) (.assertion .allRead)
  return (t.mem.read start nbytes).flatMap hexByte

/-- An element of a text or of a buffer. -/
def element {α : Type} (l : List α) (i : Nat) : Except DebugFault α :=
  match l[i]? with
  | some a => .ok a
  | none => .error .outOfRange

/-- The loop that converts a text to bytes. -/
def convert (nbytes : Nat) (data : List Char) (j i : Nat) (buf : List (BitVec 8)) :
    Except DebugFault (List (BitVec 8)) :=
  if i + 1 < nbytes then do
    let first ← element data i
    let second ← element data (i + 1)
    let num := strtol [first, second]
    require (0 ≤ num ∧ num ≤ 255) (.assertion .byte)
    require (j < buf.length) .outOfRange
    convert nbytes data (j + 1) (i + 2) (buf.set j (BitVec.ofInt 8 num))
  else return buf
termination_by nbytes - i

def writeMemory (start nbytes : Nat) (data : List Char) : Except DebugFault DebugTarget := do
  require (data.length % 2 = 0) (.assertion .even)
  require (data.length / 2 = nbytes) (.assertion .size)
  let buf ← convert nbytes data 0 0 (List.replicate (data.length / 2) 0#8)
  let nbytesWrite ← t.doDbgTransaction start buf.length
  require (nbytesWrite = nbytes) (.assertion .allWritten)
  return { t with mem := t.mem.write start buf }

/-- The byte of two digits. -/
def byteOf (first second : Char) : BitVec 8 := BitVec.ofInt 8 (strtol [first, second])

/-- The bytes of a text. -/
def packed : List Char → List (BitVec 8)
  | [] => []
  | [_] => []
  | first :: second :: text => byteOf first second :: packed text

/-- Two digits are a byte, which is printed as these digits. -/
theorem strtol_of_digits : ∀ first ∈ hexDigits, ∀ second ∈ hexDigits,
    (0 ≤ strtol [first, second] ∧ strtol [first, second] ≤ 255) ∧
      hexByte (byteOf first second) = [first, second] := by
  have hall : hexDigits.all fun first ↦ hexDigits.all fun second ↦
      decide ((0 ≤ strtol [first, second] ∧ strtol [first, second] ≤ 255) ∧
        hexByte (byteOf first second) = [first, second]) := by
    decide +kernel
  intro first hfirst second hsecond
  have hfirst := List.all_eq_true.mp hall first hfirst
  exact of_decide_eq_true (List.all_eq_true.mp hfirst second hsecond)

theorem length_packed (text : List Char) : (packed text).length = text.length / 2 := by
  induction text using packed.induct with
  | case1 => rfl
  | case2 c => rw [packed, List.length_singleton, List.length_nil]
  | case3 first second text ih =>
    rw [packed, List.length_cons, ih, List.length_cons, List.length_cons]
    omega

/-- The digits of a text of digits are printed again. -/
theorem flatMap_packed {text : List Char} (heven : text.length % 2 = 0)
    (hdigits : ∀ c ∈ text, c ∈ hexDigits) : (packed text).flatMap hexByte = text := by
  induction text using packed.induct with
  | case1 => rfl
  | case2 c => cases heven
  | case3 first second text ih =>
    have hfirst := hdigits first List.mem_cons_self
    have hsecond := hdigits second (List.mem_cons_of_mem _ List.mem_cons_self)
    rw [List.length_cons, List.length_cons] at heven
    rw [packed, List.flatMap_cons, (strtol_of_digits first hfirst second hsecond).2,
      ih (by omega) fun c hc ↦ hdigits c (List.mem_cons_of_mem _ (List.mem_cons_of_mem _ hc))]
    rfl

theorem packed_append {text : List Char} (heven : text.length % 2 = 0) (first second : Char) :
    packed (text ++ [first, second]) = packed text ++ [byteOf first second] := by
  induction text using packed.induct with
  | case1 => rfl
  | case2 c => cases heven
  | case3 a b text ih =>
    rw [List.length_cons, List.length_cons] at heven
    rw [List.cons_append, List.cons_append, packed, ih (by omega), packed, List.cons_append]

/-! ## Conversions -/

section Conversions

variable {n : Nat} {data : List Char}

/-- The first bytes are those of the text, and the other ones are zero. -/
def halfPacked (data : List Char) (n j : Nat) : List (BitVec 8) :=
  packed (data.take (2 * j)) ++ List.replicate (n - j) 0#8

theorem length_halfPacked (hlength : data.length = 2 * n) {j : Nat} (hj : j ≤ n) :
    (halfPacked data n j).length = n := by
  rw [halfPacked, List.length_append, length_packed, List.length_take, List.length_replicate]
  omega

/-- An iteration of the loop converts one more byte. -/
theorem set_halfPacked (hlength : data.length = 2 * n) {j : Nat} (hj : j < n)
    (hfirst : 2 * j < data.length) (hsecond : 2 * j + 1 < data.length) :
    (halfPacked data n j).set j (byteOf data[2 * j] data[2 * j + 1]) = halfPacked data n (j + 1) := by
  have htake : data.take (2 * (j + 1)) = data.take (2 * j) ++ [data[2 * j], data[2 * j + 1]] := by
    calc data.take (2 * (j + 1))
        = data.take (2 * j + 1) ++ [data[2 * j + 1]] := (List.take_append_getElem hsecond).symm
      _ = data.take (2 * j) ++ [data[2 * j]] ++ [data[2 * j + 1]] := by
        rw [List.take_append_getElem hfirst]
      _ = data.take (2 * j) ++ [data[2 * j], data[2 * j + 1]] := by
        rw [List.append_assoc, List.singleton_append]
  have heven : (data.take (2 * j)).length % 2 = 0 := by
    rw [List.length_take]
    omega
  have hpacked : (packed (data.take (2 * j))).length = j := by
    rw [length_packed, List.length_take]
    omega
  have hzeros : n - j = (n - (j + 1)) + 1 := by omega
  rw [halfPacked, halfPacked, htake, packed_append heven, hzeros, List.replicate_succ,
    List.set_append, if_neg (by omega), hpacked, Nat.sub_self, List.set_cons_zero, List.append_assoc,
    List.singleton_append]

theorem element_eq {i : Nat} (h : i < data.length) : element data i = .ok data[i] := by
  rw [element, List.getElem?_eq_getElem h]

variable (hdigits : ∀ c ∈ data, c ∈ hexDigits) (hlength : data.length = 2 * n)

include hdigits hlength

/-- The loop stops after half of the bytes. -/
theorem convert_halfPacked {j : Nat} (hj : j ≤ n / 2) :
    convert n data j (2 * j) (halfPacked data n j) = .ok (halfPacked data n (n / 2)) := by
  induction h : n / 2 - j generalizing j with
  | zero =>
    obtain rfl : j = n / 2 := by omega
    rw [convert, if_neg (by omega)]
    rfl
  | succ k ih =>
    have hfirst : 2 * j < data.length := by omega
    have hsecond : 2 * j + 1 < data.length := by omega
    obtain ⟨hnum, -⟩ := strtol_of_digits _ (hdigits _ (List.getElem_mem hfirst)) _
      (hdigits _ (List.getElem_mem hsecond))
    have hindex : j < (halfPacked data n j).length := by
      rw [length_halfPacked hlength (by omega)]
      omega
    rw [convert, if_pos (by omega), element_eq hfirst, element_eq hsecond]
    dsimp only [bind, Except.bind]
    rw [require_of hnum, require_of hindex, ← byteOf,
      set_halfPacked hlength (by omega) hfirst hsecond]
    exact ih (j := j + 1) (by omega) (by omega)

/-- The first half of the bytes is printed as it has been written, and the other half as zeros. -/
theorem flatMap_halfPacked : (halfPacked data n (n / 2)).flatMap hexByte =
    data.take (2 * (n / 2)) ++ List.replicate (2 * (n - n / 2)) '0' := by
  have heven : (data.take (2 * (n / 2))).length % 2 = 0 := by
    rw [List.length_take]
    omega
  have hzeros (k : Nat) : (List.replicate k 0#8).flatMap hexByte = List.replicate (2 * k) '0' := by
    induction k with
    | zero => rfl
    | succ k ih =>
      rw [List.replicate_succ, List.flatMap_cons, ih]
      rfl
  rw [halfPacked, List.flatMap_append, hzeros,
    flatMap_packed heven fun c hc ↦ hdigits c (List.mem_of_mem_take hc)]

theorem flatMap_halfPacked_eq_iff : (halfPacked data n (n / 2)).flatMap hexByte = data ↔
    ∀ c ∈ data.drop (2 * (n / 2)), c = '0' := by
  have hsplit := List.take_append_drop (2 * (n / 2)) data
  have hdrop : (data.drop (2 * (n / 2))).length = 2 * (n - n / 2) := by
    rw [List.length_drop]
    omega
  rw [flatMap_halfPacked hdigits hlength]
  constructor
  · intro h
    have heq := List.append_cancel_left (h.trans hsplit.symm)
    exact (List.eq_replicate_iff.mp heq.symm).2
  · intro h
    have heq : data.drop (2 * (n / 2)) = List.replicate (2 * (n - n / 2)) '0' :=
      List.eq_replicate_iff.mpr ⟨hdrop, h⟩
    rw [← heq]
    exact hsplit

end Conversions

/-- What is written is read again, and the bytes around it are unchanged. -/
def RoundTrip (start nbytes : Nat) (data : List Char) : Prop :=
  ∃ t', t.writeMemory start nbytes data = .ok t' ∧ t'.readMemory start nbytes = .ok data ∧
    ∀ b, b < start ∨ start + nbytes ≤ b → t'.mem b = t.mem b

variable {t}

theorem readMemory_eq {start n : Nat} (h : t.transfers start n = some n) :
    t.readMemory start n = .ok ((t.mem.read start n).flatMap hexByte) := by
  rw [readMemory, doDbgTransaction, h]
  exact require_bind_of rfl

theorem writeMemory_eq {start n : Nat} {data : List Char} (h : t.transfers start n = some n)
    (hdigits : ∀ c ∈ data, c ∈ hexDigits) (hlength : data.length = 2 * n) :
    t.writeMemory start n data =
      .ok { t with mem := t.mem.write start (halfPacked data n (n / 2)) } := by
  have hconvert : convert n data 0 0 (List.replicate (data.length / 2) 0#8) =
      .ok (halfPacked data n (n / 2)) := by
    have hzeros : List.replicate (data.length / 2) 0#8 = halfPacked data n 0 := by
      rw [hlength, Nat.mul_div_cancel_left n (by decide)]
      rfl
    rw [hzeros]
    exact convert_halfPacked hdigits hlength (Nat.zero_le _)
  have hsize := length_halfPacked hlength (Nat.div_le_self n 2)
  rw [writeMemory, require_bind_of (by omega), require_bind_of (by omega), hconvert]
  dsimp only [bind, Except.bind]
  rw [hsize, doDbgTransaction, h]
  exact require_bind_of rfl

/-- On memory that accepts the range, text of digits is written and read again if and only if the
digits of the second half of the bytes are zeros. -/
theorem roundTrip_iff {start n : Nat} {data : List Char} (haccepts : t.transfers start n = some n)
    (hdigits : ∀ c ∈ data, c ∈ hexDigits) (hlength : data.length = 2 * n) :
    t.RoundTrip start n data ↔ ∀ c ∈ data.drop (2 * (n / 2)), c = '0' := by
  have hwrite := writeMemory_eq haccepts hdigits hlength
  have hsize := length_halfPacked hlength (Nat.div_le_self n 2)
  have hread : (DebugTarget.mk (t.mem.write start (halfPacked data n (n / 2)))
      t.transfers).readMemory start n = .ok ((halfPacked data n (n / 2)).flatMap hexByte) := by
    have hmem := t.mem.read_write start (halfPacked data n (n / 2))
    rw [hsize] at hmem
    have heq := readMemory_eq (t := ⟨t.mem.write start (halfPacked data n (n / 2)), t.transfers⟩) haccepts
    rw [hmem] at heq
    exact heq
  rw [← flatMap_halfPacked_eq_iff hdigits hlength]
  constructor
  · rintro ⟨t', ht', hdata, -⟩
    cases hwrite.symm.trans ht'
    exact Except.ok.inj (hread.symm.trans hdata)
  · intro h
    refine ⟨_, hwrite, hread.trans (congrArg _ h), fun b hb ↦ ?_⟩
    rcases hb with hb | hb
    · exact Bytes.write_of_lt _ _ hb
    · exact Bytes.write_of_ge _ _ (by rw [hsize]; exact hb)

/-- Memory that accepts every access. -/
def wholeMemory : DebugTarget := ⟨fun _ ↦ 0#8, fun _ numBytes ↦ some numBytes⟩

theorem roundTrip_leading : wholeMemory.RoundTrip 0x1000 2 ['1', '2', '0', '0'] := by
  have hdigits : ∀ c ∈ ['1', '2', '0', '0'], c ∈ hexDigits := List.all_iff_forall_prop.mp rfl
  have hzeros : ∀ c ∈ ['0', '0'], c = '0' := List.all_iff_forall_prop.mp rfl
  exact (roundTrip_iff rfl hdigits rfl).mpr hzeros

/-- A single byte is never converted. -/
theorem not_roundTrip : ¬ wholeMemory.RoundTrip 0x1000 1 ['1', '2'] := by
  rintro ⟨t', hwrite, hread, -⟩
  have hwritten : wholeMemory.writeMemory 0x1000 1 ['1', '2'] =
      .ok { wholeMemory with mem := wholeMemory.mem.write 0x1000 [0#8] } :=
    writeMemory_eq rfl (List.all_iff_forall_prop.mp rfl) rfl
  cases hwritten.symm.trans hwrite
  have hzeros := hread.symm.trans (readMemory_eq rfl)
  exact absurd (Except.ok.inj hzeros) (by decide)

end DebugTarget

end CoverageVP.Gdb
