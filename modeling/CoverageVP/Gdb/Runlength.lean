import CoverageVP.Gdb.Packet
import Mathlib.Data.List.Chain

/-!
# Runs and escapes in packets

The data of a packet may abbreviate runs of a character by the character, a star and the number of
repetitions as a character. In the data that is not abbreviated, special characters are escaped. The
decoder keeps the character of a run in a variable of its own, whose value -1 stands for no run.
-/

namespace CoverageVP.Gdb

open Lib

/-! ## Output -/

/-- The output with the bytes that are allocated for it, and how many of them remain. -/
structure Buffer where
  data : List (BitVec 8)
  capacity : Nat
  nrem : Nat

namespace Buffer

/-- A buffer grows by this number of bytes. -/
def runlenStep : Nat := 32

variable (b : Buffer)

/-- The buffer is enlarged if nothing remains. -/
def reserve : Buffer :=
  if b.nrem = 0 then { b with capacity := b.data.length + runlenStep, nrem := runlenStep - 1 }
  else { b with nrem := b.nrem - 1 }

/-- A character is written. It must not be negative, and must be within the allocated bytes. -/
def push (runlen : Int) : Except PacketFault Buffer := do
  let b := b.reserve
  require (0 ≤ runlen ∧ runlen ≤ 127) .assertion
  require (b.data.length < b.capacity) .undefined
  return { b with data := b.data ++ [BitVec.ofInt 8 runlen] }

def pushes (runlen : Int) : Nat → Buffer → Except PacketFault Buffer
  | 0, b => .ok b
  | rcount + 1, b => do
    let b ← b.push runlen
    pushes runlen rcount b

/-- What remains is what is allocated and not used. -/
def Fits : Prop := b.capacity = b.data.length + b.nrem

variable {b} {runlen : Int}

theorem push_spec (hb : b.Fits) (hr : 0 ≤ runlen ∧ runlen ≤ 127) :
    ∃ b', b.push runlen = .ok b' ∧ b'.data = b.data ++ [BitVec.ofInt 8 runlen] ∧ b'.Fits := by
  have hdata : b.reserve.data = b.data := by
    unfold reserve
    split <;> rfl
  have hreserve : b.reserve.capacity = b.data.length + 1 + b.reserve.nrem := by
    have hcapacity : b.capacity = b.data.length + b.nrem := hb
    have hstep : runlenStep = 32 := rfl
    unfold reserve
    split <;> dsimp only <;> omega
  have hlt : b.reserve.data.length < b.reserve.capacity := by
    rw [hdata]
    omega
  refine ⟨{ b.reserve with data := b.reserve.data ++ [BitVec.ofInt 8 runlen] }, ?_, ?_, ?_⟩
  · rw [push, require_bind_of hr, require_bind_of hlt]
    rfl
  · dsimp only
    rw [hdata]
  · rw [Fits, List.length_append, List.length_singleton, hdata]
    exact hreserve

theorem push_of_not (hr : ¬ (0 ≤ runlen ∧ runlen ≤ 127)) : b.push runlen = .error .assertion := by
  rw [push, require, if_neg hr]
  rfl

theorem pushes_spec (hb : b.Fits) (hr : 0 ≤ runlen ∧ runlen ≤ 127) (rcount : Nat) :
    ∃ b', pushes runlen rcount b = .ok b' ∧
      b'.data = b.data ++ List.replicate rcount (BitVec.ofInt 8 runlen) ∧ b'.Fits := by
  induction rcount generalizing b with
  | zero => exact ⟨b, rfl, (List.append_nil _).symm, hb⟩
  | succ rcount ih =>
    obtain ⟨b₁, hpush, hdata, hfits⟩ := push_spec hb hr
    obtain ⟨b', hpushes, hdata', hfits'⟩ := ih hfits
    refine ⟨b', ?_, ?_, hfits'⟩
    · rw [pushes, hpush]
      exact hpushes
    · rw [hdata', hdata, List.append_assoc, List.singleton_append, List.replicate_succ]

theorem pushes_of_not (hr : ¬ (0 ≤ runlen ∧ runlen ≤ 127)) (rcount : Nat) :
    pushes runlen (rcount + 1) b = .error .assertion := by
  rw [pushes, push_of_not hr]
  rfl

end Buffer

/-! ## Runs -/

namespace Runlength

def runlenChar : BitVec 8 := chr '*'

def runlenOff : Int := 29

/-- The character that is repeated, and how often. -/
def runOf (runlen : Int) (c : BitVec 8) : Option (Int × Nat) :=
  if runlen = -1 then some (c.toInt, 1)
  else if c.toInt - runlenOff ≤ 0 then none
  else some (runlen, (c.toInt - runlenOff).toNat)

/-- The loop of the decoder, after a character. Nothing is returned for text that is rejected. -/
def decodeLoop (prev : Option (BitVec 8)) (runlen : Int) (b : Buffer) :
    List (BitVec 8) → Except PacketFault (Option Buffer)
  | [] => .ok (some b)
  | c :: text =>
    if c = runlenChar then
      match prev with
      | none => .ok none
      | some p => decodeLoop (some c) p.toInt b text
    else
      match runOf runlen c with
      | none => .ok none
      | some (symbol, rcount) => do
        let b ← b.pushes symbol rcount
        decodeLoop (some c) (-1) b text

def decodeRunlen (data : List (BitVec 8)) : Except PacketFault (Option (List (BitVec 8))) := do
  let result ← decodeLoop none (-1) ⟨[], data.length, data.length⟩ data
  return result.map Buffer.data

/-- What the decoder appends to its output. -/
def expand (prev : Option (BitVec 8)) (runlen : Int) :
    List (BitVec 8) → Except PacketFault (Option (List (BitVec 8)))
  | [] => .ok (some [])
  | c :: text =>
    if c = runlenChar then
      match prev with
      | none => .ok none
      | some p => expand (some c) p.toInt text
    else
      match runOf runlen c with
      | none => .ok none
      | some (symbol, rcount) => do
        require (0 ≤ symbol ∧ symbol ≤ 127) .assertion
        let rest ← expand (some c) (-1) text
        return rest.map (List.replicate rcount (BitVec.ofInt 8 symbol) ++ ·)

section Buffers

variable {prev : Option (BitVec 8)} {runlen : Int} {b : Buffer} {c : BitVec 8}

theorem runOf_pos {run : Int × Nat} (h : runOf runlen c = some run) : ∃ k, run.2 = k + 1 := by
  unfold runOf at h
  split at h
  case isTrue =>
    cases h
    exact ⟨0, rfl⟩
  case isFalse =>
    split at h
    case isTrue => cases h
    case isFalse hpos =>
      cases h
      exact ⟨(c.toInt - runlenOff).toNat - 1, by dsimp only; omega⟩

theorem decodeLoop_of_ne (hc : c ≠ runlenChar) (text : List (BitVec 8)) :
    decodeLoop prev runlen b (c :: text) =
      (match runOf runlen c with
      | none => .ok none
      | some (symbol, rcount) => do
        let b ← b.pushes symbol rcount
        decodeLoop (some c) (-1) b text) := by
  rw [decodeLoop.eq_def]
  exact if_neg hc

theorem expand_of_ne (hc : c ≠ runlenChar) (text : List (BitVec 8)) :
    expand prev runlen (c :: text) =
      (match runOf runlen c with
      | none => .ok none
      | some (symbol, rcount) => do
        require (0 ≤ symbol ∧ symbol ≤ 127) .assertion
        let rest ← expand (some c) (-1) text
        return rest.map (List.replicate rcount (BitVec.ofInt 8 symbol) ++ ·)) := by
  rw [expand.eq_def]
  exact if_neg hc

/-- The allocation does not matter. -/
theorem decodeLoop_eq (hb : b.Fits) (text : List (BitVec 8)) :
    (do
      let result ← decodeLoop prev runlen b text
      return result.map Buffer.data) =
    (do
      let rest ← expand prev runlen text
      return rest.map (b.data ++ ·)) := by
  induction text generalizing prev runlen b with
  | nil =>
    change Except.ok (some b.data) = Except.ok (some (b.data ++ []))
    rw [List.append_nil]
  | cons c text ih =>
    by_cases hstar : c = runlenChar
    · subst hstar
      cases prev with
      | none => rfl
      | some p => exact ih hb
    · rw [decodeLoop_of_ne hstar, expand_of_ne hstar]
      cases hrun : runOf runlen c with
      | none => rfl
      | some run =>
        obtain ⟨symbol, rcount⟩ := run
        dsimp only
        by_cases hsymbol : 0 ≤ symbol ∧ symbol ≤ 127
        · obtain ⟨b', hpushes, hdata, hfits⟩ := Buffer.pushes_spec hb hsymbol rcount
          rw [hpushes, require_bind_of hsymbol]
          refine (ih hfits).trans ?_
          rw [hdata]
          cases expand (some c) (-1) text with
          | error e => rfl
          | ok rest =>
            cases rest with
            | none => rfl
            | some rest =>
              exact congrArg (fun text ↦ Except.ok (some text)) (List.append_assoc _ _ _)
        · obtain ⟨k, hk⟩ := runOf_pos hrun
          dsimp only at hk
          rw [hk, Buffer.pushes_of_not hsymbol, require, if_neg hsymbol]
          rfl

theorem decodeRunlen_eq (data : List (BitVec 8)) : decodeRunlen data = expand none (-1) data := by
  have hfits : (Buffer.mk [] data.length data.length).Fits := (Nat.zero_add _).symm
  refine (decodeLoop_eq hfits data).trans ?_
  cases expand none (-1) data with
  | error e => rfl
  | ok rest =>
    cases rest with
    | none => rfl
    | some rest => rfl

/-- The only failure of the decoder is the assertion on the sign of a character. -/
theorem expand_ne_undefined (text : List (BitVec 8)) :
    expand prev runlen text ≠ .error .undefined := by
  induction text generalizing prev runlen with
  | nil =>
    intro h
    cases h
  | cons c text ih =>
    by_cases hstar : c = runlenChar
    · subst hstar
      cases prev with
      | none =>
        intro h
        cases h
      | some p => exact ih
    · rw [expand_of_ne hstar]
      split
      case h_1 =>
        intro h
        cases h
      case h_2 symbol rcount _ =>
        by_cases hsymbol : 0 ≤ symbol ∧ symbol ≤ 127
        · rw [require_bind_of hsymbol]
          intro h
          cases hrest : expand (some c) (-1) text with
          | error e =>
            rw [hrest] at h
            cases h
            exact ih hrest
          | ok rest =>
            rw [hrest] at h
            cases h
        · rw [require, if_neg hsymbol]
          intro h
          cases h

end Buffers

def escapeChar : BitVec 8 := chr '}'

def escapeByte : BitVec 8 := 0x20#8

/-- The loop that resolves escapes into a buffer of a given size. -/
def unescapeLoop (capacity : Nat) (esc : Bool) (ndat : List (BitVec 8)) :
    List (BitVec 8) → Except PacketFault (List (BitVec 8))
  | [] => .ok ndat
  | c :: data =>
    if c = escapeChar then unescapeLoop capacity true ndat data
    else do
      require (ndat.length < capacity) .undefined
      unescapeLoop capacity false (ndat ++ [if esc then c ^^^ escapeByte else c]) data

def unescape (data : List (BitVec 8)) : Except PacketFault (List (BitVec 8)) :=
  unescapeLoop data.length false [] data

/-- The text without escapes. -/
def plain (esc : Bool) : List (BitVec 8) → List (BitVec 8)
  | [] => []
  | c :: data =>
    if c = escapeChar then plain true data
    else (if esc then c ^^^ escapeByte else c) :: plain false data

/-- The buffer is as large as the text. -/
theorem unescapeLoop_eq {capacity : Nat} {esc : Bool} {ndat : List (BitVec 8)}
    (data : List (BitVec 8)) (h : ndat.length + data.length ≤ capacity) :
    unescapeLoop capacity esc ndat data = .ok (ndat ++ plain esc data) := by
  induction data generalizing esc ndat with
  | nil => rw [unescapeLoop, plain, List.append_nil]
  | cons c data ih =>
    rw [List.length_cons] at h
    rw [unescapeLoop, plain]
    split
    case isTrue => exact ih (by omega)
    case isFalse =>
      rw [require_bind_of (by omega), ih (by rw [List.length_append, List.length_singleton]; omega),
        List.append_assoc, List.singleton_append]

theorem unescape_eq (data : List (BitVec 8)) : unescape data = .ok (plain false data) :=
  unescapeLoop_eq data (Nat.zero_add _).le

/-! ## Encodings -/

/-- The characters that are escaped. -/
def isSpecial (c : BitVec 8) : Bool := [chr '#', chr '$', chr '}', chr '*'].contains c

theorem isSpecial_iff {c : BitVec 8} :
    isSpecial c = true ↔ c ∈ [chr '#', chr '$', chr '}', chr '*'] :=
  List.contains_iff_mem

def escapeOf (c : BitVec 8) : List (BitVec 8) :=
  if isSpecial c then [escapeChar, c ^^^ escapeByte] else [c]

/-- The text with its special characters escaped. -/
def escaped (s : List (BitVec 8)) : List (BitVec 8) := s.flatMap escapeOf

/-- The character for a number of repetitions. -/
def countChar (n : Nat) : BitVec 8 := BitVec.ofNat 8 (n + 29)

/-- The encodings of a text: any of its runs may be abbreviated. -/
inductive Encodes : List (BitVec 8) → List (BitVec 8) → Prop
  | nil : Encodes [] []
  | char (c : BitVec 8) {t e : List (BitVec 8)} : Encodes t e → Encodes (c :: t) (c :: e)
  | run (c : BitVec 8) {n : Nat} {t e : List (BitVec 8)} (hmin : 3 ≤ n) (hmax : n + 29 ≤ 126)
      (hhash : countChar n ≠ chr '#') (hdollar : countChar n ≠ chr '$') :
      Encodes t e → Encodes (List.replicate (n + 1) c ++ t) (c :: runlenChar :: countChar n :: e)

/-- No star follows another one. -/
def StarsApart (e : List (BitVec 8)) : Prop :=
  e.IsChain fun first second ↦ ¬ (first = runlenChar ∧ second = runlenChar)

section Encodings

variable {s t e : List (BitVec 8)} {c : BitVec 8}

theorem escapeOf_cases (c : BitVec 8) :
    (escapeOf c = [c] ∧ c ≠ runlenChar ∧ c ≠ escapeChar) ∨
      ∃ x, escapeOf c = [escapeChar, x] ∧ x ^^^ escapeByte = c ∧ x ≠ runlenChar ∧ x ≠ escapeChar ∧
        c < 0x80#8 := by
  unfold escapeOf
  split
  case isTrue h =>
    have hmem : c ∈ [chr '#', chr '$', chr '}', chr '*'] := isSpecial_iff.mp h
    simp only [List.mem_cons, List.not_mem_nil, or_false] at hmem
    rcases hmem with rfl | rfl | rfl | rfl <;>
      exact .inr ⟨_, rfl, by decide, by decide, by decide, by decide⟩
  case isFalse h =>
    refine .inl ⟨rfl, ?_, ?_⟩
    · rintro rfl
      exact h (by decide)
    · rintro rfl
      exact h (by decide)

theorem runlenChar_notMem_escaped (s : List (BitVec 8)) : runlenChar ∉ escaped s := by
  intro hmem
  obtain ⟨c, -, hc⟩ := List.mem_flatMap.mp hmem
  rcases escapeOf_cases c with ⟨heq, hstar, -⟩ | ⟨x, heq, -, hstar, -⟩
  · rw [heq, List.mem_singleton] at hc
    exact hstar hc.symm
  · rw [heq, List.mem_cons, List.mem_singleton] at hc
    rcases hc with hc | hc
    · exact absurd hc (by decide)
    · exact hstar hc.symm

theorem plain_escaped (s : List (BitVec 8)) : plain false (escaped s) = s := by
  induction s with
  | nil => rfl
  | cons c s ih =>
    rw [escaped, List.flatMap_cons]
    rcases escapeOf_cases c with ⟨heq, -, hesc⟩ | ⟨x, heq, hxor, -, hesc, -⟩
    · rw [heq, List.singleton_append, plain, if_neg hesc]
      exact congrArg (c :: ·) ih
    · rw [heq, List.cons_append, List.singleton_append, plain, if_pos rfl, plain, if_neg hesc,
        if_pos rfl, hxor]
      exact congrArg (c :: ·) ih

/-- No escape is escaped by another one. -/
theorem escapes_apart (s : List (BitVec 8)) :
    (escaped s).IsChain fun first second ↦ ¬ (first = escapeChar ∧ second = escapeChar) := by
  induction s with
  | nil => exact List.isChain_nil
  | cons c s ih =>
    rw [escaped, List.flatMap_cons]
    rcases escapeOf_cases c with ⟨heq, -, hesc⟩ | ⟨x, heq, -, -, hesc, -⟩
    · rw [heq, List.singleton_append, List.isChain_cons]
      exact ⟨fun _ _ h ↦ hesc h.1, ih⟩
    · rw [heq, List.cons_append, List.singleton_append, List.isChain_cons_cons, List.isChain_cons]
      exact ⟨fun h ↦ hesc h.2, fun _ _ h ↦ hesc h.1, ih⟩

theorem ascii_of_escaped : (∀ c ∈ escaped s, c < 0x80#8) ↔ ∀ c ∈ s, c < 0x80#8 := by
  constructor
  · intro h c hc
    rcases escapeOf_cases c with ⟨heq, -⟩ | ⟨x, -, -, -, -, hlt⟩
    · exact h c (List.mem_flatMap.mpr ⟨c, hc, heq ▸ List.mem_singleton_self c⟩)
    · exact hlt
  · intro h x hx
    obtain ⟨c, hc, hx⟩ := List.mem_flatMap.mp hx
    have hlt := h c hc
    unfold escapeOf at hx
    split at hx
    case isTrue hspecial =>
      have hmem : c ∈ [chr '#', chr '$', chr '}', chr '*'] := isSpecial_iff.mp hspecial
      simp only [List.mem_cons, List.not_mem_nil, or_false] at hmem hx
      rcases hmem with rfl | rfl | rfl | rfl <;> rcases hx with rfl | rfl <;> decide
    case isFalse =>
      rw [List.mem_singleton] at hx
      exact hx ▸ hlt

/-- A character that is no escape ends what comes before it. -/
theorem plain_append (hc : c ≠ escapeChar) (esc : Bool) (t : List (BitVec 8)) :
    ∃ u, ∀ rest, plain esc (t ++ c :: rest) = u ++ plain false rest := by
  induction t generalizing esc with
  | nil =>
    refine ⟨[if esc then c ^^^ escapeByte else c], fun rest ↦ ?_⟩
    rw [List.nil_append, plain, if_neg hc, List.singleton_append]
  | cons d t ih =>
    by_cases hd : d = escapeChar
    · obtain ⟨u, hu⟩ := ih true
      refine ⟨u, fun rest ↦ ?_⟩
      rw [List.cons_append, plain, if_pos hd, hu]
    · obtain ⟨u, hu⟩ := ih false
      refine ⟨(if esc then d ^^^ escapeByte else d) :: u, fun rest ↦ ?_⟩
      rw [List.cons_append, plain, if_neg hd, hu, List.cons_append]

/-! ## Decoding of encodings -/

variable {prev : Option (BitVec 8)} {n : Nat}

theorem nonneg_toInt_iff (c : BitVec 8) : (0 ≤ c.toInt ∧ c.toInt ≤ 127) ↔ c < 0x80#8 := by
  have hlt := c.isLt
  rw [BitVec.lt_def, BitVec.toInt_eq_toNat_cond]
  have htop : (0x80#8).toNat = 128 := rfl
  split <;> omega

/-- A character that is not negative is appended. -/
theorem expand_char (hstar : c ≠ runlenChar) (hc : c < 0x80#8) (e : List (BitVec 8)) :
    expand prev (-1) (c :: e) = (do
      let rest ← expand (some c) (-1) e
      return rest.map (c :: ·)) := by
  have hrun : runOf (-1) c = some (c.toInt, 1) := if_pos rfl
  rw [expand_of_ne hstar, hrun]
  dsimp only
  rw [require_bind_of ((nonneg_toInt_iff c).mpr hc), BitVec.ofInt_toInt]
  rfl

theorem expand_char_of_not (hstar : c ≠ runlenChar) (hc : ¬ c < 0x80#8) (e : List (BitVec 8)) :
    expand prev (-1) (c :: e) = .error .assertion := by
  have hrun : runOf (-1) c = some (c.toInt, 1) := if_pos rfl
  rw [expand_of_ne hstar, hrun]
  dsimp only
  rw [require, if_neg (mt (nonneg_toInt_iff c).mp hc)]
  rfl

theorem expand_char_eq_ok (hstar : c ≠ runlenChar) {d : List (BitVec 8)}
    (h : expand prev (-1) (c :: e) = .ok (some d)) :
    c < 0x80#8 ∧ ∃ rest, expand (some c) (-1) e = .ok (some rest) ∧ d = c :: rest := by
  by_cases hc : c < 0x80#8
  · rw [expand_char hstar hc] at h
    obtain ⟨rest, hrest, h⟩ := bind_eq_ok.mp h
    cases rest with
    | none => cases h
    | some rest =>
      cases h
      exact ⟨hc, rest, hrest, rfl⟩
  · rw [expand_char_of_not hstar hc] at h
    cases h

theorem toInt_countChar (hmax : n + 29 ≤ 126) : (countChar n).toInt = n + 29 := by
  have htoNat : (countChar n).toNat = n + 29 := by
    rw [countChar, BitVec.toNat_ofNat]
    omega
  rw [BitVec.toInt_eq_toNat_cond, htoNat, if_pos (by omega)]
  rfl

/-- A star and a number that is not written as a star repeat the character before them. -/
theorem expand_count (hmin : 3 ≤ n) (hmax : n + 29 ≤ 126) (hcount : countChar n ≠ runlenChar)
    (hc : c < 0x80#8) (e : List (BitVec 8)) :
    expand (some c) (-1) (runlenChar :: countChar n :: e) = (do
      let rest ← expand (some (countChar n)) (-1) e
      return rest.map (List.replicate n c ++ ·)) := by
  have hsymbol := (nonneg_toInt_iff c).mpr hc
  have hrun : runOf c.toInt (countChar n) = some (c.toInt, n) := by
    rw [runOf, if_neg (by omega), toInt_countChar hmax, runlenOff, if_neg (by omega)]
    exact congrArg (fun k ↦ some (c.toInt, k)) (by omega)
  change expand (some runlenChar) c.toInt (countChar n :: e) = _
  rw [expand_of_ne hcount, hrun]
  dsimp only
  rw [require_bind_of hsymbol, BitVec.ofInt_toInt]

/-- An encoding does not start with a star. -/
theorem Encodes.head_ne (h : Encodes t e) (ht : runlenChar ∉ t) :
    e = [] ∨ ∃ c e', e = c :: e' ∧ c ≠ runlenChar := by
  cases h with
  | nil => exact .inl rfl
  | char c h => exact .inr ⟨c, _, rfl, fun heq ↦ ht (heq ▸ List.mem_cons_self)⟩
  | run c hmin hmax hhash hdollar h =>
    refine .inr ⟨c, _, rfl, fun heq ↦ ht (List.mem_append_left _ ?_)⟩
    exact List.mem_replicate.mpr ⟨Nat.succ_ne_zero _, heq.symm⟩

/-- Two stars repeat the second one, as often as the next character says. -/
theorem expand_stars (h : Encodes t e) (ht : runlenChar ∉ t) {d : List (BitVec 8)}
    (hd : expand prev runlenChar.toInt e = .ok (some d)) : d = [] ∨ ∃ rest, d = runlenChar :: rest := by
  rcases h.head_ne ht with rfl | ⟨c, e', rfl, hc⟩
  · cases hd
    exact .inl rfl
  · rw [expand_of_ne hc] at hd
    split at hd
    case h_1 => cases hd
    case h_2 symbol rcount hrun =>
      obtain ⟨k, hk⟩ := runOf_pos hrun
      dsimp only at hk
      subst hk
      have hsymbol : symbol = runlenChar.toInt := by
        unfold runOf at hrun
        rw [if_neg (by decide)] at hrun
        split at hrun
        case isTrue => cases hrun
        case isFalse => exact (Prod.mk.inj (Option.some.inj hrun)).1.symm
      obtain ⟨-, hd⟩ := require_bind_eq_ok.mp hd
      obtain ⟨rest, -, hd⟩ := bind_eq_ok.mp hd
      cases rest with
      | none => cases hd
      | some rest =>
        cases hd
        rw [hsymbol, BitVec.ofInt_toInt]
        exact .inr ⟨_, rfl⟩

theorem starsApart_cons (hc : c ≠ runlenChar) : StarsApart (c :: e) ↔ StarsApart e := by
  rw [StarsApart, List.isChain_cons]
  exact and_iff_right fun _ _ h ↦ hc h.1

theorem starsApart_run (hc : c ≠ runlenChar) {k : BitVec 8} :
    StarsApart (c :: runlenChar :: k :: e) ↔ k ≠ runlenChar ∧ StarsApart e := by
  rw [starsApart_cons hc, StarsApart, List.isChain_cons_cons]
  constructor
  · rintro ⟨hk, he⟩
    have hk : k ≠ runlenChar := fun h ↦ hk ⟨rfl, h⟩
    exact ⟨hk, (starsApart_cons hk).mp he⟩
  · rintro ⟨hk, he⟩
    exact ⟨fun h ↦ hk h.2, (starsApart_cons hk).mpr he⟩

/-- An encoding without adjacent stars of a text without negative characters is decoded. -/
theorem expand_of_starsApart (h : Encodes t e) (ht : runlenChar ∉ t)
    (hascii : ∀ c ∈ t, c < 0x80#8) (hstars : StarsApart e) :
    expand prev (-1) e = .ok (some t) := by
  induction h generalizing prev with
  | nil => rfl
  | char c h ih =>
    obtain ⟨hc, ht⟩ := not_or.mp (mt List.mem_cons.mpr ht)
    rw [expand_char (Ne.symm hc) (hascii c List.mem_cons_self),
      ih ht (fun x hx ↦ hascii x (List.mem_cons_of_mem _ hx))
        ((starsApart_cons (Ne.symm hc)).mp hstars)]
    rfl
  | @run c n t e hmin hmax hhash hdollar h ih =>
    have hmem : c ∈ List.replicate (n + 1) c ++ t :=
      List.mem_append_left _ (List.mem_replicate.mpr ⟨Nat.succ_ne_zero _, rfl⟩)
    have hc : c ≠ runlenChar := fun heq ↦ ht (heq ▸ hmem)
    obtain ⟨hcount, hstars⟩ := (starsApart_run hc).mp hstars
    rw [expand_char hc (hascii c hmem), expand_count hmin hmax hcount (hascii c hmem),
      ih (fun h ↦ ht (List.mem_append_right _ h))
        (fun x hx ↦ hascii x (List.mem_append_right _ hx)) hstars]
    rfl

/-- An encoding is decoded as it should be, or a character of a run is followed by nothing or by a
star. -/
theorem expand_cases (h : Encodes t e) (ht : runlenChar ∉ t) {d : List (BitVec 8)}
    (hd : expand prev (-1) e = .ok (some d)) :
    (d = t ∧ (∀ c ∈ t, c < 0x80#8) ∧ StarsApart e) ∨
      ∃ t₁ c t₂ rest, t = t₁ ++ c :: c :: t₂ ∧ d = t₁ ++ c :: rest ∧
        (rest = [] ∨ ∃ r, rest = runlenChar :: r) := by
  induction h generalizing prev d with
  | nil =>
    cases hd
    exact .inl ⟨rfl, fun _ h ↦ absurd h List.not_mem_nil, List.isChain_nil⟩
  | char c h ih =>
    obtain ⟨hc, ht⟩ := not_or.mp (mt List.mem_cons.mpr ht)
    have hc : c ≠ runlenChar := Ne.symm hc
    obtain ⟨hlt, rest, hrest, rfl⟩ := expand_char_eq_ok hc hd
    rcases ih ht hrest with ⟨rfl, hascii, hstars⟩ | ⟨t₁, c', t₂, rest', rfl, rfl, hstar⟩
    · refine .inl ⟨rfl, fun x hx ↦ ?_, (starsApart_cons hc).mpr hstars⟩
      rcases List.mem_cons.mp hx with rfl | hx
      · exact hlt
      · exact hascii x hx
    · exact .inr ⟨c :: t₁, c', t₂, rest', rfl, rfl, hstar⟩
  | @run c n t e hmin hmax hhash hdollar h ih =>
    have hmem : c ∈ List.replicate (n + 1) c ++ t :=
      List.mem_append_left _ (List.mem_replicate.mpr ⟨Nat.succ_ne_zero _, rfl⟩)
    have hc : c ≠ runlenChar := fun heq ↦ ht (heq ▸ hmem)
    have ht' : runlenChar ∉ t := fun h ↦ ht (List.mem_append_right _ h)
    obtain ⟨hlt, rest, hrest, rfl⟩ := expand_char_eq_ok hc hd
    by_cases hcount : countChar n = runlenChar
    · rw [hcount] at hrest
      have hrest : expand (some runlenChar) runlenChar.toInt e = .ok (some rest) := hrest
      obtain ⟨m, rfl⟩ := Nat.exists_eq_add_of_le' (Nat.le_trans (by decide : 1 ≤ 3) hmin)
      exact .inr ⟨[], c, List.replicate m c ++ t, rest, rfl, rfl, expand_stars h ht' hrest⟩
    · rw [expand_count hmin hmax hcount hlt] at hrest
      obtain ⟨rest', hrest', hmap⟩ := bind_eq_ok.mp hrest
      cases rest' with
      | none => cases hmap
      | some rest' =>
        cases hmap
        rcases ih ht' hrest' with ⟨rfl, hascii, hstars⟩ | ⟨t₁, c', t₂, r, rfl, rfl, hstar⟩
        · refine .inl ⟨rfl, fun x hx ↦ ?_, (starsApart_run hc).mpr ⟨hcount, hstars⟩⟩
          rcases List.mem_append.mp hx with hx | hx
          · exact (List.mem_replicate.mp hx).2 ▸ hlt
          · exact hascii x hx
        · refine .inr ⟨List.replicate (n + 1) c ++ t₁, c', t₂, r, ?_, ?_, hstar⟩
          · rw [List.append_assoc]
          · rw [List.append_assoc]
            rfl

/-- What follows a character of a run in text that is decoded differently shows in the plain text. -/
theorem plain_ne (hs : escaped s = t) {t₁ t₂ rest : List (BitVec 8)} (ht : t = t₁ ++ c :: c :: t₂)
    (hrest : rest = [] ∨ ∃ r, rest = runlenChar :: r) : plain false (t₁ ++ c :: rest) ≠ s := by
  subst ht
  have hapart := escapes_apart s
  rw [hs, List.isChain_append_cons_cons] at hapart
  have hesc : c ≠ escapeChar := fun h ↦ hapart.2.1 ⟨h, h⟩
  have hstar : c ≠ runlenChar := by
    intro heq
    have hmem := runlenChar_notMem_escaped s
    rw [hs, heq] at hmem
    exact hmem (List.mem_append_right _ List.mem_cons_self)
  obtain ⟨u, hu⟩ := plain_append hesc false t₁
  have hplain : plain false (t₁ ++ c :: c :: t₂) = s := by
    rw [← hs]
    exact plain_escaped s
  rw [← hplain, hu, hu, plain, if_neg hesc]
  intro heq
  have htail := List.append_cancel_left heq
  rcases hrest with rfl | ⟨r, rfl⟩
  · cases htail
  · rw [plain, if_neg (by decide)] at htail
    exact hstar (List.cons.inj htail).1.symm

/-- An encoding is decoded and its escapes are resolved if and only if the text has no character from
128 on and no number of repetitions is written as a star. -/
theorem decodes_iff (h : Encodes (escaped s) e) :
    (∃ d, decodeRunlen e = .ok (some d) ∧ unescape d = .ok s) ↔
      (∀ c ∈ s, c < 0x80#8) ∧ StarsApart e := by
  have ht := runlenChar_notMem_escaped s
  rw [decodeRunlen_eq]
  constructor
  · rintro ⟨d, hd, hplain⟩
    rw [unescape_eq] at hplain
    rcases expand_cases h ht hd with ⟨rfl, hascii, hstars⟩ | ⟨t₁, c, t₂, rest, heq, rfl, hrest⟩
    · exact ⟨ascii_of_escaped.mp hascii, hstars⟩
    · exact absurd (Except.ok.inj hplain) (plain_ne rfl heq hrest)
  · rintro ⟨hascii, hstars⟩
    refine ⟨escaped s, expand_of_starsApart h ht (ascii_of_escaped.mpr hascii) hstars, ?_⟩
    rw [unescape_eq, plain_escaped]

/-- A star at the end is without effect. -/
theorem expand_append_star {runlen : Int} (h : prev ≠ none ∨ e ≠ []) :
    expand prev runlen (e ++ [runlenChar]) = expand prev runlen e := by
  induction e generalizing prev runlen with
  | nil =>
    cases prev with
    | none => exact absurd (h.resolve_right fun h ↦ h rfl) fun h ↦ h rfl
    | some p => rfl
  | cons c e ih =>
    have ih' (p : BitVec 8) (runlen : Int) : expand (some p) runlen (e ++ [runlenChar]) =
        expand (some p) runlen e := ih (.inl (Option.some_ne_none p))
    rw [List.cons_append]
    by_cases hstar : c = runlenChar
    · subst hstar
      cases prev with
      | none => rfl
      | some p => exact ih' _ _
    · rw [expand_of_ne hstar, expand_of_ne hstar, ih']

theorem decodeRunlen_append_star : decodeRunlen (e ++ [runlenChar]) = .ok none ↔
    e = [] ∨ decodeRunlen e = .ok none := by
  rw [decodeRunlen_eq, decodeRunlen_eq]
  by_cases he : e = []
  · subst he
    exact iff_of_true rfl (.inl rfl)
  · rw [expand_append_star (.inr he), or_iff_right he]

/-- Encodings are decoded if and only if their text has no character from 128 on and no number of
repetitions is written as a star. A star at the start is rejected, a star at the end only if what comes
before it is rejected or empty, and nothing is written outside of the buffers. -/
theorem runlength_spec (s e : List (BitVec 8)) :
    (Encodes (escaped s) e → ((∃ d, decodeRunlen e = .ok (some d) ∧ unescape d = .ok s) ↔
      (∀ c ∈ s, c < 0x80#8) ∧ StarsApart e)) ∧
    decodeRunlen (runlenChar :: e) = .ok none ∧
    (decodeRunlen (e ++ [runlenChar]) = .ok none ↔ e = [] ∨ decodeRunlen e = .ok none) ∧
    decodeRunlen e ≠ .error .undefined ∧ unescape e ≠ .error .undefined := by
  refine ⟨decodes_iff, ?_, decodeRunlen_append_star, ?_, ?_⟩
  · rw [decodeRunlen_eq]
    rfl
  · rw [decodeRunlen_eq]
    exact expand_ne_undefined e
  · rw [unescape_eq]
    intro h
    cases h

/-- A run of four characters. -/
theorem runlength_four :
    ∃ d, decodeRunlen [chr 'a', chr '*', chr ' '] = .ok (some d) ∧
      unescape d = .ok (List.replicate 4 (chr 'a')) := by
  refine ((runlength_spec _ _).1 ?_).mpr ⟨by decide, by unfold StarsApart; decide⟩
  exact Encodes.run (chr 'a') (n := 3) (by decide) (by decide) (by decide) (by decide) .nil

/-- The number of repetitions of a run of fourteen characters is a star. -/
theorem not_decodes_fourteen :
    Encodes (escaped (List.replicate 14 (chr 'a'))) [chr 'a', chr '*', chr '*'] ∧
      ¬ ∃ d, decodeRunlen [chr 'a', chr '*', chr '*'] = .ok (some d) ∧
        unescape d = .ok (List.replicate 14 (chr 'a')) := by
  constructor
  · exact Encodes.run (chr 'a') (n := 13) (by decide) (by decide) (by decide) (by decide) .nil
  · rintro ⟨d, hd, hplain⟩
    have hdecode : decodeRunlen [chr 'a', chr '*', chr '*'] = .ok (some [chr 'a']) := by
      rw [decodeRunlen_eq]
      decide
    cases hdecode.symm.trans hd
    exact absurd hplain (by decide)

end Encodings

end Runlength

end CoverageVP.Gdb
