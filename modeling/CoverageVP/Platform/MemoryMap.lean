import CoverageVP.Lib.Bytes
import CoverageVP.Lib.Checks

/-!
# Memory-mapped registers

A peripheral has banks of registers. An access goes to the first bank that contains its address, has
to be aligned and to stay within the bank, and may be observed before or after it is made.
-/

namespace CoverageVP.Platform

open Lib

/-! ## Failures -/

/-- The assertions of the peripherals, on: the length of an access, the index of an array, the
address and the size of an access to the registers of a hart, the number of an interrupt, the line
of a hart, and the mode of a context. -/
inductive Assertion
  | bounds | index | registerAddress | registerSize | irqId | hartEip | level
  deriving DecidableEq, Repr

/-- The ways in which a peripheral fails. An array index that is not checked is undefined outside of
the array. -/
inductive Fault
  | assertion (what : Assertion)
  | runtimeError (what : String)
  | invalidArgument (what : String)
  | undefined
  deriving DecidableEq, Repr

def check (condition : Prop) [Decidable condition] (fault : Fault) : Except Fault Unit :=
  if condition then .ok () else .error fault

def ensure (condition : Prop) [Decidable condition] : Except Fault Unit :=
  check condition (.runtimeError "runtime assertion failed")

section Except

variable {α β : Type} {m : Except Fault α} {f : α → Except Fault β}

theorem error_ne_ok {e : Fault} {a : α} : (.error e : Except Fault α) ≠ .ok a := by
  intro h
  cases h

theorem pure_eq_ok_iff {a a' : α} : (pure a : Except Fault α) = .ok a' ↔ a = a' := by
  constructor
  · intro h
    cases h
    rfl
  · rintro rfl
    rfl

theorem check_eq_ok_iff {c : Prop} [Decidable c] {fault : Fault} {u : Unit} :
    check c fault = .ok u ↔ c := by
  unfold check
  split
  case isTrue h => exact iff_of_true rfl h
  case isFalse h => exact iff_of_false error_ne_ok h

theorem check_of {c : Prop} [Decidable c] {fault : Fault} (h : c) : check c fault = .ok () :=
  if_pos h

theorem check_of_not {c : Prop} [Decidable c] {fault : Fault} (h : ¬ c) :
    check c fault = .error fault :=
  if_neg h

theorem check_eq_error_iff {c : Prop} [Decidable c] {fault e : Fault} :
    check c fault = .error e ↔ ¬ c ∧ fault = e := by
  unfold check
  split
  case isTrue h => exact iff_of_false error_ne_ok.symm fun h' ↦ h'.1 h
  case isFalse h =>
    constructor
    · intro he
      cases he
      exact ⟨h, rfl⟩
    · rintro ⟨-, rfl⟩
      rfl

theorem check_bind_eq_ok_iff {c : Prop} [Decidable c] {fault : Fault} {m : Except Fault α} {a : α} :
    (do check c fault; m) = .ok a ↔ c ∧ m = .ok a :=
  require_bind_eq_ok

theorem check_bind_eq_error_iff {c : Prop} [Decidable c] {fault e : Fault} {m : Except Fault α} :
    (do check c fault; m) = .error e ↔ (¬ c ∧ fault = e) ∨ c ∧ m = .error e := by
  rw [bind_eq_error, check_eq_error_iff]
  simp only [check_eq_ok_iff]
  exact or_congr_right (exists_const Unit)

end Except

structure RegisterRange where
  start : Nat
  size : Nat
  readonly : Bool
  alignment : Nat

namespace RegisterRange

variable (r : RegisterRange)

def stop : Nat := r.start + r.size - 1

def contains (addr : Nat) : Bool := r.start ≤ addr && addr ≤ r.stop

def toLocal (addr : Nat) : Nat := addr - r.start

/-- The access is aligned. -/
def checkAlignment (addr len : Nat) : Except Fault Unit :=
  ensure (addr % r.alignment = 0 ∧ len % r.alignment = 0)

/-- The access stays within the range. -/
def checkBounds (addr len : Nat) : Except Fault Unit :=
  check (r.toLocal addr + len ≤ r.size) (.assertion .bounds)

end RegisterRange

/-! ## Registers -/

/-- The memory of every bank. -/
abbrev Registers (β : Type) := β → Bytes

namespace Registers

variable {β : Type} [DecidableEq β] (r : Registers β) (bank : β)

def set (mem : Bytes) : Registers β := fun b ↦ if b = bank then mem else r b

/-- A word of a bank. -/
def word (idx : Nat) : BitVec 32 := (r bank).word 32 (4 * idx)

def setWord (idx : Nat) (value : BitVec 32) : Registers β :=
  r.set bank ((r bank).setWord (4 * idx) value)

/-- A bit of the words of a bank. -/
def bit (i : Nat) : Bool := (r.word bank (i / 32)).getLsbD (i % 32)

def setBit (i : Nat) : Registers β :=
  r.setWord bank (i / 32) (r.word bank (i / 32) ||| 1#32 <<< (i % 32))

def clearBit (i : Nat) : Registers β :=
  r.setWord bank (i / 32) (r.word bank (i / 32) &&& ~~~(1#32 <<< (i % 32)))

variable {r} {bank} {bank' : β} {idx i j : Nat}

theorem set_self (mem : Bytes) : r.set bank mem bank = mem := if_pos rfl

theorem set_of_ne (mem : Bytes) (h : bank' ≠ bank) : r.set bank mem bank' = r bank' := if_neg h

theorem word_setWord_self (value : BitVec 32) : (r.setWord bank idx value).word bank idx = value := by
  rw [word, setWord, set_self, Bytes.word_setWord _ (by decide)]

theorem word_setWord_of_idx_ne (value : BitVec 32) (h : i ≠ idx) :
    (r.setWord bank idx value).word bank i = r.word bank i := by
  rw [word, setWord, set_self, Bytes.word_setWord_of_disjoint _ (by decide) _ (by omega)]
  rfl

theorem word_setWord_of_bank_ne (value : BitVec 32) (h : bank' ≠ bank) :
    (r.setWord bank idx value).word bank' i = r.word bank' i := by
  rw [word, setWord, set_of_ne _ h]
  rfl

theorem bit_eq_of_div_ne (value : BitVec 32) (h : j / 32 ≠ i / 32) :
    (r.setWord bank (i / 32) value).bit bank j = r.bit bank j := by
  rw [bit, word_setWord_of_idx_ne _ h, bit]

theorem bit_setBit : (r.setBit bank i).bit bank j = (r.bit bank j || j == i) := by
  by_cases hword : j / 32 = i / 32
  · have hsame : (j % 32 == i % 32) = (j == i) := by
      rw [Bool.eq_iff_iff, beq_iff_eq, beq_iff_eq]
      omega
    rw [setBit, bit, hword, word_setWord_self, getLsbD_set_bit _ _ (Nat.mod_lt j (by decide)), hsame,
      bit, hword]
  · have hne : (j == i) = false := beq_eq_false_iff_ne.mpr fun h ↦ hword (congrArg (· / 32) h)
    rw [setBit, bit_eq_of_div_ne _ hword, hne, Bool.or_false]

theorem bit_clearBit : (r.clearBit bank i).bit bank j = (r.bit bank j && j != i) := by
  by_cases hword : j / 32 = i / 32
  · have hsame : (j % 32 != i % 32) = (j != i) := by
      rw [Bool.eq_iff_iff, bne_iff_ne, bne_iff_ne]
      omega
    rw [clearBit, bit, hword, word_setWord_self, getLsbD_clear_bit _ _ (Nat.mod_lt j (by decide)),
      hsame, bit, hword]
  · have hne : (j != i) = true := bne_iff_ne.mpr fun h ↦ hword (congrArg (· / 32) h)
    rw [clearBit, bit_eq_of_div_ne _ hword, hne, Bool.and_true]

end Registers

/-! ## Peripherals -/

/-- The banks of a peripheral with the state `σ`, in the order in which they are searched, and what
happens before a read and before and after a write. -/
structure Peripheral (β σ : Type) where
  name : String
  banks : List β
  range : β → RegisterRange
  mem : σ → β → Bytes
  setMem : σ → β → Bytes → σ
  preRead : β → Nat → Nat → σ → Except Fault σ
  preWrite : β → Bool
  postWrite : β → Nat → Nat → σ → Except Fault σ

namespace Peripheral

variable {β σ : Type} (d : Peripheral β σ)

def route (addr : Nat) : Except Fault β :=
  match d.banks.find? fun b ↦ (d.range b).contains addr with
  | some b => .ok b
  | none =>
    .error (.runtimeError (d.name ++ " unable to route address " ++ toString addr))

def read (addr len : Nat) (s : σ) : Except Fault (List (BitVec 8) × σ) := do
  let b ← d.route addr
  (d.range b).checkAlignment addr len
  (d.range b).checkBounds addr len
  let s ← d.preRead b ((d.range b).toLocal addr) len s
  return ((d.mem s b).read ((d.range b).toLocal addr) len, s)

def write (addr : Nat) (data : List (BitVec 8)) (s : σ) : Except Fault σ := do
  let b ← d.route addr
  (d.range b).checkAlignment addr data.length
  ensure ((d.range b).readonly = false)
  (d.range b).checkBounds addr data.length
  if d.preWrite b then
    let s := d.setMem s b ((d.mem s b).write ((d.range b).toLocal addr) data)
    d.postWrite b ((d.range b).toLocal addr) data.length s
  else return s

variable {d} {addr : Nat} {s s' : σ}

/-- An access that reaches a bank: it is aligned and stays within the bank. -/
structure Reaches (d : Peripheral β σ) (addr len : Nat) (b : β) : Prop where
  route : d.route addr = .ok b
  aligned : addr % (d.range b).alignment = 0 ∧ len % (d.range b).alignment = 0
  bounds : (d.range b).toLocal addr + len ≤ (d.range b).size

theorem Reaches.unique {len : Nat} {b b' : β} (h : d.Reaches addr len b)
    (h' : d.Reaches addr len b') : b' = b := by
  have hroute := h'.route.symm.trans h.route
  cases hroute
  rfl

/-- An access is routed to a bank that contains its address. -/
theorem bounds_of_route {b : β} (h : d.route addr = .ok b) :
    (d.range b).start ≤ addr ∧ addr ≤ (d.range b).stop := by
  unfold route at h
  split at h
  case h_1 b' hfind =>
    cases h
    have hcontains := List.find?_some hfind
    simp only [RegisterRange.contains, Bool.and_eq_true, decide_eq_true_eq] at hcontains
    exact hcontains
  case h_2 => cases h

theorem read_eq_ok_iff {len : Nat} {data : List (BitVec 8)} :
    d.read addr len s = .ok (data, s') ↔ ∃ b, d.Reaches addr len b ∧
      d.preRead b ((d.range b).toLocal addr) len s = .ok s' ∧
      data = (d.mem s' b).read ((d.range b).toLocal addr) len := by
  unfold read
  simp only [bind_eq_ok, RegisterRange.checkAlignment, RegisterRange.checkBounds, ensure,
    check_eq_ok_iff]
  constructor
  · rintro ⟨b, hroute, -, haligned, -, hbounds, s₁, hpre, heq⟩
    cases heq
    exact ⟨b, ⟨hroute, haligned, hbounds⟩, hpre, rfl⟩
  · rintro ⟨b, ⟨hroute, haligned, hbounds⟩, hpre, rfl⟩
    exact ⟨b, hroute, (), haligned, (), hbounds, s', hpre, rfl⟩

theorem route_ne_assertion {what : Assertion} : d.route addr ≠ .error (.assertion what) := by
  unfold route
  intro h
  split at h <;> cases h

/-- The assertions of the access itself are on its length. -/
theorem exists_of_read_eq_error {len : Nat} {what : Assertion} (hwhat : what ≠ .bounds)
    (h : d.read addr len s = .error (.assertion what)) :
    ∃ b, d.preRead b ((d.range b).toLocal addr) len s = .error (.assertion what) := by
  unfold read at h
  simp only [bind_eq_error, RegisterRange.checkAlignment, RegisterRange.checkBounds, ensure,
    check_eq_ok_iff, check_eq_error_iff] at h
  rcases h with h | ⟨b, -, ⟨-, h⟩ | ⟨-, -, ⟨-, h⟩ | ⟨-, -, h | ⟨_, -, h⟩⟩⟩⟩
  · exact absurd h route_ne_assertion
  · cases h
  · cases h
    exact absurd rfl hwhat
  · exact ⟨b, h⟩
  · cases h

/-- A write is refused, or it is made and observed. -/
theorem write_eq_ok_iff {data : List (BitVec 8)} :
    d.write addr data s = .ok s' ↔ ∃ b, d.Reaches addr data.length b ∧
      (d.range b).readonly = false ∧
      (if d.preWrite b then
        d.postWrite b ((d.range b).toLocal addr) data.length
          (d.setMem s b ((d.mem s b).write ((d.range b).toLocal addr) data))
      else .ok s) = .ok s' := by
  unfold write
  simp only [bind_eq_ok, RegisterRange.checkAlignment, RegisterRange.checkBounds, ensure,
    check_eq_ok_iff]
  constructor
  · rintro ⟨b, hroute, -, haligned, -, hreadonly, -, hbounds, heq⟩
    exact ⟨b, ⟨hroute, haligned, hbounds⟩, hreadonly, heq⟩
  · rintro ⟨b, ⟨hroute, haligned, hbounds⟩, hreadonly, heq⟩
    exact ⟨b, hroute, (), haligned, (), hreadonly, (), hbounds, heq⟩

theorem write_of_reaches {data : List (BitVec 8)} {b : β} (hb : d.Reaches addr data.length b)
    (hreadonly : (d.range b).readonly = false) (hpre : d.preWrite b = true) :
    d.write addr data s = d.postWrite b ((d.range b).toLocal addr) data.length
      (d.setMem s b ((d.mem s b).write ((d.range b).toLocal addr) data)) := by
  have haligned : (d.range b).checkAlignment addr data.length = .ok () :=
    check_eq_ok_iff.mpr hb.aligned
  have hwritable : ensure ((d.range b).readonly = false) = .ok () := check_eq_ok_iff.mpr hreadonly
  have hbounds : (d.range b).checkBounds addr data.length = .ok () := check_eq_ok_iff.mpr hb.bounds
  calc d.write addr data s
      = (do
        (d.range b).checkAlignment addr data.length
        ensure ((d.range b).readonly = false)
        (d.range b).checkBounds addr data.length
        if d.preWrite b then
          d.postWrite b ((d.range b).toLocal addr) data.length
            (d.setMem s b ((d.mem s b).write ((d.range b).toLocal addr) data))
        else return s) := by
          rw [write, hb.route]
          rfl
    _ = d.postWrite b ((d.range b).toLocal addr) data.length
        (d.setMem s b ((d.mem s b).write ((d.range b).toLocal addr) data)) := by
          rw [haligned, hwritable, hbounds, hpre]
          rfl

theorem write_eq_error_iff {data : List (BitVec 8)} {what : Assertion} (hwhat : what ≠ .bounds) :
    d.write addr data s = .error (.assertion what) ↔ ∃ b, d.Reaches addr data.length b ∧
      (d.range b).readonly = false ∧ d.preWrite b = true ∧
      d.postWrite b ((d.range b).toLocal addr) data.length
        (d.setMem s b ((d.mem s b).write ((d.range b).toLocal addr) data)) =
          .error (.assertion what) := by
  unfold write
  simp only [bind_eq_error, RegisterRange.checkAlignment, RegisterRange.checkBounds, ensure,
    check_eq_ok_iff, check_eq_error_iff]
  constructor
  · rintro (h | ⟨b, hb, ⟨-, h⟩ | ⟨-, haligned, ⟨-, h⟩ | ⟨-, hreadonly, ⟨-, h⟩ | ⟨-, hbounds, h⟩⟩⟩⟩)
    · exact absurd h route_ne_assertion
    · cases h
    · cases h
    · cases h
      exact absurd rfl hwhat
    · by_cases hpre : d.preWrite b = true
      · rw [if_pos hpre] at h
        exact ⟨b, ⟨hb, haligned, hbounds⟩, hreadonly, hpre, h⟩
      · rw [if_neg hpre] at h
        cases h
  · rintro ⟨b, ⟨hb, haligned, hbounds⟩, hreadonly, hpre, h⟩
    refine .inr ⟨b, hb, .inr ⟨(), haligned, .inr ⟨(), hreadonly, .inr ⟨(), hbounds, ?_⟩⟩⟩⟩
    rw [if_pos hpre]
    exact h

end Peripheral

/-- What happens to an interrupt controller: the gateway of an interrupt is triggered, its registers
are read or written, or it runs. -/
inductive PlicEvent
  | trigger (irqId : Nat)
  | read (addr len : Nat)
  | write (addr : Nat) (data : List (BitVec 8))
  | run

/-- The smaller one of two words. -/
def minWord (x y : BitVec 32) : BitVec 32 := if y < x then y else x

theorem minWord_le (x y : BitVec 32) : minWord x y ≤ y := by
  unfold minWord
  split
  case isTrue => exact BitVec.le_refl y
  case isFalse h => exact BitVec.not_lt.mp h

theorem minWord_eq_iff {x y : BitVec 32} : minWord x y = x ↔ x ≤ y := by
  unfold minWord
  split
  case isTrue h =>
    constructor
    · rintro rfl
      exact BitVec.le_refl _
    · intro hle
      exact absurd h (BitVec.not_lt.mpr hle)
  case isFalse h => exact iff_of_true rfl (BitVec.not_lt.mp h)

theorem minWord_minWord (x y : BitVec 32) : minWord (minWord x y) y = minWord x y :=
  minWord_eq_iff.mpr (minWord_le x y)

/-- The index of an array is checked. -/
def checkIndex (idx size : Nat) : Except Fault Unit := check (idx < size) (.assertion .index)

end CoverageVP.Platform
