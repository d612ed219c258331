import CoverageVP.Lib.Checks
import CoverageVP.Platform.Uart

/-!
# Registers with a handler

An access to a register is given to a handler, together with the value that is going to be assigned and
with a function that makes the access. The value is read as a word from the data of the access, but the
function copies only the bytes of the access to their place in the register.
-/

namespace CoverageVP.Platform

open Lib

inductive Command
  | read | write | ignore
  deriving DecidableEq, Repr

/-- A transaction with the memory from its data pointer on, of which the first bytes are its data. -/
structure Payload where
  command : Command
  address : Nat
  data : Bytes
  length : Nat

namespace Payload

variable (trans : Payload)

/-- The place of the data in a register. -/
def offset : Nat := trans.address % 4

/-- The transaction is to a byte of the register. -/
def Addresses (i : Nat) : Prop := trans.offset ≤ i ∧ i < trans.offset + trans.length

instance (i : Nat) : Decidable (trans.Addresses i) := inferInstanceAs (Decidable (_ ∧ _))

end Payload

/-- The assertions of an access: it stays within the register, it is a read or a write, and the register
can be read or written. -/
inductive MappingFault
  | bounds | command | read | write
  deriving DecidableEq, Repr

structure RegMapping where
  addr : Nat
  canRead : Bool
  canWrite : Bool
  mask : BitVec 32

namespace RegMapping

variable (r : RegMapping)

def busWrite (newValue : BitVec 32) : Except MappingFault (BitVec 32) := do
  require (r.canWrite = true) .write
  return newValue &&& r.mask

def busRead (value : BitVec 32) : Except MappingFault (BitVec 32) := do
  require (r.canRead = true) .read
  return value

/-- The access to a register with some value: the register and the data after it. -/
def access (trans : Payload) (value : BitVec 32) : Except MappingFault (BitVec 32 × Bytes) :=
  match trans.command with
  | .read => do
    let n ← r.busRead value
    return (value, trans.data.write 0 ((registerBytes n).read trans.offset trans.length))
  | .write => do
    let n := ((registerBytes value).write trans.offset (trans.data.read 0 trans.length)).word 32 0
    let value ← r.busWrite n
    return (value, trans.data)
  | .ignore => .error .command

end RegMapping

/-! ## Bytes -/

theorem word_registerBytes (n : BitVec 32) : (registerBytes n).word 32 0 = n := by
  apply BitVec.eq_of_getLsbD_eq
  intro i hi
  have hpos : 8 * (i / 8) + i % 8 = i := Nat.div_add_mod i 8
  rw [Bytes.getLsbD_word _ (by decide) _ hi, Nat.zero_add, registerBytes,
    BitVec.getLsbD_extractLsb', hpos, decide_eq_true (Nat.mod_lt i (by decide)), Bool.true_and]

/-- Two words are equal if their four bytes are. -/
theorem word_eq_iff {m m' : Bytes} : m.word 32 0 = m'.word 32 0 ↔ ∀ i < 4, m i = m' i := by
  constructor
  · intro h i hi
    have hbyte := Bytes.eq_of_word_eq m' (by decide) h (i := i) hi
    rw [Nat.zero_add] at hbyte
    exact hbyte
  · intro h
    apply Bytes.word_congr m' (by decide)
    intro i hi
    rw [Nat.zero_add]
    exact h i hi

theorem registerBytes_word (m : Bytes) {i : Nat} (hi : i < 4) : registerBytes (m.word 32 0) i = m i :=
  word_eq_iff.mp (word_registerBytes (m.word 32 0)) i hi

namespace Payload

variable (trans : Payload)

/-- The bytes of a register after the data has been copied to its place. -/
def copied (value : BitVec 32) : Bytes :=
  (registerBytes value).write trans.offset (trans.data.read 0 trans.length)

theorem copied_apply (value : BitVec 32) (i : Nat) : trans.copied value i =
    if trans.Addresses i then trans.data (i - trans.offset) else registerBytes value i := by
  have hlength : (trans.data.read 0 trans.length).length = trans.length := by
    rw [Bytes.read, List.length_map, List.length_range]
  unfold copied
  by_cases h : trans.Addresses i
  · rw [if_pos h]
    unfold Addresses at h
    obtain ⟨k, rfl⟩ := Nat.exists_eq_add_of_le h.1
    have hk : k < (trans.data.read 0 trans.length).length := by omega
    rw [Bytes.write_of_mem _ _ hk, Nat.add_sub_cancel_left]
    simp [Bytes.read]
  · rw [if_neg h]
    unfold Addresses at h
    rcases Nat.lt_or_ge i trans.offset with hlt | hge
    · exact Bytes.write_of_lt _ _ hlt
    · exact Bytes.write_of_ge _ _ (by omega)

/-- The word at the data pointer is the register with the data in it: its bytes are those of the register
where the data does not go, and repeat the data where it goes. -/
structure Unnoticed (value : BitVec 32) : Prop where
  others : ∀ i < 4, ¬ trans.Addresses i → trans.data i = registerBytes value i
  repeats : ∀ i, trans.Addresses i → trans.data i = trans.data (i - trans.offset)

theorem word_eq_copied_iff (hfits : trans.length + trans.offset ≤ 4) (value : BitVec 32) :
    trans.data.word 32 0 = (trans.copied value).word 32 0 ↔ trans.Unnoticed value := by
  rw [word_eq_iff]
  simp only [copied_apply]
  constructor
  · intro h
    refine ⟨fun i hi hout ↦ ?_, fun i hin ↦ ?_⟩
    · rw [h i hi, if_neg hout]
    · have hi : i < 4 := by
        have hlt := hin.2
        omega
      have hbyte := h i hi
      rw [if_pos hin] at hbyte
      exact hbyte
  · intro h i hi
    split
    case isTrue hin => exact h.repeats i hin
    case isFalse hout => exact h.others i hi hout

/-- A whole word is what is going to be assigned. -/
theorem unnoticed_of_word (hoffset : trans.offset = 0) (hlength : trans.length = 4)
    (value : BitVec 32) : trans.Unnoticed value where
  others := by
    intro i hi hout
    unfold Addresses at hout
    omega
  repeats := by
    intro i _
    rw [hoffset, Nat.sub_zero]

end Payload

/-! ## Accesses -/

/-- What a handler is given. -/
structure RegisterAccess where
  read : Bool
  write : Bool
  nv : BitVec 32
  fn : BitVec 32 → Except MappingFault (BitVec 32 × Bytes)
  addr : Nat

/-- The registers by their addresses. -/
def RegisterMapping := Nat → Option RegMapping

namespace RegisterMapping

/-- The access that is given to the handler, if there is a register at the address. -/
def tryHandle (regs : RegisterMapping) (trans : Payload) :
    Except MappingFault (Option RegisterAccess) :=
  match regs (trans.address - trans.address % 4) with
  | none => return none
  | some r => do
    require (trans.length + trans.address % 4 ≤ 4) .bounds
    require (trans.command = .read ∨ trans.command = .write) .command
    require (r.canRead = true ∨ trans.command ≠ .read) .read
    require (r.canWrite = true ∨ trans.command ≠ .write) .write
    return some {
      read := trans.command = .read
      write := trans.command = .write
      nv := if trans.command = .write then trans.data.word 32 0 else 0#32
      fn := r.access trans
      addr := trans.address }

/-- The handler of a write is given the value that the register has after the access, which changes only
the addressed bytes. -/
def Foretold (regs : RegisterMapping) (trans : Payload) (value : BitVec 32) : Prop :=
  ∃ access newValue, regs.tryHandle trans = .ok (some access) ∧
    access.fn value = .ok (newValue, trans.data) ∧ access.nv = newValue ∧
    ∀ i < 4, ¬ trans.Addresses i → registerBytes newValue i = registerBytes value i

variable {regs : RegisterMapping} {trans : Payload} {r : RegMapping}

theorem tryHandle_write (hr : regs (trans.address - trans.address % 4) = some r)
    (hwrite : r.canWrite = true) (hcommand : trans.command = .write)
    (hfits : trans.length + trans.offset ≤ 4) :
    regs.tryHandle trans = .ok (some {
      read := false
      write := true
      nv := trans.data.word 32 0
      fn := r.access trans
      addr := trans.address }) := by
  have hbounds : trans.length + trans.address % 4 ≤ 4 := hfits
  unfold tryHandle
  rw [hr]
  dsimp only
  rw [require_bind_of hbounds, require_bind_of (.inr hcommand),
    require_bind_of (.inr (by rw [hcommand]; decide)), require_bind_of (.inl hwrite), hcommand]
  rfl

theorem access_write (hwrite : r.canWrite = true) (hmask : r.mask = BitVec.allOnes 32)
    (hcommand : trans.command = .write) (value : BitVec 32) :
    r.access trans value = .ok ((trans.copied value).word 32 0, trans.data) := by
  unfold RegMapping.access RegMapping.busWrite
  rw [hcommand]
  dsimp only
  rw [require_of hwrite, hmask]
  change Except.ok ((trans.copied value).word 32 0 &&& BitVec.allOnes 32, trans.data) = _
  rw [BitVec.and_allOnes]

section Write

variable (hr : regs (trans.address - trans.address % 4) = some r) (hwrite : r.canWrite = true)
  (hmask : r.mask = BitVec.allOnes 32) (hcommand : trans.command = .write)
  (hfits : trans.length + trans.offset ≤ 4)

include hr hwrite hmask hcommand hfits

theorem foretold_iff (value : BitVec 32) : regs.Foretold trans value ↔
    trans.data.word 32 0 = (trans.copied value).word 32 0 := by
  constructor
  · rintro ⟨access, newValue, htry, hfn, hnv, -⟩
    cases (tryHandle_write hr hwrite hcommand hfits).symm.trans htry
    cases (access_write hwrite hmask hcommand value).symm.trans hfn
    exact hnv
  · intro h
    refine ⟨_, _, tryHandle_write hr hwrite hcommand hfits,
      access_write hwrite hmask hcommand value, h, fun i hi hout ↦ ?_⟩
    rw [registerBytes_word _ hi, Payload.copied_apply, if_neg hout]

/-- The handler of a write to a register without a mask is given the value that is assigned if and only
if the word at the data pointer is the register with the data in it. -/
theorem foretold_iff_unnoticed (value : BitVec 32) :
    regs.Foretold trans value ↔ trans.Unnoticed value :=
  (foretold_iff hr hwrite hmask hcommand hfits value).trans
    (Payload.word_eq_copied_iff trans hfits value)

end Write

/-- One register that can be read and written. -/
def oneRegister : RegisterMapping := fun addr ↦
  if addr = 0x10 then some ⟨0x10, true, true, BitVec.allOnes 32⟩ else none

theorem foretold_word :
    oneRegister.Foretold ⟨.write, 0x10, registerBytes 0x12345678#32, 4⟩ 7#32 :=
  (foretold_iff_unnoticed (r := ⟨0x10, true, true, BitVec.allOnes 32⟩) rfl rfl rfl rfl (by decide)
    7#32).mpr (Payload.unnoticed_of_word _ rfl rfl 7#32)

/-- The byte at the second place of the register is taken for its first one. -/
theorem not_foretold_byte : ¬ oneRegister.Foretold ⟨.write, 0x11, registerBytes 1#32, 1⟩ 0#32 := by
  intro h
  have hword := (foretold_iff (r := ⟨0x10, true, true, BitVec.allOnes 32⟩) rfl rfl rfl rfl (by decide)
    0#32).mp h
  exact absurd hword (by decide)

end RegisterMapping

/-! ## The serial interface -/

namespace Uart

/-- A read of a register at an address, with the data that was there before. -/
def Read.payload (r : Read) (address : Nat) (data : Bytes) : Payload where
  command := .read
  address := address + r.off
  data := data
  length := r.len

/-- The bytes that are recorded for a read of the serial interface are those that the access copies. -/
theorem Read.access_payload (r : Read) {m : RegMapping} (hread : m.canRead = true) {address : Nat}
    (haddress : address % 4 = 0) (hoff : r.off < 4) (data : Bytes) (value : BitVec 32) :
    m.access (r.payload address data) value = .ok (value, data.write 0 (r.data value)) := by
  have hoffset : (r.payload address data).offset = r.off := by
    unfold Payload.offset payload
    dsimp only
    omega
  unfold RegMapping.access RegMapping.busRead
  rw [require_of hread, hoffset]
  rfl

namespace Write

variable (w : Write)

/-- A write to a register at an address. -/
def payload (address : Nat) : Payload where
  command := .write
  address := address + w.off
  data := Bytes.write (fun _ ↦ 0#8) 0 (w.data ++ w.after)
  length := w.data.length

/-- The registers of the serial interface are assigned what their handler assigns. -/
theorem access_payload {r : RegMapping} (hwrite : r.canWrite = true)
    (hmask : r.mask = BitVec.allOnes 32) {address : Nat} (haddress : address % 4 = 0)
    (hoff : w.off < 4) (old : BitVec 32) :
    r.access (w.payload address) old = .ok (w.value old, (w.payload address).data) := by
  have hoffset : (w.payload address).offset = w.off := by
    unfold Payload.offset payload
    dsimp only
    omega
  have hdata : (w.payload address).data.read 0 (w.payload address).length = w.data := by
    refine (Bytes.read_eq_iff _).mpr fun i hi ↦ ?_
    have hlt : i < (w.data ++ w.after).length := by
      rw [List.length_append]
      omega
    unfold payload
    dsimp only
    rw [Bytes.write_of_mem _ _ hlt, List.getElem_append_left hi]
  rw [RegisterMapping.access_write hwrite hmask rfl, Payload.copied, hoffset, hdata]
  rfl

end Write

end Uart

end CoverageVP.Platform
