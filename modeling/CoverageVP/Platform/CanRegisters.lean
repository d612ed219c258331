import CoverageVP.Platform.Can

/-!
# Commands that change the registers of the CAN controller

A register is written, or some of its bits are. After a complete command the next byte should be a
command again. A write of a register that does not exist leaves the controller in the middle of the
command, a modification of one is outside of the array, and a modification sets bits that are not in its
mask.
-/

namespace CoverageVP.Platform

open Lib

namespace Can

/-! ## The rules of the registers -/

/-- A complete command. -/
inductive RegCommand
  | write (address value : BitVec 8)
  | bitModify (address mask data : BitVec 8)
  deriving DecidableEq, Repr

namespace RegCommand

def bytes : RegCommand → List (BitVec 8)
  | write address value => [WRITE, address, value]
  | bitModify address mask data => [BITMOD, address, mask, data]

/-- What a command does to the registers by the rules of the controller. -/
def apply (registers : Bytes) : RegCommand → Bytes
  | write address value =>
    if address.toNat ≤ RXB1SIDH then registers.write address.toNat [value] else registers
  | bitModify address mask data =>
    if address.toNat ≤ RXB1SIDH then
      registers.write address.toNat [(registers address.toNat &&& ~~~mask) ||| (data &&& mask)]
    else registers

end RegCommand

/-- The bytes of a command go one after another. -/
def execute (s : Can) (c : RegCommand) : Except Fault Can := (c.bytes.map Event.spi).foldlM step s

/-- The next byte is a command, and nothing is left of the commands before. -/
structure Idle (s : Can) : Prop where
  state : s.state = .init
  readSelected : s.readSelected = -1#16
  writeSelected : s.writeSelected = -1#16
  modReg : s.modReg.stage = .address
  loadTx : s.loadTx = ⟨.id, 0#8⟩
  rxPtr : s.rxPtr = 0#8

/-- The command follows the rules and is complete. -/
def Obeys (s : Can) (c : RegCommand) : Prop :=
  ∃ s', s.execute c = .ok s' ∧ s'.Idle ∧ ∀ a ≤ RXB1SIDH, s'.registers a = c.apply s.registers a

/-- The register exists, and a bit of the data that is not in the mask is set in the register. -/
def Clean (s : Can) : RegCommand → Prop
  | .write address _ => address.toNat ≤ RXB1SIDH
  | .bitModify address mask data =>
    address.toNat ≤ RXB1SIDH ∧ data &&& ~~~mask &&& ~~~(s.registers address.toNat) = 0#8

variable {s : Can}

theorem write_command (hs : s.state = .init) (byte : BitVec 8) :
    s.write byte = .ok (0#8, s.command byte) := by
  rw [write, hs]
  rfl

theorem toInt_setWidth_byte (byte : BitVec 8) : (byte.setWidth 16).toInt = byte.toNat := by
  have hlt := byte.isLt
  have hwidth : (byte.setWidth 16).toNat = byte.toNat := BitVec.toNat_setWidth_of_le (by decide)
  rw [BitVec.toInt_eq_toNat_of_lt (by omega), hwidth]

theorem writeRegister_select (hs : s.writeSelected = -1#16) (byte : BitVec 8) :
    s.writeRegister byte = .ok (0#8, { s with writeSelected := byte.setWidth 16 }) := by
  rw [writeRegister, hs, if_pos (by decide)]
  rfl

theorem writeRegister_selected {address : BitVec 8} (hs : s.writeSelected = address.setWidth 16)
    (byte : BitVec 8) : s.writeRegister byte = if address.toNat ≤ RXB1SIDH then
      .ok (0#8, { s with
        registers := s.registers.write address.toNat [byte]
        writeSelected := -1#16
        state := .init })
      else .ok (0#8, s) := by
  have hnat : (address.setWidth 16).toNat = address.toNat := BitVec.toNat_setWidth_of_le (by decide)
  rw [writeRegister, hs, toInt_setWidth_byte, if_neg (by omega)]
  by_cases haddress : address.toNat ≤ RXB1SIDH
  · rw [if_neg (by omega), if_pos haddress, hnat, setRegister_of_le haddress]
    rfl
  · rw [if_pos (by omega), if_neg haddress]
    rfl

/-! ## Complete commands -/

theorem execute_write (hs : s.Idle) (address value : BitVec 8) :
    s.execute (.write address value) = .ok (if address.toNat ≤ RXB1SIDH then
      { s with registers := s.registers.write address.toNat [value] }
      else { s with state := .writeRegister, writeSelected := address.setWidth 16 }) := by
  let s₁ : Can := { s with state := .writeRegister }
  let s₂ : Can := { s₁ with writeSelected := address.setWidth 16 }
  have hcommand : s.step (.spi WRITE) = .ok s₁ := step_spi (write_command hs.state WRITE)
  have hselect : s₁.step (.spi address) = .ok s₂ :=
    step_spi (writeRegister_select (s := s₁) hs.writeSelected address)
  have hvalue : s₂.write value = _ := writeRegister_selected (s := s₂) rfl value
  calc s.execute (.write address value)
      = [Event.spi address, Event.spi value].foldlM step s₁ := foldlM_cons_of_ok hcommand _
    _ = [Event.spi value].foldlM step s₂ := foldlM_cons_of_ok hselect _
    _ = s₂.step (.spi value) := foldlM_singleton _ _
    _ = _ := by
      split
      case isTrue haddress =>
        rw [if_pos haddress] at hvalue
        rw [step_spi hvalue, ← hs.state, ← hs.writeSelected]
      case isFalse haddress =>
        rw [if_neg haddress] at hvalue
        exact step_spi hvalue

theorem execute_bitModify (hs : s.Idle) (address mask data : BitVec 8) :
    s.execute (.bitModify address mask data) = if address.toNat ≤ RXB1SIDH then
      .ok { s with
        registers := s.registers.write address.toNat
          [(s.registers address.toNat &&& ~~~mask) ||| data]
        modReg := ⟨.address, address, mask, data⟩ }
      else .error .undefined := by
  let s₁ : Can := { s with state := .bitmod }
  let s₂ : Can := { s₁ with modReg := { s.modReg with address := address, stage := .mask } }
  let s₃ : Can := { s₁ with modReg := ⟨.data, address, mask, s.modReg.data⟩ }
  have hcommand : s.step (.spi BITMOD) = .ok s₁ := step_spi (write_command hs.state BITMOD)
  have hselect : s₁.modifyRegister address = .ok (0#8, s₂) := by
    rw [modifyRegister, hs.modReg]
    rfl
  have haddress : s₁.step (.spi address) = .ok s₂ := step_spi hselect
  have hmask : s₂.step (.spi mask) = .ok s₃ := rfl
  have hdata : s₃.write data = _ := modifyRegister_data (s := s₃) rfl data
  calc s.execute (.bitModify address mask data)
      = [Event.spi address, Event.spi mask, Event.spi data].foldlM step s₁ :=
        foldlM_cons_of_ok hcommand _
    _ = [Event.spi mask, Event.spi data].foldlM step s₂ := foldlM_cons_of_ok haddress _
    _ = [Event.spi data].foldlM step s₃ := foldlM_cons_of_ok hmask _
    _ = s₃.step (.spi data) := foldlM_singleton _ _
    _ = _ := by
      split
      case isTrue hin =>
        rw [if_pos hin] at hdata
        rw [step_spi hdata, ← hs.state]
      case isFalse hout =>
        rw [if_neg hout] at hdata
        exact step_spi_error hdata

/-! ## The rules -/

/-- Data that is not masked gives the same value if its other bits are set already. -/
theorem or_eq_or_and_iff (old mask data : BitVec 8) :
    (old &&& ~~~mask) ||| data = (old &&& ~~~mask) ||| (data &&& mask) ↔
      data &&& ~~~mask &&& ~~~old = 0#8 := by
  have hbits : ∀ o m d : Bool, ((o && !m || d) = (o && !m || d && m)) ↔ (d && !m && !o) = false := by
    decide
  rw [BitVec.eq_of_getLsbD_eq_iff, BitVec.eq_of_getLsbD_eq_iff]
  refine forall₂_congr fun i hi ↦ ?_
  simp only [BitVec.getLsbD_or, BitVec.getLsbD_and, BitVec.getLsbD_not, hi, decide_true, Bool.true_and,
    BitVec.getLsbD_zero]
  exact hbits _ _ _

theorem Idle.of_registers (hs : s.Idle) (registers : Bytes) (address mask data : BitVec 8) :
    ({ s with registers := registers, modReg := ⟨.address, address, mask, data⟩ } : Can).Idle :=
  ⟨hs.state, hs.readSelected, hs.writeSelected, rfl, hs.loadTx, hs.rxPtr⟩

theorem obeys_write_iff (hs : s.Idle) (address value : BitVec 8) :
    s.Obeys (.write address value) ↔ address.toNat ≤ RXB1SIDH := by
  constructor
  · rintro ⟨s', hs', hidle, -⟩
    by_contra hout
    rw [execute_write hs, if_neg hout] at hs'
    cases hs'
    cases hidle.state
  · intro hin
    refine ⟨_, execute_write hs address value, ?_, fun a _ ↦ ?_⟩
    · rw [if_pos hin]
      exact ⟨hs.state, hs.readSelected, hs.writeSelected, hs.modReg, hs.loadTx, hs.rxPtr⟩
    · rw [if_pos hin, RegCommand.apply, if_pos hin]

theorem obeys_bitModify_iff (hs : s.Idle) (address mask data : BitVec 8) :
    s.Obeys (.bitModify address mask data) ↔ address.toNat ≤ RXB1SIDH ∧
      data &&& ~~~mask &&& ~~~(s.registers address.toNat) = 0#8 := by
  rw [← or_eq_or_and_iff]
  constructor
  · rintro ⟨s', hs', -, hregisters⟩
    rw [execute_bitModify hs] at hs'
    split at hs'
    case isTrue hin =>
      cases hs'
      have hself := hregisters address.toNat hin
      rw [RegCommand.apply, if_pos hin] at hself
      dsimp only at hself
      rw [Bytes.write_singleton, Bytes.write_singleton, if_pos rfl, if_pos rfl] at hself
      exact ⟨hin, hself⟩
    case isFalse => cases hs'
  · rintro ⟨hin, hvalue⟩
    have hs' := execute_bitModify hs address mask data
    rw [if_pos hin] at hs'
    refine ⟨_, hs', hs.of_registers _ address mask data, fun a _ ↦ ?_⟩
    rw [RegCommand.apply, if_pos hin, hvalue]

theorem obeys_iff (hs : s.Idle) (c : RegCommand) : s.Obeys c ↔ s.Clean c := by
  cases c with
  | write address value => exact obeys_write_iff hs address value
  | bitModify address mask data => exact obeys_bitModify_iff hs address mask data

theorem Idle.execute {s' : Can} {c : RegCommand} (hs : s.Idle) (hc : s.Clean c)
    (h : s.execute c = .ok s') : s'.Idle := by
  obtain ⟨s₁, hs₁, hidle, -⟩ := (obeys_iff hs c).mpr hc
  cases hs₁.symm.trans h
  exact hidle

theorem idle_initial (registers : Bytes) (txBuf rxBuf : Nat → McpFrame) :
    (initial registers txBuf rxBuf).Idle := ⟨rfl, rfl, rfl, rfl, rfl, rfl⟩

/-- Every command of a sequence follows the rules and is complete if and only if its register exists and
its data has no bit outside of its mask that is not set in the register. -/
theorem obeys_along_iff (registers : Bytes) (txBuf rxBuf : Nat → McpFrame) (cs : List RegCommand) :
    Along execute Obeys (initial registers txBuf rxBuf) cs ↔
      Along execute Clean (initial registers txBuf rxBuf) cs :=
  along_iff_of_invariant (I := Idle) (fun _ _ _ _ hs hc h ↦ hs.execute hc h)
    (fun c _ _ hs ↦ obeys_iff hs c) (idle_initial registers txBuf rxBuf)

/-- A write behind the last register is not ignored, and a modification of the mode sets the other bits
of the register. -/
theorem not_obeys :
    ¬ Along execute Obeys (initial (fun _ ↦ 0#8) (fun _ _ ↦ 0#8) fun _ _ ↦ 0#8)
        [.write 0x72#8 0#8] ∧
      ¬ Along execute Obeys (initial (fun _ ↦ 0#8) (fun _ _ ↦ 0#8) fun _ _ ↦ 0#8)
        [.bitModify 0x0F#8 0xE0#8 0xFF#8] := by
  constructor
  · rintro ⟨h, -⟩
    exact absurd ((obeys_iff (idle_initial _ _ _) _).mp h) (by unfold Clean; decide)
  · rintro ⟨h, -⟩
    exact absurd ((obeys_iff (idle_initial _ _ _) _).mp h).2 (by decide)

end Can

end CoverageVP.Platform
