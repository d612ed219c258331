import CoverageVP.Platform.Can

/-!
# The arrays of the CAN controller

The registers, the buffers, and the data of a frame that is sent are arrays. Addresses and lengths come
from the bytes of the commands. A modification of a register does not check its address, a payload is
loaded and sent with any length, and the command that sends all buffers names a buffer that does not
exist.
-/

namespace CoverageVP.Platform

open Lib

namespace Can

variable (s : Can)

/-! ## Conditions -/

/-- The buffer is sent in a frame. -/
def Sendable (no : Nat) : Prop := (s.txBuf no).length.toNat ≤ CAN_MAX_DLEN

/-- The byte of the payload has a place in the buffer. -/
def Loadable : Prop := s.loadTx.stage = .payload → s.loadTx.payloadPtr.toNat < CANFD_MAX_DLEN

/-- The register that is modified exists. -/
def Modifiable : Prop := s.modReg.stage = .data → s.modReg.address.toNat ≤ RXB1SIDH

/-- The byte of the buffer exists. -/
def Readable : Prop := s.rxPtr.toNat < McpFrame.rawSize

/-- The accesses for an event stay within the arrays: a byte of a command that is not checked by the
controller itself, or a frame for a free buffer. -/
def InBounds : Event → Prop
  | .spi _ =>
    match s.state with
    | .init | .readRegister | .writeRegister | .getStatus => True
    | .bitmod => s.Modifiable
    | .loadTX0 | .loadTX1 | .loadTX2 => s.Loadable
    | .sendTX0 => s.Sendable 0
    | .sendTX1 => s.Sendable 1
    | .sendTX2 => s.Sendable 2
    | .sendALL => False
    | .readRX0 | .readRX1 => s.Readable
  | .incoming frame => s.status &&& 0b11#8 = 0b11#8 ∨ frame.canDlc.toNat ≤ CANFD_MAX_DLEN

/-- The event is handled without an access outside of an array. -/
def Handled (e : Event) : Prop := ∃ s', s.step e = .ok s'

/-- The four bytes of an identifier are counted. -/
def Loading : Prop := s.loadTx.stage = .id → s.loadTx.payloadPtr.toNat < 4

/-! ## Bytes of commands -/

/-- A byte is handled exactly under a condition, and the bytes of an identifier are still counted. -/
structure HandledIff (m : Except Fault (BitVec 8 × Can)) (c : Prop) : Prop where
  ok : c → ∃ ret s', m = .ok (ret, s') ∧ s'.Loading
  error : ¬ c → m = .error .undefined

variable {s}

theorem HandledIff.of_ok {m : Except Fault (BitVec 8 × Can)} {ret : BitVec 8} {s' : Can}
    (h : m = .ok (ret, s')) (hs' : s'.Loading) : HandledIff m True where
  ok := fun _ ↦ ⟨ret, s', h, hs'⟩
  error := fun h ↦ absurd trivial h

theorem Loading.of_eq {s' : Can} (hs : s.Loading) (h : s'.loadTx = s.loadTx) : s'.Loading := by
  unfold Loading
  rw [h]
  exact hs

theorem loadTx_command (byte : BitVec 8) : (s.command byte).loadTx = s.loadTx := by
  unfold command
  split <;> rfl

/-- A register that is selected and not too high exists. -/
theorem toNat_le_of_toInt {x : BitVec 16} (hpos : ¬ x.toInt < 0) (hle : ¬ (RXB1SIDH : Int) < x.toInt) :
    x.toNat ≤ RXB1SIDH := by
  rw [BitVec.toInt_eq_toNat_cond] at hpos hle
  split at hle
  · omega
  · have hlt := x.isLt
    omega

theorem handled_readRegister (hs : s.Loading) (byte : BitVec 8) :
    HandledIff (s.readRegister byte) True := by
  unfold readRegister
  split
  case isTrue => exact .of_ok rfl hs
  case isFalse hpos =>
    split
    case isTrue => exact .of_ok rfl (hs.of_eq (loadTx_command (s := { s with readSelected := -1#16 }) byte))
    case isFalse =>
      split
      case isTrue => exact .of_ok rfl hs
      case isFalse hle =>
        rw [register_of_le (toNat_le_of_toInt hpos hle)]
        exact .of_ok rfl hs

theorem handled_writeRegister (hs : s.Loading) (byte : BitVec 8) :
    HandledIff (s.writeRegister byte) True := by
  unfold writeRegister
  split
  case isTrue => exact .of_ok rfl hs
  case isFalse hpos =>
    split
    case isTrue => exact .of_ok rfl hs
    case isFalse hle =>
      rw [setRegister_of_le (toNat_le_of_toInt hpos hle)]
      exact .of_ok rfl hs

theorem handled_modifyRegister (hs : s.Loading) (byte : BitVec 8) :
    HandledIff (s.modifyRegister byte) s.Modifiable := by
  by_cases hstage : s.modReg.stage = .data
  · have hmodify := modifyRegister_data hstage byte
    constructor
    · intro h
      rw [if_pos (h hstage)] at hmodify
      exact ⟨_, _, hmodify, hs⟩
    · intro h
      have hout : ¬ s.modReg.address.toNat ≤ RXB1SIDH := fun hle ↦ h fun _ ↦ hle
      rw [if_neg hout] at hmodify
      exact hmodify
  · refine ⟨fun _ ↦ ?_, fun h ↦ absurd (fun hdata ↦ absurd hdata hstage) h⟩
    unfold modifyRegister
    split
    case h_1 => exact ⟨_, _, rfl, hs⟩
    case h_2 => exact ⟨_, _, rfl, hs⟩
    case h_3 hdata => exact absurd hdata hstage

theorem setTxBuf_of_lt {no idx size : Nat} (hno : no < 3) (hidx : idx < size) (offset : Nat)
    (value : BitVec 8) :
    ∃ s', s.setTxBuf no offset idx size value = .ok s' ∧ s'.loadTx = s.loadTx := by
  rw [setTxBuf, within, within, check_of hno, check_of hidx]
  exact ⟨_, rfl, rfl⟩

theorem setTxBuf_of_ge {no offset idx size : Nat} (hno : no < 3) (hidx : size ≤ idx)
    (value : BitVec 8) : s.setTxBuf no offset idx size value = .error .undefined := by
  rw [setTxBuf, within, within, check_of hno, check_of_not (Nat.not_lt.mpr hidx)]
  rfl

/-- After three bytes of an identifier the fourth one is the last. -/
theorem toNat_succ_lt {ptr : BitVec 8} (hlt : ptr.toNat < 4) (hne : ptr + 1#8 ≠ 4#8) :
    (ptr + 1#8).toNat < 4 := by
  have hsucc : (ptr + 1#8).toNat = ptr.toNat + 1 := by
    rw [BitVec.toNat_add]
    exact Nat.mod_eq_of_lt (Nat.lt_trans (Nat.succ_lt_succ hlt) (by decide))
  have hfour : (ptr + 1#8).toNat ≠ 4 := fun h ↦ hne (BitVec.eq_of_toNat_eq h)
  omega

theorem handled_loadTxBuf (hs : s.Loading) {no : Nat} (hno : no < 3) (byte : BitVec 8) :
    HandledIff (s.loadTxBuf no byte) s.Loadable := by
  unfold loadTxBuf
  split
  case h_1 hstage =>
    have hptr := hs hstage
    obtain ⟨s₁, hset, hload⟩ := setTxBuf_of_lt (s := s) hno hptr 0 byte
    refine ⟨fun _ ↦ ?_, fun h ↦ absurd (fun hpayload ↦ ?_) h⟩
    · rw [hset]
      refine ⟨_, _, rfl, fun hid ↦ ?_⟩
      dsimp only at hid ⊢
      rw [hload] at hid ⊢
      split at hid
      case isTrue => cases hid
      case isFalse hne =>
        rw [if_neg hne]
        exact toNat_succ_lt hptr hne
    · rw [hstage] at hpayload
      cases hpayload
  case h_2 hstage =>
    obtain ⟨s₁, hset, -⟩ := setTxBuf_of_lt (s := s) hno Nat.one_pos 4 byte
    refine ⟨fun _ ↦ ?_, fun h ↦ absurd (fun hpayload ↦ ?_) h⟩
    · rw [hset]
      refine ⟨_, _, rfl, fun hid ↦ ?_⟩
      cases hid
    · rw [hstage] at hpayload
      cases hpayload
  case h_3 hstage =>
    refine ⟨fun h ↦ ?_, fun h ↦ ?_⟩
    · obtain ⟨s₁, hset, hload⟩ := setTxBuf_of_lt (s := s) hno (h hstage) McpFrame.payloadOffset byte
      rw [hset]
      dsimp only [bind, Except.bind]
      split
      case isTrue => exact ⟨_, _, rfl, fun _ ↦ Nat.succ_pos 3⟩
      case isFalse =>
        refine ⟨_, _, rfl, fun hid ↦ ?_⟩
        dsimp only at hid
        rw [hload, hstage] at hid
        cases hid
    · have hge : CANFD_MAX_DLEN ≤ s.loadTx.payloadPtr.toNat :=
        Nat.not_lt.mp fun hlt ↦ h fun _ ↦ hlt
      rw [setTxBuf_of_ge hno hge]
      rfl

theorem handled_sendTxBuf (hs : s.Loading) {no : Nat} (hno : no < 3) :
    HandledIff (s.sendTxBuf no) (s.Sendable no) := by
  have hfour : (if no = 4 then 0 else no) = no := if_neg (by omega)
  unfold sendTxBuf
  dsimp only
  rw [hfour, within, check_of hno]
  constructor
  · intro h
    have hle : (s.txBuf no).length.toNat ≤ CAN_MAX_DLEN := h
    have hle' : (s.txBuf no).length.toNat ≤ CANFD_MAX_DLEN := hle.trans (by decide)
    rw [check_of hle, check_of hle', setRegister_of_le (by decide)]
    exact ⟨_, _, rfl, hs⟩
  · intro h
    have hgt : ¬ (s.txBuf no).length.toNat ≤ CAN_MAX_DLEN := h
    rw [check_of_not hgt]
    rfl

/-- The number of all buffers is not the one that is replaced. -/
theorem handled_sendAll : HandledIff (s.sendTxBuf 3) False :=
  ⟨fun h ↦ h.elim, fun _ ↦ rfl⟩

theorem handled_readRxBuf (hs : s.Loading) {no : Nat} (hno : no < 2) :
    HandledIff (s.readRxBuf no) s.Readable := by
  unfold readRxBuf
  rw [within, within, check_of hno]
  constructor
  · intro h
    have hlt : s.rxPtr.toNat < McpFrame.rawSize := h
    rw [check_of hlt]
    dsimp only [bind, Except.bind]
    split
    case isTrue => exact ⟨_, _, rfl, hs⟩
    case isFalse => exact ⟨_, _, rfl, hs⟩
  · intro h
    have hge : ¬ s.rxPtr.toNat < McpFrame.rawSize := h
    rw [check_of_not hge]
    rfl

/-! ## Events -/

theorem handled_write (hs : s.Loading) (byte : BitVec 8) :
    HandledIff (s.write byte) (s.InBounds (.spi byte)) := by
  unfold write InBounds
  cases s.state with
  | init => exact .of_ok rfl (hs.of_eq (loadTx_command byte))
  | readRegister => exact handled_readRegister hs byte
  | writeRegister => exact handled_writeRegister hs byte
  | bitmod => exact handled_modifyRegister hs byte
  | loadTX0 => exact handled_loadTxBuf hs (by decide) byte
  | loadTX1 => exact handled_loadTxBuf hs (by decide) byte
  | loadTX2 => exact handled_loadTxBuf hs (by decide) byte
  | sendTX0 => exact handled_sendTxBuf hs (by decide)
  | sendTX1 => exact handled_sendTxBuf hs (by decide)
  | sendTX2 => exact handled_sendTxBuf hs (by decide)
  | sendALL => exact handled_sendAll
  | readRX0 => exact handled_readRxBuf hs (by decide)
  | readRX1 => exact handled_readRxBuf hs (by decide)
  | getStatus => exact .of_ok rfl hs

theorem enqueueIncomingCanFrame_of_full (frame : CanFrame) (h : s.status &&& 0b11#8 = 0b11#8) :
    s.enqueueIncomingCanFrame frame = .ok s := if_pos h

/-- A frame with a payload that fits is stored. -/
theorem enqueueIncomingCanFrame_of_le {frame : CanFrame}
    (h : frame.canDlc.toNat ≤ CANFD_MAX_DLEN) :
    ∃ s', s.enqueueIncomingCanFrame frame = .ok s' ∧ s'.loadTx = s.loadTx := by
  unfold enqueueIncomingCanFrame received
  split
  case isTrue => exact ⟨s, rfl, rfl⟩
  case isFalse =>
    rw [check_of h]
    exact ⟨_, rfl, rfl⟩

theorem enqueueIncomingCanFrame_of_gt {frame : CanFrame} (hfree : s.status &&& 0b11#8 ≠ 0b11#8)
    (h : ¬ frame.canDlc.toNat ≤ CANFD_MAX_DLEN) :
    s.enqueueIncomingCanFrame frame = .error .undefined := by
  unfold enqueueIncomingCanFrame received
  rw [if_neg hfree, check_of_not h]
  rfl

theorem step_of_inBounds (hs : s.Loading) {e : Event} (h : s.InBounds e) :
    ∃ s', s.step e = .ok s' ∧ s'.Loading := by
  cases e with
  | spi byte =>
    obtain ⟨ret, s', hwrite, hloading⟩ := (handled_write hs byte).ok h
    exact ⟨s', step_spi hwrite, hloading⟩
  | incoming frame =>
    rcases h with hfull | hle
    · exact ⟨s, enqueueIncomingCanFrame_of_full frame hfull, hs⟩
    · obtain ⟨s', hs', hload⟩ := enqueueIncomingCanFrame_of_le (s := s) hle
      exact ⟨s', hs', hs.of_eq hload⟩

theorem step_of_not_inBounds (hs : s.Loading) {e : Event} (h : ¬ s.InBounds e) :
    s.step e = .error .undefined := by
  cases e with
  | spi byte => exact step_spi_error ((handled_write hs byte).error h)
  | incoming frame =>
    exact enqueueIncomingCanFrame_of_gt (fun hfull ↦ h (.inl hfull)) fun hle ↦ h (.inr hle)

theorem handled_iff (hs : s.Loading) (e : Event) : s.Handled e ↔ s.InBounds e := by
  constructor
  · rintro ⟨s', hs'⟩
    by_contra h
    rw [step_of_not_inBounds hs h] at hs'
    cases hs'
  · intro h
    obtain ⟨s', hs', -⟩ := step_of_inBounds hs h
    exact ⟨s', hs'⟩

theorem Loading.step {s' : Can} {e : Event} (hs : s.Loading) (h : s.InBounds e)
    (hs' : s.step e = .ok s') : s'.Loading := by
  obtain ⟨s₁, hs₁, hloading⟩ := step_of_inBounds hs h
  cases hs₁.symm.trans hs'
  exact hloading

/-- Every access for a sequence of bytes and frames stays within its array if and only if no
modification of a register is behind the last one, no payload is loaded behind its buffer, no buffer
with more than eight bytes is sent, not all buffers are sent, no buffer is read behind its end, and no
frame with more than sixty-four bytes comes in for a free buffer. -/
theorem handled_along_iff (registers : Bytes) (txBuf rxBuf : Nat → McpFrame) (es : List Event) :
    Along step Handled (initial registers txBuf rxBuf) es ↔
      Along step InBounds (initial registers txBuf rxBuf) es :=
  along_iff_of_invariant (I := Loading) (fun _ _ _ _ hs h hs' ↦ hs.step h hs')
    (fun e _ _ hs ↦ handled_iff hs e) fun _ ↦ Nat.succ_pos 3

/-- All buffers are sent. -/
theorem not_handled_all :
    ¬ Along step Handled (initial (fun _ ↦ 0#8) (fun _ _ ↦ 0#8) fun _ _ ↦ 0#8)
      [.spi RTS_ALL, .spi 0#8] := by
  intro h
  have hall : (initial (fun _ ↦ 0#8) (fun _ _ ↦ 0#8) fun _ _ ↦ 0#8).step (.spi RTS_ALL) =
      .ok { initial (fun _ ↦ 0#8) (fun _ _ ↦ 0#8) fun _ _ ↦ 0#8 with state := .sendALL } := rfl
  obtain ⟨⟨s', hs'⟩, -⟩ := h.2 _ hall
  cases hs'

end Can

end CoverageVP.Platform
