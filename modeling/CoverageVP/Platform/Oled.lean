import CoverageVP.Lib.Sequences
import CoverageVP.Platform.MemoryMap

/-!
# The display

A byte is data or a command, as a pin says. Data goes to the frame at the page and the column of the
display, and the column is incremented. The guards before the frame is written let the first column and
the first page pass that are not on the display.
-/

namespace CoverageVP.Platform

open Lib

namespace Ss1106

def width : Nat := 132

def height : Nat := 64

inductive Operator
  | colLow | colHigh | pumpVoltage | displayStartLine | contrastModeSet | segmentRemap | entireDisplay
  | normalInverse | multiplexRatio | dcDcVoltage | displayOn | pageAddr | commonOutputDir
  | displayOffset | displayDivideRatio | disPreChargePeriod | commonPadsStuff | vcomDeselect | rmw
  | rmwEnd | nop
  deriving DecidableEq, Repr

namespace Operator

/-- The operators in the order in which a command is compared with them. -/
def all : List Operator :=
  [colLow, colHigh, pumpVoltage, displayStartLine, contrastModeSet, segmentRemap, entireDisplay,
    normalInverse, multiplexRatio, dcDcVoltage, displayOn, pageAddr, commonOutputDir, displayOffset,
    displayDivideRatio, disPreChargePeriod, commonPadsStuff, vcomDeselect, rmw, rmwEnd, nop]

def opcode : Operator → BitVec 8
  | colLow => 0x00#8
  | colHigh => 0x10#8
  | pumpVoltage => 0b00110000#8
  | displayStartLine => 0b01000000#8
  | contrastModeSet => 0b10000001#8
  | segmentRemap => 0xA0#8
  | entireDisplay => 0xA4#8
  | normalInverse => 0xA6#8
  | multiplexRatio => 0b10101000#8
  | dcDcVoltage => 0x8B#8
  | displayOn => 0xAE#8
  | pageAddr => 0xB0#8
  | commonOutputDir => 0xC0#8
  | displayOffset => 0b11010011#8
  | displayDivideRatio => 0b11010101#8
  | disPreChargePeriod => 0b11011001#8
  | commonPadsStuff => 0b11011010#8
  | vcomDeselect => 0b11011011#8
  | rmw => 0b11100000#8
  | rmwEnd => 0b11101110#8
  | nop => 0b11100011#8

def mask : Operator → BitVec 8
  | displayStartLine => 0b11000000#8
  | colLow | colHigh | pageAddr | commonOutputDir => 0b11110000#8
  | pumpVoltage => 0b11111100#8
  | segmentRemap | entireDisplay | normalInverse | displayOn => 0b11111110#8
  | contrastModeSet | multiplexRatio | dcDcVoltage | displayOffset | displayDivideRatio
  | disPreChargePeriod | commonPadsStuff | vcomDeselect | rmw | rmwEnd | nop => 0b11111111#8

end Operator

structure Command where
  op : Operator
  payload : BitVec 8
  deriving DecidableEq, Repr

inductive Mode
  | normal | secondArg
  deriving DecidableEq, Repr

/-- The operator of a command is the first one that it agrees with. -/
def matchCommand (cmd : BitVec 8) : Command :=
  match Operator.all.find? fun op ↦ (cmd ^^^ op.opcode) &&& op.mask == 0#8 with
  | some op => ⟨op, cmd &&& ~~~op.mask⟩
  | none => ⟨.nop, 0#8⟩

end Ss1106

open Ss1106

/-- What is shown, where the next byte goes, and the command that waits for an argument. -/
structure Ss1106 where
  mode : Mode
  lastCmd : Command
  changed : Bool
  column : BitVec 8
  page : BitVec 8
  pumpVoltage : BitVec 2
  contrast : BitVec 8
  invertColor : BitVec 1
  displayOn : BitVec 1
  frame : Nat → Nat → BitVec 8

namespace Ss1106

def initial : Ss1106 where
  mode := .normal
  lastCmd := ⟨.nop, 0#8⟩
  changed := false
  column := 0#8
  page := 0#8
  pumpVoltage := 0#2
  contrast := 0#8
  invertColor := 0#1
  displayOn := 0#1
  frame := fun _ _ ↦ 0#8

variable (s : Ss1106)

/-- A byte of the frame is written. There are no bytes outside of it. -/
def setFrame (page column : Nat) (byte : BitVec 8) : Except Fault Ss1106 := do
  check (page < height / 8 ∧ column < width) .undefined
  return { s with frame := fun p c ↦ if p = page ∧ c = column then byte else s.frame p c }

/-- A data byte is refused behind the last column or page. -/
def writeData (byte : BitVec 8) : Except Fault (BitVec 8 × Ss1106) :=
  if width < s.column.toNat then return (0xFF#8, s)
  else if height / 8 < s.page.toNat then return (0xFF#8, s)
  else do
    let s ← s.setFrame s.page.toNat s.column.toNat byte
    return (0#8, { s with changed := true, column := s.column + 1#8 })

def execute (cmd : Command) : Ss1106 :=
  let s := { s with lastCmd := cmd }
  match cmd.op with
  | .colLow => { s with column := (s.column &&& 0xF0#8) ||| cmd.payload }
  | .colHigh => { s with column := (s.column &&& 0x0F#8) ||| (cmd.payload <<< 4) }
  | .pumpVoltage => { s with pumpVoltage := cmd.payload.setWidth 2 }
  | .contrastModeSet => { s with mode := .secondArg }
  | .normalInverse => { s with invertColor := cmd.payload.setWidth 1 }
  | .displayOn => { s with displayOn := cmd.payload.setWidth 1 }
  | .pageAddr => { s with page := cmd.payload }
  | _ => s

def writeCommand (byte : BitVec 8) : Ss1106 :=
  match s.mode with
  | .normal => s.execute (matchCommand byte)
  | .secondArg =>
    match s.lastCmd.op with
    | .contrastModeSet => { s with contrast := byte, changed := true, mode := .normal }
    | _ => { s with mode := .normal }

/-- The pin of the display says whether the byte is data. -/
def write (dcPin : Bool) (byte : BitVec 8) : Except Fault (BitVec 8 × Ss1106) :=
  if dcPin then s.writeData byte else return (0#8, s.writeCommand byte)

/-- A byte with the pin of the display. -/
structure Byte where
  dcPin : Bool
  byte : BitVec 8
  deriving DecidableEq, Repr

def step (b : Byte) : Except Fault Ss1106 := do
  let (_, s) ← s.write b.dcPin b.byte
  return s

/-! ## The display and its frame -/

/-- The next byte goes to the display. -/
def OnDisplay : Prop := s.page.toNat < height / 8 ∧ s.column.toNat < width

/-- The byte is taken: the frame is written on the display only, and is not changed by data that goes
elsewhere. -/
def Stays (b : Byte) : Prop :=
  ∃ s', s.step b = .ok s' ∧ (b.dcPin = true → ¬ s.OnDisplay → s'.frame = s.frame)

/-- The next byte goes right behind the last column or the last page, and no guard refuses it. -/
def AtEdge : Prop :=
  s.column.toNat = width ∧ s.page.toNat ≤ height / 8 ∨
    s.page.toNat = height / 8 ∧ s.column.toNat ≤ width

variable {s}

theorem step_command (byte : BitVec 8) : s.step ⟨false, byte⟩ = .ok (s.writeCommand byte) := rfl

theorem step_data_of_refused (h : width < s.column.toNat ∨ height / 8 < s.page.toNat)
    (byte : BitVec 8) : s.step ⟨true, byte⟩ = .ok s := by
  have hdata : s.writeData byte = .ok (0xFF#8, s) := by
    unfold writeData
    by_cases hcolumn : width < s.column.toNat
    · rw [if_pos hcolumn]
      rfl
    · rw [if_neg hcolumn, if_pos (h.resolve_left hcolumn)]
      rfl
  unfold step write
  rw [if_pos rfl, hdata]
  rfl

theorem writeData_of_le (hcolumn : s.column.toNat ≤ width) (hpage : s.page.toNat ≤ height / 8)
    (byte : BitVec 8) : s.writeData byte = (do
      let s ← s.setFrame s.page.toNat s.column.toNat byte
      return (0#8, { s with changed := true, column := s.column + 1#8 })) := by
  rw [writeData, if_neg (Nat.not_lt.mpr hcolumn), if_neg (Nat.not_lt.mpr hpage)]

theorem step_data_of_onDisplay (h : s.OnDisplay) (byte : BitVec 8) :
    ∃ s', s.step ⟨true, byte⟩ = .ok s' := by
  have hin : s.page.toNat < height / 8 ∧ s.column.toNat < width := h
  unfold step write
  rw [if_pos rfl, writeData_of_le (Nat.le_of_lt h.2) (Nat.le_of_lt h.1), setFrame, check_of hin]
  exact ⟨_, rfl⟩

theorem step_data_of_atEdge (h : s.AtEdge) (byte : BitVec 8) :
    s.step ⟨true, byte⟩ = .error .undefined := by
  have hout : ¬ (s.page.toNat < height / 8 ∧ s.column.toNat < width) := by
    unfold AtEdge at h
    omega
  unfold step write
  rw [if_pos rfl, writeData_of_le (by unfold AtEdge at h; omega) (by unfold AtEdge at h; omega),
    setFrame, check_of_not hout]
  rfl

/-- A byte is taken unless it is data at the edge. -/
theorem stays_iff (s : Ss1106) (b : Byte) : s.Stays b ↔ (b.dcPin = true → ¬ s.AtEdge) := by
  obtain ⟨dcPin, byte⟩ := b
  cases dcPin with
  | false =>
    refine iff_of_true ⟨s.writeCommand byte, step_command byte, fun h ↦ ?_⟩ fun h ↦ ?_
    · cases h
    · cases h
  | true =>
    constructor
    · rintro ⟨s', hs', -⟩ - hedge
      rw [step_data_of_atEdge hedge] at hs'
      cases hs'
    · intro h
      have hedge := h rfl
      by_cases hdisplay : s.OnDisplay
      · obtain ⟨s', hs'⟩ := step_data_of_onDisplay hdisplay byte
        exact ⟨s', hs', fun _ hout ↦ absurd hdisplay hout⟩
      · have hrefused : width < s.column.toNat ∨ height / 8 < s.page.toNat := by
          unfold OnDisplay at hdisplay
          unfold AtEdge at hedge
          omega
        exact ⟨s, step_data_of_refused hrefused byte, fun _ _ ↦ rfl⟩

/-! ## Sequences of bytes -/

/-- The frame is written on the display only, and data that goes elsewhere leaves it, if and only if no
data byte of a sequence comes at the edge. -/
theorem stays_along_iff (bytes : List Byte) :
    Along step Stays initial bytes ↔
      Along step (fun s b ↦ b.dcPin = true → ¬ s.AtEdge) initial bytes :=
  along_congr stays_iff initial bytes

/-- The ninth page is selected before a data byte. -/
theorem not_stays_ninth_page :
    ¬ Along step Stays initial [⟨false, 0xB8#8⟩, ⟨true, 0xFF#8⟩] := by
  intro h
  have hpage : [Byte.mk false 0xB8#8].foldlM step initial = .ok (initial.writeCommand 0xB8#8) := rfl
  have hstays := Along.last [Byte.mk false 0xB8#8] h hpage
  exact (stays_iff _ _).mp hstays rfl (.inr ⟨by decide, by decide⟩)

end Ss1106

end CoverageVP.Platform
