import CoverageVP.Lib.Notification
import CoverageVP.Lib.Sequences
import CoverageVP.Platform.MemoryMap

/-!
# The core local interruptor

The timer counts the microseconds of the simulation, which has a resolution of picoseconds. A thread
runs when an event is notified, compares the timer with the comparator of every hart, and notifies
the event again for the comparators that are ahead.
-/

namespace CoverageVP.Platform

open Lib

/-- The banks of registers. -/
inductive ClintBank
  | mtime | mtimecmp | msip
  deriving DecidableEq, Repr

/-- The registers, the interrupts of the harts, the time of the simulation in picoseconds, and the
event of the thread. -/
structure Clint where
  regs : Registers ClintBank
  timerInterrupt : Nat → Bool
  softwareInterrupt : Nat → Bool
  now : BitVec 64
  irqEvent : Notification Nat

namespace Clint

/-- Picoseconds are scaled to microseconds. -/
def scaler : BitVec 64 := 1000000#64

/-- Two clock cycles. -/
def transportDelay : BitVec 64 := 20000#64

def range (cores : Nat) : ClintBank → RegisterRange
  | .mtime => ⟨0xBFF8, 8, false, 4⟩
  | .mtimecmp => ⟨0x4000, 8 * cores, false, 4⟩
  | .msip => ⟨0x0, 4 * cores, false, 4⟩

def initial : Clint where
  regs := fun _ _ ↦ 0#8
  timerInterrupt := fun _ ↦ false
  softwareInterrupt := fun _ ↦ false
  now := 0#64
  irqEvent := .none

/-! ## Registers -/

variable (s : Clint)

def mtime : BitVec 64 := (s.regs .mtime).word 64 0

def mtimecmp (hart : Nat) : BitVec 64 := (s.regs .mtimecmp).word 64 (8 * hart)

def setMem (bank : ClintBank) (mem : Bytes) : Clint :=
  { s with regs := s.regs.set bank mem }

def setMtime (value : BitVec 64) : Clint :=
  s.setMem .mtime ((s.regs .mtime).setWord 0 value)

def triggerTimerInterrupt (hart : Nat) (value : Bool) : Clint :=
  { s with timerInterrupt := fun h ↦ if h = hart then value else s.timerInterrupt h }

def triggerSoftwareInterrupt (hart : Nat) (value : Bool) : Clint :=
  { s with softwareInterrupt := fun h ↦ if h = hart then value else s.softwareInterrupt h }

/-- The timer does not go back. -/
def updateAndGetMtime : Clint :=
  if s.mtime < s.now / scaler then s.setMtime (s.now / scaler) else s

/-- The time of a notification. -/
def notifyTime (delay : BitVec 64) : Option Nat :=
  if delay = 0#64 then none else some (s.now + delay).toNat

def notify (delay : BitVec 64) : Clint :=
  { s with irqEvent := s.irqEvent.notify (s.notifyTime delay) }

/-- The thread looks at one hart. -/
def runHart (hart : Nat) : Clint :=
  let cmp := s.mtimecmp hart
  if 0#64 < cmp ∧ cmp ≤ s.mtime then s.triggerTimerInterrupt hart true
  else
    let s := s.triggerTimerInterrupt hart false
    if 0#64 < cmp ∧ cmp < BitVec.allOnes 64 then s.notify (cmp * scaler - s.mtime * scaler) else s

def run (cores : Nat) : Clint :=
  (List.range cores).foldl runHart s.updateAndGetMtime

/-- A read of the timer sets it to the local time of the hart that reads. -/
def preReadMtime (delay : BitVec 64) : Clint :=
  s.setMtime ((s.now + delay) / scaler)

def postWriteMsip (cores addr : Nat) : Except Fault Clint := do
  check (addr % 4 = 0) (.assertion .registerAddress)
  let idx := addr / 4
  checkIndex idx cores
  let value := s.regs.word .msip idx &&& 1#32
  let s := { s with regs := s.regs.setWord .msip idx value }
  return s.triggerSoftwareInterrupt idx (value ≠ 0#32)

/-- The registers, for an access of a hart whose local time is ahead by a delay. -/
def peripheral (cores : Nat) (delay : BitVec 64) : Peripheral ClintBank Clint where
  name := "CLINT"
  banks := [.mtime, .mtimecmp, .msip]
  range := range cores
  mem := regs
  setMem := setMem
  preRead
    | .mtime, _, _, s => .ok (s.preReadMtime delay)
    | _, _, _, s => .ok s
  preWrite := fun _ ↦ true
  postWrite
    | .mtimecmp, _, _, s => .ok (s.notify delay)
    | .msip, addr, _, s => s.postWriteMsip cores addr
    | _, _, _, s => .ok s

/-! ## Events -/

/-- What happens: a hart reads or writes the registers at its local time, a hart reads the timer as a
CSR, the simulation goes on to a later time, or the thread runs. -/
inductive Event
  | read (addr len : Nat) (delay : BitVec 64)
  | write (addr : Nat) (data : List (BitVec 8)) (delay : BitVec 64)
  | time
  | advance (t : BitVec 64)
  | run

/-- The thread runs when its event has been notified. -/
def due : Bool :=
  match s.irqEvent with
  | .none => false
  | .delta => true
  | .timed t => t ≤ s.now.toNat

def step (cores : Nat) (s : Clint) : Event → Except Fault Clint
  | .read addr len delay => do
    let result ← (peripheral cores (delay + transportDelay)).read addr len s
    return result.2
  | .write addr data delay => (peripheral cores (delay + transportDelay)).write addr data s
  | .time => .ok s.updateAndGetMtime
  | .advance t => .ok (if s.now < t then { s with now := t } else s)
  | .run => .ok (if s.due then ({ s with irqEvent := .none }).run cores else s)

variable {s}

theorem mtime_setMem (mem : Bytes) : (s.setMem .mtime mem).mtime = mem.word 64 0 := by
  change (s.regs.set .mtime mem .mtime).word 64 0 = mem.word 64 0
  rw [Registers.set_self]

theorem mtime_setMtime (value : BitVec 64) : (s.setMtime value).mtime = value := by
  rw [setMtime, mtime_setMem, Bytes.word_setWord _ (by decide)]

theorem mtime_updateAndGetMtime :
    s.updateAndGetMtime.mtime = if s.mtime < s.now / scaler then s.now / scaler else s.mtime := by
  unfold updateAndGetMtime
  split
  · exact mtime_setMtime _
  · rfl

theorem mtimecmp_updateAndGetMtime (hart : Nat) :
    s.updateAndGetMtime.mtimecmp hart = s.mtimecmp hart := by
  unfold updateAndGetMtime
  split <;> rfl

theorem now_updateAndGetMtime : s.updateAndGetMtime.now = s.now := by
  unfold updateAndGetMtime
  split <;> rfl

theorem irqEvent_updateAndGetMtime : s.updateAndGetMtime.irqEvent = s.irqEvent := by
  unfold updateAndGetMtime
  split <;> rfl

/-! ## The thread -/

section Thread

variable (s)

/-- The comparator of the hart is ahead of the timer and not the largest value. -/
def waiting (hart : Nat) : Bool :=
  0#64 < s.mtimecmp hart ∧ s.mtimecmp hart < BitVec.allOnes 64 ∧ s.mtime < s.mtimecmp hart

/-- The comparator of the hart is reached. -/
def expired (hart : Nat) : Bool := 0#64 < s.mtimecmp hart ∧ s.mtimecmp hart ≤ s.mtime

/-- The delay until the comparator of the hart is reached, as far as words hold it. -/
def delay (hart : Nat) : BitVec 64 := s.mtimecmp hart * scaler - s.mtime * scaler

/-- The notifications of a run. -/
def notifications (harts : List Nat) : List (Option Nat) :=
  (harts.filter s.waiting).map fun hart ↦ s.notifyTime (s.delay hart)

variable {s} {s' : Clint}

theorem runHart_regs (hart : Nat) : (s.runHart hart).regs = s.regs := by
  unfold runHart
  dsimp only
  split
  · rfl
  · split <;> rfl

theorem runHart_now (hart : Nat) : (s.runHart hart).now = s.now := by
  unfold runHart
  dsimp only
  split
  · rfl
  · split <;> rfl

theorem runHart_timerInterrupt (hart i : Nat) : (s.runHart hart).timerInterrupt i =
    if i = hart then s.expired hart else s.timerInterrupt i := by
  unfold runHart expired
  dsimp only
  split
  case isTrue h =>
    rw [decide_eq_true h]
    rfl
  case isFalse h =>
    rw [decide_eq_false h]
    split <;> rfl

theorem runHart_irqEvent (hart : Nat) : (s.runHart hart).irqEvent =
    if s.waiting hart then s.irqEvent.notify (s.notifyTime (s.delay hart)) else s.irqEvent := by
  have hexpired : (0#64 < s.mtimecmp hart ∧ s.mtimecmp hart ≤ s.mtime) →
      s.waiting hart = false := by
    rintro ⟨-, hle⟩
    exact decide_eq_false fun h ↦ absurd h.2.2 (BitVec.not_lt.mpr hle)
  unfold runHart
  dsimp only
  split
  case isTrue h =>
    rw [hexpired h]
    rfl
  case isFalse h =>
    split
    case isTrue hwait =>
      have hwaiting : s.waiting hart = true :=
        decide_eq_true ⟨hwait.1, hwait.2, BitVec.not_le.mp fun hle ↦ h ⟨hwait.1, hle⟩⟩
      have hmtime : (s.triggerTimerInterrupt hart false).mtime = s.mtime := rfl
      rw [hwaiting, if_pos rfl, hmtime, delay]
      rfl
    case isFalse hwait =>
      have hwaiting : s.waiting hart = false := decide_eq_false fun hw ↦ hwait ⟨hw.1, hw.2.1⟩
      rw [hwaiting]
      rfl

theorem notifications_congr (hregs : s'.regs = s.regs) (hnow : s'.now = s.now) (harts : List Nat) :
    s'.notifications harts = s.notifications harts := by
  obtain ⟨regs, timerInterrupt, softwareInterrupt, now, irqEvent⟩ := s
  obtain ⟨regs', timerInterrupt', softwareInterrupt', now', irqEvent'⟩ := s'
  obtain rfl : regs' = regs := hregs
  obtain rfl : now' = now := hnow
  rfl

theorem expired_congr (hregs : s'.regs = s.regs) : s'.expired = s.expired := by
  obtain ⟨regs, timerInterrupt, softwareInterrupt, now, irqEvent⟩ := s
  obtain ⟨regs', timerInterrupt', softwareInterrupt', now', irqEvent'⟩ := s'
  obtain rfl : regs' = regs := hregs
  rfl

/-- A run leaves the registers. -/
theorem foldl_runHart_regs (harts : List Nat) :
    (harts.foldl runHart s).regs = s.regs ∧ (harts.foldl runHart s).now = s.now := by
  induction harts generalizing s with
  | nil => exact ⟨rfl, rfl⟩
  | cons hart harts ih =>
    obtain ⟨hregs, hnow⟩ := ih (s := s.runHart hart)
    exact ⟨hregs.trans (runHart_regs hart), hnow.trans (runHart_now hart)⟩

theorem foldl_runHart_irqEvent (harts : List Nat) : (harts.foldl runHart s).irqEvent =
    s.irqEvent.notifyAll (s.notifications harts) := by
  induction harts generalizing s with
  | nil => rfl
  | cons hart harts ih =>
    have hrest := notifications_congr (s := s) (runHart_regs hart) (runHart_now hart) harts
    rw [List.foldl_cons, ih, hrest, runHart_irqEvent, notifications, notifications]
    cases hwaiting : s.waiting hart with
    | true =>
      rw [List.filter_cons_of_pos hwaiting, if_pos rfl]
      rfl
    | false =>
      rw [List.filter_cons_of_neg (Bool.not_eq_true _ ▸ hwaiting), if_neg Bool.false_ne_true]

theorem foldl_runHart_timerInterrupt (harts : List Nat) (i : Nat) :
    (harts.foldl runHart s).timerInterrupt i =
      if i ∈ harts then s.expired i else s.timerInterrupt i := by
  induction harts generalizing s with
  | nil => rfl
  | cons hart harts ih =>
    rw [List.foldl_cons, ih, expired_congr (runHart_regs hart), runHart_timerInterrupt]
    by_cases hmem : i ∈ harts
    · rw [if_pos hmem, if_pos (List.mem_cons_of_mem hart hmem)]
    · rw [if_neg hmem]
      by_cases heq : i = hart
      · rw [if_pos heq, heq, if_pos List.mem_cons_self]
      · rw [if_neg heq, if_neg fun h ↦ (List.mem_cons.mp h).elim heq hmem]

variable {cores : Nat}

theorem mtime_run : (s.run cores).mtime = s.updateAndGetMtime.mtime := by
  rw [mtime, run, (foldl_runHart_regs _).1, mtime]

theorem mtimecmp_run (hart : Nat) : (s.run cores).mtimecmp hart = s.mtimecmp hart := by
  rw [mtimecmp, run, (foldl_runHart_regs _).1]
  exact mtimecmp_updateAndGetMtime hart

theorem now_run : (s.run cores).now = s.now := by
  rw [run, (foldl_runHart_regs _).2, now_updateAndGetMtime]

theorem irqEvent_run : (s.run cores).irqEvent =
    s.irqEvent.notifyAll (s.updateAndGetMtime.notifications (List.range cores)) := by
  rw [run, foldl_runHart_irqEvent, irqEvent_updateAndGetMtime]

theorem timerInterrupt_run {hart : Nat} (hhart : hart < cores) :
    (s.run cores).timerInterrupt hart = s.updateAndGetMtime.expired hart := by
  rw [run, foldl_runHart_timerInterrupt, if_pos (List.mem_range.mpr hhart)]

end Thread

end Clint

end CoverageVP.Platform
