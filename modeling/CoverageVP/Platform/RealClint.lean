import CoverageVP.Lib.Sequences
import CoverageVP.Platform.MemoryMap

/-!
# The core local interruptor in real time

The timer counts ticks of 32768 Hz of the clock of the host. A write of a comparator raises the timer
interrupt or starts a thread, which sleeps until the comparator is reached and then has all of the
comparators looked at.
-/

namespace CoverageVP.Platform

open Lib

/-! ## Threads that sleep -/

namespace Timer

/-- The longest sleep in nanoseconds. -/
def nsMax : BitVec 64 := 999999999#64

/-- The longest sleep in microseconds. -/
def usMax : BitVec 64 := nsMax / 1000#64

/-- The largest value of a signed word. -/
def longMax : BitVec 64 := 0x7FFFFFFFFFFFFFFF#64

/-- How a thread fails: one of its assertions, on the overflow of the nanoseconds and on their sign, or
a sleep that the host refuses. -/
inductive Failure
  | overflow | sign | nanosleep
  deriving DecidableEq, Repr

/-- The host refuses nanoseconds that make up a second. -/
def xnanosleep (nsec : BitVec 64) : Except Failure (BitVec 64) :=
  if nsec ≤ nsMax then .ok nsec else .error .nanosleep

/-- The last sleep of a thread. -/
def sleepRemaining (count : BitVec 64) : Except Failure (BitVec 64) := do
  let ns := count * 1000#64
  if ns ≤ count then throw .overflow
  if longMax < ns then throw .sign
  xnanosleep ns

/-- The sleeps of a thread that is not interrupted, for a duration in microseconds. -/
def callback (count : BitVec 64) : Except Failure (List (BitVec 64)) :=
  if usMax < count then do
    let first ← xnanosleep nsMax
    let rest ← callback (count - usMax)
    return first :: rest
  else do
    let last ← sleepRemaining count
    return [last]
termination_by count.toNat
decreasing_by
  rename_i h
  rw [BitVec.toNat_sub_of_le (BitVec.le_of_lt h)]
  exact Nat.sub_lt (Nat.lt_of_le_of_lt (Nat.zero_le _) h) (by decide)

theorem callback_of_usMax_lt {count : BitVec 64} (h : usMax < count) :
    callback count = (do
      let rest ← callback (count - usMax)
      return nsMax :: rest) := by
  rw [callback, if_pos h]
  rfl

theorem toNat_mul_thousand {count : BitVec 64} (h : ¬ usMax < count) :
    (count * 1000#64).toNat = count.toNat * 1000 ∧ count.toNat ≤ 999999 := by
  have hle : count.toNat ≤ 999999 := BitVec.not_lt.mp h
  have hfactor : (1000#64).toNat = 1000 := rfl
  rw [BitVec.toNat_mul, hfactor, Nat.mod_eq_of_lt (by omega)]
  exact ⟨rfl, hle⟩

/-- The last sleep, of less than a second. -/
theorem callback_of_not_usMax_lt {count : BitVec 64} (h : ¬ usMax < count) (hpos : 0#64 < count) :
    callback count = .ok [count * 1000#64] := by
  obtain ⟨heq, hle⟩ := toNat_mul_thousand h
  have hpos' : 0 < count.toNat := hpos
  have hoverflow : ¬ count * 1000#64 ≤ count := by
    rw [BitVec.le_def, heq]
    omega
  have hsign : ¬ longMax < count * 1000#64 := by
    rw [BitVec.lt_def, heq]
    have hmax : longMax.toNat = 9223372036854775807 := rfl
    omega
  have hsleep : count * 1000#64 ≤ nsMax := by
    rw [BitVec.le_def, heq]
    have hmax : nsMax.toNat = 999999999 := rfl
    omega
  have hremaining : sleepRemaining count = .ok (count * 1000#64) := by
    rw [sleepRemaining, if_neg hoverflow, if_neg hsign, xnanosleep, if_pos hsleep]
  rw [callback, if_neg h, hremaining]
  rfl

/-- A thread with a positive duration sleeps for at least that long. -/
theorem callback_spec (count : BitVec 64) (hpos : 0#64 < count) :
    ∃ sleeps, callback count = .ok sleeps ∧
      count.toNat * 1000 ≤ (sleeps.map BitVec.toNat).sum := by
  induction count using callback.induct with
  | case1 count h ih =>
    have hmax : usMax.toNat = 999999 := rfl
    have hlt : usMax.toNat < count.toNat := h
    have hsub : (count - usMax).toNat = count.toNat - usMax.toNat :=
      BitVec.toNat_sub_of_le (BitVec.le_of_lt h)
    have hrest : 0#64 < count - usMax := by
      rw [BitVec.lt_def, hsub]
      exact Nat.sub_pos_of_lt hlt
    obtain ⟨sleeps, hsleeps, hsum⟩ := ih hrest
    refine ⟨nsMax :: sleeps, ?_, ?_⟩
    · rw [callback_of_usMax_lt h, hsleeps]
      rfl
    · have hns : nsMax.toNat = 999999999 := rfl
      rw [hsub, hmax, Nat.sub_mul] at hsum
      rw [List.map_cons, List.sum_cons, hns]
      exact (Nat.sub_le_iff_le_add'.mp hsum).trans (Nat.add_le_add_right (by decide) _)
  | case2 count h =>
    refine ⟨[count * 1000#64], callback_of_not_usMax_lt h hpos, ?_⟩
    rw [List.map_singleton, List.sum_singleton, (toNat_mul_thousand h).1]

end Timer

/-! ## The interruptor -/

/-- The banks of registers. -/
inductive RealClintBank
  | mtimecmp | msip | mtime
  deriving DecidableEq, Repr

/-- The registers, the interrupts of the harts, the durations of the timers that are running, and the
nanoseconds of the clock since the start. -/
structure RealClint where
  regs : Registers RealClintBank
  timerInterrupt : Nat → Bool
  softwareInterrupt : Nat → Bool
  timers : Nat → Option (BitVec 64)
  now : BitVec 64

namespace RealClint

/-- Microseconds for each tick. -/
def dividend : BitVec 64 := 15625#64 / 512#64

def usecToTicks (usec : BitVec 64) : BitVec 64 := usec / dividend

def ticksToUsec (ticks : BitVec 64) : BitVec 64 := ticks * dividend

def range (cores : Nat) : RealClintBank → RegisterRange
  | .mtimecmp => ⟨0x4000, 8 * cores, false, 4⟩
  | .msip => ⟨0x0, 4 * cores, false, 4⟩
  | .mtime => ⟨0xBFF8, 8, false, 4⟩

def initial : RealClint where
  regs := fun _ _ ↦ 0#8
  timerInterrupt := fun _ ↦ false
  softwareInterrupt := fun _ ↦ false
  timers := fun _ ↦ none
  now := 0#64

variable (s : RealClint)

def mtime : BitVec 64 := (s.regs .mtime).word 64 0

def mtimecmp (hart : Nat) : BitVec 64 := (s.regs .mtimecmp).word 64 (8 * hart)

def setMem (bank : RealClintBank) (mem : Bytes) : RealClint :=
  { s with regs := s.regs.set bank mem }

def triggerTimerInterrupt (hart : Nat) (value : Bool) : RealClint :=
  { s with timerInterrupt := fun h ↦ if h = hart then value else s.timerInterrupt h }

def triggerSoftwareInterrupt (hart : Nat) (value : Bool) : RealClint :=
  { s with softwareInterrupt := fun h ↦ if h = hart then value else s.softwareInterrupt h }

/-- The thread of a timer is stopped. -/
def pause (hart : Nat) : RealClint :=
  { s with timers := fun h ↦ if h = hart then none else s.timers h }

/-- A thread is started for a timer that has been stopped. -/
def start (hart : Nat) (duration : BitVec 64) : RealClint :=
  { s with timers := fun h ↦ if h = hart then some duration else s.timers h }

/-- The ticks of the clock. -/
def ticks : BitVec 64 := usecToTicks (s.now / 1000#64)

def updateAndGetMtime : RealClint :=
  s.setMem .mtime ((s.regs .mtime).setWord 0 s.ticks)

def postWriteMtimecmp (cores addr : Nat) : Except Fault RealClint := do
  check (addr % 4 = 0) (.assertion .registerAddress)
  let hart := addr / 8
  checkIndex hart cores
  let cmp := s.mtimecmp hart
  let s := s.updateAndGetMtime
  let time := s.mtime
  let s := s.pause hart
  if cmp ≤ time then return s.triggerTimerInterrupt hart true
  else
    let s := s.triggerTimerInterrupt hart false
    return s.start hart (ticksToUsec (cmp - time))

def postWriteMsip (cores addr : Nat) : Except Fault RealClint := do
  check (addr % 4 = 0) (.assertion .registerAddress)
  let hart := addr / 4
  checkIndex hart cores
  let value := s.regs.word .msip hart &&& 1#32
  let s := { s with regs := s.regs.setWord .msip hart value }
  return s.triggerSoftwareInterrupt hart (value ≠ 0#32)

/-- The interrupt of a hart is raised if its comparator is reached. -/
def interruptHart (hart : Nat) : RealClint :=
  if s.mtimecmp hart ≤ s.mtime then s.triggerTimerInterrupt hart true else s

/-- The method that runs when a timer has elapsed. -/
def interrupt (cores : Nat) : RealClint :=
  (List.range cores).foldl interruptHart s.updateAndGetMtime

/-- A write to the timer itself is without effect on the next update. -/
def peripheral (cores : Nat) : Peripheral RealClintBank RealClint where
  name := "RealCLINT"
  banks := [.mtimecmp, .msip, .mtime]
  range := range cores
  mem := regs
  setMem := setMem
  preRead
    | .mtime, _, _, s => .ok s.updateAndGetMtime
    | _, _, _, s => .ok s
  preWrite := fun _ ↦ true
  postWrite
    | .mtimecmp, addr, _, s => s.postWriteMtimecmp cores addr
    | .msip, addr, _, s => s.postWriteMsip cores addr
    | .mtime, _, _, s => .ok s

theorem toNat_dividend : dividend.toNat = 30 := rfl

theorem toNat_usecToTicks (usec : BitVec 64) : (usecToTicks usec).toNat = usec.toNat / 30 :=
  BitVec.toNat_udiv

theorem toNat_ticksToUsec {t : BitVec 64} (h : t.toNat * dividend.toNat < 2 ^ 64) :
    (ticksToUsec t).toNat = t.toNat * 30 := by
  rw [ticksToUsec, BitVec.toNat_mul, Nat.mod_eq_of_lt h, toNat_dividend]

/-- The conversion of microseconds is the number of whole ticks for as long as the difference of 265
parts in 15625 has not added up to a tick, and the conversion of ticks is inverted without error. -/
theorem usecToTicks_iff (us t : BitVec 64) :
    (us.toNat * 512 < 2 ^ 64 →
      ((usecToTicks us).toNat = us.toNat * 512 / 15625 ↔
        265 * (us.toNat / 30) ≤ 512 * (us.toNat % 30))) ∧
    (t.toNat * dividend.toNat < 2 ^ 64 → usecToTicks (ticksToUsec t) = t) := by
  refine ⟨fun _ ↦ ?_, fun ht ↦ ?_⟩
  · rw [toNat_usecToTicks]
    omega
  · apply BitVec.eq_of_toNat_eq
    rw [toNat_usecToTicks, toNat_ticksToUsec ht]
    exact Nat.mul_div_cancel _ (by decide)

theorem usecToTicks_second :
    (usecToTicks 31#64).toNat = 31 * 512 / 15625 ∧
      usecToTicks (ticksToUsec 32768#64) = 32768#64 := by
  have hticks := usecToTicks_iff 31#64 32768#64
  exact ⟨(hticks.1 (by decide)).mpr (by decide), hticks.2 (by decide)⟩

/-- Thirty microseconds are not a tick. -/
theorem usecToTicks_thirty : ¬ ∀ us : BitVec 64, us.toNat * 512 < 2 ^ 64 →
    (usecToTicks us).toNat = us.toNat * 512 / 15625 := by
  intro h
  exact absurd (h 30#64 (by decide)) (by decide)

section Interrupt

variable {s}

theorem mtime_updateAndGetMtime : s.updateAndGetMtime.mtime = s.ticks := by
  change (s.regs.set .mtime ((s.regs .mtime).setWord 0 s.ticks) .mtime).word 64 0 = s.ticks
  rw [Registers.set_self, Bytes.word_setWord _ (by decide)]

theorem interruptHart_regs (hart : Nat) : (s.interruptHart hart).regs = s.regs := by
  unfold interruptHart
  split <;> rfl

theorem interruptHart_timerInterrupt (hart i : Nat) : (s.interruptHart hart).timerInterrupt i =
    (s.timerInterrupt i || (i == hart && s.mtimecmp i ≤ s.mtime)) := by
  unfold interruptHart
  by_cases heq : i = hart
  · subst heq
    split
    case isTrue h =>
      rw [decide_eq_true h, beq_self_eq_true, Bool.and_true, Bool.or_true]
      exact if_pos rfl
    case isFalse h => rw [decide_eq_false h, Bool.and_false, Bool.or_false]
  · rw [beq_eq_false_iff_ne.mpr heq, Bool.false_and, Bool.or_false]
    split
    case isTrue => exact if_neg heq
    case isFalse => rfl

/-- The method leaves the registers, and raises the interrupts of the comparators that are reached. -/
theorem foldl_interruptHart (harts : List Nat) :
    (harts.foldl interruptHart s).regs = s.regs ∧
      ∀ i ∈ harts, s.mtimecmp i ≤ s.mtime →
        (harts.foldl interruptHart s).timerInterrupt i = true := by
  induction harts using List.reverseRecOn with
  | nil => exact ⟨rfl, fun i hi ↦ absurd hi List.not_mem_nil⟩
  | append_singleton harts hart ih =>
    obtain ⟨hregs, hraised⟩ := ih
    rw [List.foldl_append, List.foldl_cons, List.foldl_nil]
    refine ⟨(interruptHart_regs hart).trans hregs, fun i hi hle ↦ ?_⟩
    rw [interruptHart_timerInterrupt]
    rcases List.mem_append.mp hi with hi | hi
    · rw [hraised i hi hle, Bool.true_or]
    · obtain rfl := List.mem_singleton.mp hi
      have hle' : (harts.foldl interruptHart s).mtimecmp i ≤ (harts.foldl interruptHart s).mtime := by
        rw [mtimecmp, mtime, hregs]
        exact hle
      rw [decide_eq_true hle', beq_self_eq_true, Bool.and_true, Bool.or_true]

theorem mtime_interrupt (cores : Nat) : (s.interrupt cores).mtime = s.ticks := by
  rw [mtime, interrupt, (foldl_interruptHart _).1]
  exact mtime_updateAndGetMtime

theorem timerInterrupt_interrupt {cores hart : Nat} (hhart : hart < cores)
    (h : s.mtimecmp hart ≤ s.ticks) : (s.interrupt cores).timerInterrupt hart = true := by
  refine (foldl_interruptHart _).2 hart (List.mem_range.mpr hhart) ?_
  rw [mtime_updateAndGetMtime]
  exact h

theorem toNat_ticks : s.ticks.toNat = s.now.toNat / 1000 / 30 := by
  rw [ticks, toNat_usecToTicks, BitVec.toNat_udiv]
  rfl

end Interrupt

/-! ## Writes of comparators -/

section Comparators

/-- The interrupt of a hart whose comparator has been written is not lost: it is raised because the
comparator is reached, or the timer is started with the microseconds of the missing ticks, its thread
does not fail, and the method that runs when it has slept raises the interrupt. -/
def Kept (cores hart : Nat) : Prop :=
  s.mtimecmp hart ≤ s.mtime ∧ s.timerInterrupt hart = true ∨
  ∃ duration, s.timers hart = some duration ∧ 0#64 < duration ∧
    duration.toNat = ((s.mtimecmp hart).toNat - s.mtime.toNat) * dividend.toNat ∧
    ∃ sleeps, Timer.callback duration = .ok sleeps ∧
      ∀ s' : RealClint, s'.mtimecmp hart = s.mtimecmp hart →
        s.now.toNat + (sleeps.map BitVec.toNat).sum ≤ s'.now.toNat →
        s'.mtimecmp hart ≤ (s'.interrupt cores).mtime ∧
          (s'.interrupt cores).timerInterrupt hart = true

/-- The microseconds until a comparator is reached fit into a word. -/
def Reachable (cmp : BitVec 64) : Prop :=
  (cmp.toNat - s.ticks.toNat) * dividend.toNat < 2 ^ 64

variable {s}

theorem mtimecmp_setMem (mem : Bytes) (hart : Nat) :
    (s.setMem .mtimecmp mem).mtimecmp hart = mem.word 64 (8 * hart) := by
  change (s.regs.set .mtimecmp mem .mtimecmp).word 64 (8 * hart) = mem.word 64 (8 * hart)
  rw [Registers.set_self]

/-- The hart has slept long enough. -/
theorem mtimecmp_le_ticks {cmp : BitVec 64} {s' : RealClint} {slept : Nat}
    (hslept : (cmp.toNat - s.ticks.toNat) * 30 * 1000 ≤ slept)
    (hnow : s.now.toNat + slept ≤ s'.now.toNat) : cmp ≤ s'.ticks := by
  rw [toNat_ticks] at hslept
  rw [BitVec.le_def, toNat_ticks]
  omega

/-- The timer of the hart is started. -/
theorem kept_of_started {cores hart : Nat} {duration : BitVec 64} (hhart : hart < cores)
    (hlt : s.mtime < s.mtimecmp hart) (hmtime : s.mtime = s.ticks)
    (htimer : s.timers hart = some duration)
    (hduration : duration = ticksToUsec (s.mtimecmp hart - s.mtime)) :
    s.Kept cores hart ↔ s.Reachable (s.mtimecmp hart) := by
  have hsub : (s.mtimecmp hart - s.mtime).toNat = (s.mtimecmp hart).toNat - s.mtime.toNat :=
    BitVec.toNat_sub_of_le (BitVec.le_of_lt hlt)
  have hpos : 0 < (s.mtimecmp hart).toNat - s.mtime.toNat := Nat.sub_pos_of_lt hlt
  rw [Reachable, ← hmtime]
  constructor
  · rintro (⟨hle, -⟩ | ⟨d, hd, -, htoNat, -⟩)
    · exact absurd hlt (BitVec.not_lt.mpr hle)
    · rw [← htoNat]
      exact d.isLt
  · intro hreachable
    have htoNat : duration.toNat = ((s.mtimecmp hart).toNat - s.mtime.toNat) * 30 := by
      rw [hduration, toNat_ticksToUsec (by rw [hsub]; exact hreachable), hsub]
    have hduration_pos : 0#64 < duration := by
      rw [BitVec.lt_def, htoNat]
      exact Nat.mul_pos hpos (by decide)
    obtain ⟨sleeps, hsleeps, hsum⟩ := Timer.callback_spec duration hduration_pos
    refine .inr ⟨duration, htimer, hduration_pos, htoNat, sleeps, hsleeps, fun s' hcmp hnow ↦ ?_⟩
    rw [htoNat, hmtime] at hsum
    have hle : s'.mtimecmp hart ≤ s'.ticks := by
      rw [hcmp]
      exact mtimecmp_le_ticks hsum hnow
    rw [mtime_interrupt]
    exact ⟨hle, timerInterrupt_interrupt hhart hle⟩

/-- The interrupt of the hart is kept if and only if the microseconds until its comparator is reached
fit into a word. -/
theorem postWriteMtimecmp_kept_iff (cores addr : Nat) (haligned : addr % 4 = 0)
    (hhart : addr / 8 < cores) :
    (∃ s', s.postWriteMtimecmp cores addr = .ok s' ∧ s'.Kept cores (addr / 8)) ↔
      s.Reachable (s.mtimecmp (addr / 8)) := by
  have hmtime : s.updateAndGetMtime.mtime = s.ticks := mtime_updateAndGetMtime
  have hindex : checkIndex (addr / 8) cores = .ok () := check_of hhart
  unfold postWriteMtimecmp
  dsimp only
  rw [check_of haligned, hindex, hmtime]
  dsimp only [bind, Except.bind]
  split
  case isTrue hle =>
    have hkept : ((s.updateAndGetMtime.pause (addr / 8)).triggerTimerInterrupt (addr / 8) true).Kept
        cores (addr / 8) := by
      refine .inl ⟨?_, if_pos rfl⟩
      change s.mtimecmp (addr / 8) ≤ s.updateAndGetMtime.mtime
      rw [hmtime]
      exact hle
    refine iff_of_true ⟨_, rfl, hkept⟩ ?_
    rw [Reachable, Nat.sub_eq_zero_of_le hle, Nat.zero_mul]
    decide
  case isFalse hle =>
    have hlt : s.updateAndGetMtime.mtime < s.mtimecmp (addr / 8) := by
      rw [hmtime]
      exact BitVec.not_le.mp hle
    have hiff := kept_of_started (s := ((s.updateAndGetMtime.pause (addr / 8)).triggerTimerInterrupt
      (addr / 8) false).start (addr / 8) (ticksToUsec (s.mtimecmp (addr / 8) - s.ticks)))
      hhart hlt hmtime (if_pos rfl) (by rw [← hmtime]; rfl)
    constructor
    · rintro ⟨s', h, hkept⟩
      cases h
      exact hiff.mp hkept
    · intro hreachable
      exact ⟨_, rfl, hiff.mpr hreachable⟩

/-- A write that reaches the comparators keeps the interrupt of the hart if and only if the
microseconds until the comparator that it leaves is reached fit into a word. -/
theorem kept_write_iff {cores addr : Nat} {data : List (BitVec 8)}
    (h : (peripheral cores).Reaches addr data.length .mtimecmp) :
    (∃ s', (peripheral cores).write addr data s = .ok s' ∧ s'.Kept cores ((addr - 0x4000) / 8)) ↔
      s.Reachable (((s.regs .mtimecmp).write (addr - 0x4000) data).word 64
        (8 * ((addr - 0x4000) / 8))) := by
  obtain ⟨hstart, hstop⟩ := Peripheral.bounds_of_route h.route
  have hsize : 0x4000 ≤ addr ∧ addr ≤ 0x4000 + 8 * cores - 1 := ⟨hstart, hstop⟩
  have haddr : addr % 4 = 0 := h.aligned.1
  have hiff := postWriteMtimecmp_kept_iff cores (addr - 0x4000)
    (s := s.setMem .mtimecmp ((s.regs .mtimecmp).write (addr - 0x4000) data)) (by omega) (by omega)
  rw [Peripheral.write_of_reaches h rfl rfl]
  have hticks (mem : Bytes) : (s.setMem .mtimecmp mem).ticks = s.ticks := rfl
  rw [mtimecmp_setMem, Reachable, hticks, ← Reachable] at hiff
  exact hiff

/-- The comparator is five ticks ahead. -/
theorem kept_write_five : ∃ s', (peripheral 1).write 0x4000 [5#8, 0#8, 0#8, 0#8] initial = .ok s' ∧
    s'.Kept 1 0 :=
  (kept_write_iff ⟨rfl, by decide, by decide⟩).mpr (by unfold Reachable; decide +kernel)

/-- The largest power of two. -/
def farComparator : List (BitVec 8) := [0#8, 0#8, 0#8, 0#8, 0#8, 0#8, 0#8, 0x80#8]

/-- The microseconds wrap to zero, and the thread of the timer fails. -/
theorem not_kept_write :
    ¬ ∃ s', (peripheral 1).write 0x4000 farComparator initial = .ok s' ∧ s'.Kept 1 0 := by
  rintro ⟨s', h, hkept⟩
  have hwrite := eq_ok_of_isOk (m := (peripheral 1).write 0x4000 farComparator initial)
    (by decide +kernel) initial
  cases h.symm.trans hwrite
  rcases hkept with ⟨hle, -⟩ | ⟨duration, htimer, hpos, -⟩
  · exact absurd hle (by decide +kernel)
  · have hzero : (outcome ((peripheral 1).write 0x4000 farComparator initial) initial).timers 0 =
      some 0#64 := by decide +kernel
    cases hzero.symm.trans htimer
    exact absurd hpos (by decide)

end Comparators

end RealClint

end CoverageVP.Platform
