import CoverageVP.Platform.Clint

/-!
# The timer as a clock

The timer has to be a clock that software cannot set. The thread and the CSR never set it back. A
read sets it to the local time of the hart that reads, which may be behind that of another hart, and
a write goes to the register as to any other.
-/

namespace CoverageVP.Platform

open Lib

namespace Clint

variable (cores : Nat)

/-- The timer does not go back, and a write leaves it. -/
def KeepsClock (s : Clint) (e : Event) : Prop :=
  ∀ s', s.step cores e = .ok s' → s.mtime ≤ s'.mtime ∧
    ∀ addr data delay, e = .write addr data delay → s'.mtime = s.mtime

/-- A hart reads the timer at a local time that the timer has not passed, and writes the bytes that
are in the register. -/
def Harmless (s : Clint) : Event → Prop
  | .read addr len delay => (peripheral cores (delay + transportDelay)).Reaches addr len .mtime →
    s.mtime ≤ (s.now + (delay + transportDelay)) / scaler
  | .write addr data delay =>
    (peripheral cores (delay + transportDelay)).Reaches addr data.length .mtime →
      (s.regs .mtime).read ((range cores .mtime).toLocal addr) data.length = data
  | _ => True

section Events

variable {cores} {s s' : Clint}

theorem mtime_le_updateAndGetMtime : s.mtime ≤ s.updateAndGetMtime.mtime := by
  rw [mtime_updateAndGetMtime]
  split
  case isTrue h => exact BitVec.le_of_lt h
  case isFalse => exact BitVec.le_refl _

theorem keepsClock_run : KeepsClock cores s .run := by
  intro s' h
  cases h
  refine ⟨?_, fun addr data delay h ↦ ?_⟩
  · split
    · rw [mtime_run]
      exact mtime_le_updateAndGetMtime (s := { s with irqEvent := .none })
    · exact BitVec.le_refl _
  · cases h

theorem keepsClock_time : KeepsClock cores s .time := by
  intro s' h
  cases h
  refine ⟨mtime_le_updateAndGetMtime, fun addr data delay h ↦ ?_⟩
  cases h

theorem keepsClock_advance (t : BitVec 64) : KeepsClock cores s (.advance t) := by
  intro s' h
  cases h
  refine ⟨?_, fun addr data delay h ↦ ?_⟩
  · split <;> exact BitVec.le_refl _
  · cases h

theorem keepsClock_read_iff {addr len : Nat} {delay : BitVec 64} :
    KeepsClock cores s (.read addr len delay) ↔ Harmless cores s (.read addr len delay) := by
  constructor
  · intro hkeeps hreaches
    have hread : (peripheral cores (delay + transportDelay)).read addr len s =
        .ok (_, s.preReadMtime (delay + transportDelay)) :=
      Peripheral.read_eq_ok_iff.mpr ⟨.mtime, hreaches, rfl, rfl⟩
    have hstep : s.step cores (.read addr len delay) =
        .ok (s.preReadMtime (delay + transportDelay)) := by
      rw [step, hread]
      rfl
    have hle := (hkeeps _ hstep).1
    rw [preReadMtime, mtime_setMtime] at hle
    exact hle
  · intro hharmless s' h
    obtain ⟨⟨data, s₁⟩, hread, h⟩ := bind_eq_ok.mp h
    cases h
    obtain ⟨b, hreaches, hpre, -⟩ := Peripheral.read_eq_ok_iff.mp hread
    refine ⟨?_, fun addr data delay h ↦ ?_⟩
    · cases b with
      | mtime =>
        cases hpre
        rw [preReadMtime, mtime_setMtime]
        exact hharmless hreaches
      | mtimecmp | msip =>
        cases hpre
        exact BitVec.le_refl _
    · cases h

/-- A write changes the timer if it goes to its register and writes other bytes. -/
theorem keepsClock_write_iff {addr : Nat} {data : List (BitVec 8)} {delay : BitVec 64} :
    KeepsClock cores s (.write addr data delay) ↔ Harmless cores s (.write addr data delay) := by
  set d := peripheral cores (delay + transportDelay) with hd
  have hword : d.Reaches addr data.length .mtime →
      ((s.setMem .mtime ((s.regs .mtime).write ((range cores .mtime).toLocal addr) data)).mtime =
          s.mtime ↔
        (s.regs .mtime).read ((range cores .mtime).toLocal addr) data.length = data) := by
    intro hreaches
    have hbounds : (range cores .mtime).toLocal addr + data.length ≤ 64 / 8 := hreaches.bounds
    rw [mtime_setMem, mtime]
    exact Bytes.word_write_eq_iff (s.regs .mtime) (by decide) hbounds
  constructor
  · intro hkeeps hreaches
    have hstep : s.step cores (.write addr data delay) = .ok
        (s.setMem .mtime ((s.regs .mtime).write ((range cores .mtime).toLocal addr) data)) :=
      Peripheral.write_of_reaches hreaches rfl rfl
    exact (hword hreaches).mp ((hkeeps _ hstep).2 addr data delay rfl)
  · intro hharmless s' h
    have hsame : s'.mtime = s.mtime := by
      obtain ⟨b, hreaches, -, h⟩ := Peripheral.write_eq_ok_iff.mp h
      cases b with
      | mtime =>
        cases h
        exact (hword hreaches).mpr (hharmless hreaches)
      | mtimecmp =>
        cases h
        rfl
      | msip =>
        obtain ⟨-, h⟩ := check_bind_eq_ok_iff.mp h
        obtain ⟨-, h⟩ := check_bind_eq_ok_iff.mp h
        cases h
        rfl
    rw [hsame]
    exact ⟨BitVec.le_refl _, fun _ _ _ _ ↦ rfl⟩

end Events

/-- The timer is a clock along a sequence of events if and only if every read comes at a local time
that the timer has not passed and every write leaves the bytes of the register. -/
theorem keepsClock_iff_harmless (events : List Event) :
    Along (step cores) (KeepsClock cores) initial events ↔
      Along (step cores) (Harmless cores) initial events := by
  refine along_congr (fun s e ↦ ?_) initial events
  cases e with
  | read addr len delay => exact keepsClock_read_iff
  | write addr data delay => exact keepsClock_write_iff
  | time => exact iff_of_true keepsClock_time trivial
  | advance t => exact iff_of_true (keepsClock_advance t) trivial
  | run => exact iff_of_true keepsClock_run trivial

/-- Two harts read the timer, the first one ahead of the second one. -/
def twoReads : List Event := [.read 0xBFF8 8 10000000#64, .read 0xBFF8 8 0#64]

/-- The timer goes back, and it can be written. -/
theorem not_keepsClock :
    ¬ Along (step 1) (KeepsClock 1) initial twoReads ∧
      ¬ Along (step 1) (KeepsClock 1) initial
        [.write 0xBFF8 [1#8, 0#8, 0#8, 0#8] 0#64] := by
  constructor
  · intro h
    have hfirst := eq_ok_of_isOk (m := initial.step 1 (.read 0xBFF8 8 10000000#64))
      (by decide +kernel) initial
    have hsecond := eq_ok_of_isOk (m := (outcome (initial.step 1 (.read 0xBFF8 8 10000000#64))
      initial).step 1 (.read 0xBFF8 8 0#64)) (by decide +kernel) initial
    have hle := ((h.2 _ hfirst).1 _ hsecond).1
    exact absurd hle (by decide +kernel)
  · intro h
    have hwrite := eq_ok_of_isOk (m := initial.step 1 (.write 0xBFF8 [1#8, 0#8, 0#8, 0#8] 0#64))
      (by decide +kernel) initial
    have hsame := (h.1 _ hwrite).2 _ _ _ rfl
    exact absurd hsame (by decide +kernel)

end Clint

end CoverageVP.Platform
