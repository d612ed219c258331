import CoverageVP.Platform.Clint

/-!
# Timer interrupts

After a run the interrupt of every hart is up if its comparator is reached, and the thread wakes up in
time for every comparator that is ahead. The comparators are scaled to picoseconds in words. A
comparator that is out of reach may wrap to a time that is not ahead, and then no other hart is woken
up in time.
-/

namespace CoverageVP.Platform

open Lib

namespace Clint

variable (cores : Nat)

/-- The time at which the comparator is reached is a word. -/
def Representable (s : Clint) (hart : Nat) : Prop :=
  (s.mtimecmp hart).toNat * 1000000 < 2 ^ 64

instance (s : Clint) (hart : Nat) : Decidable (s.Representable hart) :=
  inferInstanceAs (Decidable (_ < _))

/-- After a run the interrupts are those of the comparators, and the event is notified at a later time
for every comparator that can be reached, within a microsecond. -/
structure Scheduled (s : Clint) : Prop where
  line : ∀ hart < cores, (s.timerInterrupt hart = true ↔
    0#64 < s.mtimecmp hart ∧ s.mtimecmp hart ≤ s.mtime)
  wakeup : ∀ hart < cores, 0#64 < s.mtimecmp hart → s.mtimecmp hart < BitVec.allOnes 64 →
    s.timerInterrupt hart = false → s.Representable hart →
    ∃ t, s.irqEvent = .timed t ∧ s.now.toNat < t ∧
      t ≤ (s.mtimecmp hart).toNat * 1000000 + 1000000

/-- Every run schedules the next one. -/
def Schedules (s : Clint) : Event → Prop
  | .run => s.due = true → ({ s with irqEvent := .none }.run cores).Scheduled cores
  | _ => True

/-- The comparator of a hart is ahead of the time of the simulation. -/
def Ahead (s : Clint) (hart : Nat) : Prop :=
  0#64 < s.mtimecmp hart ∧ s.mtimecmp hart < BitVec.allOnes 64 ∧
    s.now / scaler < s.mtimecmp hart

/-- The scaled comparator is ahead of the time of the simulation. -/
def Lasting (s : Clint) (hart : Nat) : Prop :=
  let delay := s.mtimecmp hart * scaler - s.now / scaler * scaler
  delay ≠ 0#64 ∧ s.now.toNat + delay.toNat < 2 ^ 64

/-- A run for some comparator that can be reached finds no comparator whose scaled value wraps to a
time that is not ahead. -/
def Unwrapped (s : Clint) : Event → Prop
  | .run => s.due = true → (∃ hart < cores, s.Ahead hart ∧ s.Representable hart) →
    ∀ hart < cores, s.Ahead hart → s.Lasting hart
  | _ => True

/-- No access goes to the timer itself. -/
def AvoidsMtime : Event → Prop
  | .read addr len delay => ¬ (peripheral cores (delay + transportDelay)).Reaches addr len .mtime
  | .write addr data delay =>
    ¬ (peripheral cores (delay + transportDelay)).Reaches addr data.length .mtime
  | _ => True

/-- The timer is not ahead of the simulation. -/
def InStep (s : Clint) : Prop := s.mtime ≤ s.now / scaler

/-! ## Runs -/

section Runs

variable {cores} {s : Clint}

theorem mtime_updateAndGetMtime_of_inStep (hs : s.InStep) :
    s.updateAndGetMtime.mtime = s.now / scaler := by
  rw [mtime_updateAndGetMtime]
  split
  case isTrue => rfl
  case isFalse h => exact BitVec.le_antisymm hs (BitVec.not_lt.mp h)

theorem waiting_updateAndGetMtime (hs : s.InStep) (hart : Nat) :
    s.updateAndGetMtime.waiting hart = true ↔ s.Ahead hart := by
  rw [waiting, mtime_updateAndGetMtime_of_inStep hs, mtimecmp_updateAndGetMtime]
  exact decide_eq_true_iff

theorem delay_updateAndGetMtime (hs : s.InStep) (hart : Nat) :
    s.updateAndGetMtime.delay hart = s.mtimecmp hart * scaler - s.now / scaler * scaler := by
  rw [delay, mtime_updateAndGetMtime_of_inStep hs, mtimecmp_updateAndGetMtime]

/-- The notifications of a run come from the comparators that are ahead. -/
theorem mem_notifications (hs : s.InStep) {t : Option Nat} :
    t ∈ s.updateAndGetMtime.notifications (List.range cores) ↔
      ∃ hart < cores, s.Ahead hart ∧
        s.notifyTime (s.mtimecmp hart * scaler - s.now / scaler * scaler) = t := by
  simp only [notifications, List.mem_map, List.mem_filter, List.mem_range, and_assoc,
    waiting_updateAndGetMtime hs, delay_updateAndGetMtime hs, notifyTime, now_updateAndGetMtime]

theorem toNat_now_div : (s.now / scaler).toNat = s.now.toNat / 1000000 := by
  rw [BitVec.toNat_udiv]
  rfl

theorem Ahead.div_lt {hart : Nat} (h : s.Ahead hart) :
    s.now.toNat / 1000000 < (s.mtimecmp hart).toNat := by
  have hlt := h.2.2
  rw [BitVec.lt_def, toNat_now_div] at hlt
  exact hlt

/-- The delay for a comparator that can be reached. -/
theorem toNat_delay {hart : Nat} (hahead : s.Ahead hart) (hrep : s.Representable hart) :
    (s.mtimecmp hart * scaler - s.now / scaler * scaler).toNat =
      (s.mtimecmp hart).toNat * 1000000 - s.now.toNat / 1000000 * 1000000 := by
  have hnow := s.now.isLt
  have hle : s.now.toNat / 1000000 * 1000000 ≤ s.now.toNat := Nat.div_mul_le_self _ _
  have hscaler : scaler.toNat = 1000000 := rfl
  have hcmp : (s.mtimecmp hart * scaler).toNat = (s.mtimecmp hart).toNat * 1000000 := by
    rw [BitVec.toNat_mul, hscaler, Nat.mod_eq_of_lt hrep]
  have hmtime : (s.now / scaler * scaler).toNat = s.now.toNat / 1000000 * 1000000 := by
    rw [BitVec.toNat_mul, hscaler, toNat_now_div, Nat.mod_eq_of_lt (lt_of_le_of_lt hle hnow)]
  have hle' : s.now.toNat / 1000000 * 1000000 ≤ (s.mtimecmp hart).toNat * 1000000 :=
    Nat.mul_le_mul_right _ hahead.div_lt.le
  rw [BitVec.toNat_sub_of_le (by rw [BitVec.le_def, hcmp, hmtime]; exact hle'), hcmp, hmtime]

/-- A notification that wraps is not ahead. -/
theorem toNat_now_add {d : BitVec 64} :
    (s.now + d).toNat = s.now.toNat + d.toNat ∧ s.now.toNat + d.toNat < 2 ^ 64 ∨
      (s.now + d).toNat < s.now.toNat ∧ 2 ^ 64 ≤ s.now.toNat + d.toNat := by
  have hnow := s.now.isLt
  have hd := d.isLt
  rw [BitVec.toNat_add]
  omega

/-- A comparator that lasts is notified at a later time. -/
theorem notifyTime_of_lasting {hart : Nat} (h : s.Lasting hart) :
    s.notifyTime (s.mtimecmp hart * scaler - s.now / scaler * scaler) =
      some (s.now.toNat + (s.mtimecmp hart * scaler - s.now / scaler * scaler).toNat) := by
  obtain ⟨hne, hlt⟩ := h
  rw [notifyTime, if_neg hne]
  rcases toNat_now_add (s := s) with ⟨heq, -⟩ | ⟨-, hge⟩
  · rw [heq]
  · exact absurd hlt (Nat.not_lt.mpr hge)

/-- A notification at a later time comes from a comparator that lasts. -/
theorem lasting_of_notifyTime {hart : Nat}
    (hnone : s.notifyTime (s.mtimecmp hart * scaler - s.now / scaler * scaler) ≠ none)
    (hlater : ∀ t, s.notifyTime (s.mtimecmp hart * scaler - s.now / scaler * scaler) = some t →
      s.now.toNat < t) : s.Lasting hart := by
  have hne : s.mtimecmp hart * scaler - s.now / scaler * scaler ≠ 0#64 := by
    intro h
    exact hnone (if_pos h)
  refine ⟨hne, ?_⟩
  have hlt := hlater _ (if_neg hne)
  rcases toNat_now_add (s := s) with ⟨-, h⟩ | ⟨h, -⟩
  · exact h
  · exact absurd h (Nat.lt_asymm hlt)

section InStep

variable (hs : s.InStep)

include hs

/-- Every notification of the run is for a comparator that lasts, so that the earliest one wakes up
the thread in time. -/
theorem exists_wakeup (hlasting : ∀ hart < cores, s.Ahead hart → s.Lasting hart) {hart : Nat}
    (hhart : hart < cores) (hahead : s.Ahead hart) (hrep : s.Representable hart) :
    ∃ t, Notification.none.notifyAll (s.updateAndGetMtime.notifications (List.range cores)) =
      .timed t ∧ s.now.toNat < t ∧ t ≤ (s.mtimecmp hart).toNat * 1000000 + 1000000 := by
  have hown : some (s.now.toNat + (s.mtimecmp hart * scaler - s.now / scaler * scaler).toNat) ∈
      s.updateAndGetMtime.notifications (List.range cores) :=
    (mem_notifications hs).mpr ⟨hart, hhart, hahead, notifyTime_of_lasting
      (hlasting hart hhart hahead)⟩
  rcases Notification.notifyAll_cases (s.updateAndGetMtime.notifications (List.range cores)) with
    ⟨hnil, -⟩ | ⟨hnone, -⟩ | ⟨-, t, ht, htimed, hmin⟩
  · rw [hnil] at hown
    exact absurd hown List.not_mem_nil
  · obtain ⟨j, hj, hjahead, htime⟩ := (mem_notifications hs).mp hnone
    rw [notifyTime_of_lasting (hlasting j hj hjahead)] at htime
    cases htime
  · refine ⟨t, htimed, ?_, ?_⟩
    · obtain ⟨j, hj, hjahead, htime⟩ := (mem_notifications hs).mp ht
      have hne := (hlasting j hj hjahead).1
      rw [notifyTime_of_lasting (hlasting j hj hjahead)] at htime
      have hpos : 0 < (s.mtimecmp j * scaler - s.now / scaler * scaler).toNat :=
        Nat.pos_of_ne_zero fun h ↦ hne (BitVec.eq_of_toNat_eq h)
      have heq := Option.some.inj htime
      omega
    · have hle := hmin _ hown
      have hlt := hahead.div_lt
      have hdiv := Nat.div_add_mod s.now.toNat 1000000
      have hmod := Nat.mod_lt s.now.toNat (show 0 < 1000000 by decide)
      rw [toNat_delay hahead hrep] at hle
      omega

/-- If the thread wakes up at a later time, then every comparator lasts. -/
theorem lasting_of_wakeup {t : Nat}
    (htimed : Notification.none.notifyAll (s.updateAndGetMtime.notifications (List.range cores)) =
      .timed t) (hlater : s.now.toNat < t) {hart : Nat} (hhart : hart < cores)
    (hahead : s.Ahead hart) : s.Lasting hart := by
  rcases Notification.notifyAll_cases (s.updateAndGetMtime.notifications (List.range cores)) with
    ⟨-, h⟩ | ⟨-, h⟩ | ⟨hnone, u, -, h, hmin⟩
  · rw [htimed] at h
    cases h
  · rw [htimed] at h
    cases h
  · rw [htimed] at h
    cases h
    refine lasting_of_notifyTime (fun h ↦ ?_) fun v hv ↦ ?_
    · exact hnone ((mem_notifications hs).mpr ⟨hart, hhart, hahead, h⟩)
    · exact lt_of_lt_of_le hlater (hmin v ((mem_notifications hs).mpr ⟨hart, hhart, hahead, hv⟩))

theorem timerInterrupt_run_iff {hart : Nat} (hhart : hart < cores) :
    (s.run cores).timerInterrupt hart = true ↔
      0#64 < s.mtimecmp hart ∧ s.mtimecmp hart ≤ s.now / scaler := by
  rw [timerInterrupt_run hhart, expired, mtimecmp_updateAndGetMtime,
    mtime_updateAndGetMtime_of_inStep hs]
  exact decide_eq_true_iff

/-- A run schedules the next one if and only if no comparator wraps while another one can be
reached. -/
theorem scheduled_run_iff (hevent : s.irqEvent = .none) : (s.run cores).Scheduled cores ↔
    ((∃ hart < cores, s.Ahead hart ∧ s.Representable hart) →
      ∀ hart < cores, s.Ahead hart → s.Lasting hart) := by
  have hdown : ∀ hart < cores, s.Ahead hart → (s.run cores).timerInterrupt hart = false := by
    intro hart hhart hahead
    refine Bool.eq_false_of_not_eq_true fun h ↦ ?_
    exact absurd hahead.2.2 (BitVec.not_lt.mpr ((timerInterrupt_run_iff hs hhart).mp h).2)
  constructor
  · rintro hscheduled ⟨i, hi, hahead, hrep⟩
    have hwakeup := hscheduled.wakeup i hi
    rw [Representable, mtimecmp_run, irqEvent_run, now_run, hevent] at hwakeup
    obtain ⟨t, htimed, hlater, -⟩ := hwakeup hahead.1 hahead.2.1 (hdown i hi hahead) hrep
    exact fun hart hhart ↦ lasting_of_wakeup hs htimed hlater hhart
  · intro hlasting
    refine ⟨fun hart hhart ↦ ?_, fun hart hhart hpos hmax hline hrep ↦ ?_⟩
    · rw [timerInterrupt_run_iff hs hhart, mtimecmp_run, mtime_run,
        mtime_updateAndGetMtime_of_inStep hs]
    · rw [Representable, mtimecmp_run] at hrep
      rw [mtimecmp_run] at hpos hmax
      rw [mtimecmp_run, irqEvent_run, now_run, hevent]
      have hahead : s.Ahead hart := by
        refine ⟨hpos, hmax, BitVec.not_le.mp fun hle ↦ ?_⟩
        have hup := (timerInterrupt_run_iff hs hhart).mpr ⟨hpos, hle⟩
        exact Bool.false_ne_true (hline.symm.trans hup)
      exact exists_wakeup hs (hlasting ⟨hart, hhart, hahead, hrep⟩) hhart hahead hrep

end InStep

end Runs

/-! ## Sequences -/

section Sequences

variable {cores} {s s' : Clint}

theorem scaler_div_le {x y : BitVec 64} (h : x ≤ y) : x / scaler ≤ y / scaler := by
  rw [BitVec.le_def, BitVec.toNat_udiv, BitVec.toNat_udiv]
  exact Nat.div_le_div_right h

theorem inStep_updateAndGetMtime (hs : s.InStep) : s.updateAndGetMtime.InStep := by
  rw [InStep, mtime_updateAndGetMtime_of_inStep hs, now_updateAndGetMtime]
  exact BitVec.le_refl _

/-- Only an access to the timer itself takes it ahead of the simulation. -/
theorem inStep_step {e : Event} (he : AvoidsMtime cores e) (hs : s.InStep)
    (h : step cores s e = .ok s') : s'.InStep := by
  cases e with
  | read addr len delay =>
    obtain ⟨⟨data, s₁⟩, hread, h⟩ := bind_eq_ok.mp h
    cases h
    obtain ⟨b, hreaches, hpre, -⟩ := Peripheral.read_eq_ok_iff.mp hread
    cases b with
    | mtime => exact absurd hreaches he
    | mtimecmp | msip =>
      cases hpre
      exact hs
  | write addr data delay =>
    obtain ⟨b, hreaches, -, h⟩ := Peripheral.write_eq_ok_iff.mp h
    cases b with
    | mtime => exact absurd hreaches he
    | mtimecmp =>
      cases h
      exact hs
    | msip =>
      obtain ⟨-, h⟩ := check_bind_eq_ok_iff.mp h
      obtain ⟨-, h⟩ := check_bind_eq_ok_iff.mp h
      cases h
      exact hs
  | time =>
    cases h
    exact inStep_updateAndGetMtime hs
  | advance t =>
    cases h
    split
    case isTrue hlt => exact BitVec.le_trans hs (scaler_div_le (BitVec.le_of_lt hlt))
    case isFalse => exact hs
  | run =>
    cases h
    split
    case isTrue =>
      have hs' : InStep { s with irqEvent := .none } := hs
      rw [InStep, mtime_run, mtime_updateAndGetMtime_of_inStep hs', now_run]
      exact BitVec.le_refl _
    case isFalse => exact hs

/-- Without accesses to the timer itself, every run of a sequence schedules the next one if and only if
no run finds a comparator that wraps while another one can be reached. -/
theorem schedules_iff_unwrapped {events : List Event}
    (hevents : ∀ e ∈ events, AvoidsMtime cores e) :
    Along (step cores) (Schedules cores) initial events ↔
      Along (step cores) (Unwrapped cores) initial events := by
  have hinitial : initial.InStep := by
    rw [InStep]
    decide
  refine along_iff_of_invariant (fun e he s s' hs _ h ↦ inStep_step (hevents e he) hs h)
    (fun e _ s hs ↦ ?_) hinitial
  cases e with
  | run =>
    have hs' : InStep { s with irqEvent := .none } := hs
    exact imp_congr_right fun _ ↦ scheduled_run_iff hs' rfl
  | read addr len delay | write addr data delay | time | advance t => exact Iff.rfl

end Sequences

/-- Both harts set their comparators, to different times. -/
def bothComparators : List Event :=
  [.write 0x4000 [5#8, 0#8, 0#8, 0#8] 0#64, .write 0x4008 [9#8, 0#8, 0#8, 0#8] 0#64,
    .advance 20000#64, .run, .advance 7000000#64, .run]

theorem schedules_bothComparators :
    Along (step 2) (Schedules 2) initial bothComparators := by
  have havoids : ∀ e ∈ bothComparators, AvoidsMtime 2 e := by
    intro e he
    simp only [bothComparators, List.mem_cons, List.not_mem_nil, or_false] at he
    rcases he with rfl | rfl | rfl | rfl | rfl | rfl
    case inl | inr.inl =>
      intro h
      have hroute : ∀ addr ∈ [0x4000, 0x4008],
          (peripheral 2 (0#64 + transportDelay)).route addr = .ok .mtimecmp := by decide
      cases h.route.symm.trans (hroute _ (by decide))
    all_goals trivial
  rw [schedules_iff_unwrapped havoids]
  refine ⟨trivial, fun s₁ h₁ ↦ ⟨trivial, fun s₂ h₂ ↦ ⟨trivial, fun s₃ h₃ ↦ ⟨fun _ _ ↦ ?_,
    fun s₄ h₄ ↦ ⟨trivial, fun s₅ h₅ ↦ ⟨fun _ _ ↦ ?_, fun _ _ ↦ trivial⟩⟩⟩⟩⟩⟩
  all_goals
    cases h₁.symm.trans (eq_ok_of_isOk (by decide +kernel) initial)
    cases h₂.symm.trans (eq_ok_of_isOk (by decide +kernel) initial)
    cases h₃
    intro hart hhart hahead
    obtain rfl | rfl : hart = 0 ∨ hart = 1 := by omega
  · exact ⟨by decide +kernel, by decide +kernel⟩
  · exact ⟨by decide +kernel, by decide +kernel⟩
  · cases h₄
    cases h₅
    exact absurd hahead.2.2 (by decide +kernel)
  · cases h₄
    cases h₅
    exact ⟨by decide +kernel, by decide +kernel⟩

/-- The second hart has a comparator that is out of reach. -/
def twoComparators : List Event :=
  [.write 0x4000 [5#8, 0#8, 0#8, 0#8] 0#64, .write 0x400C [0#8, 0#8, 0#8, 0x80#8] 0#64,
    .advance 20000#64]

/-- The thread runs again and again at the same time. -/
theorem not_schedules :
    ¬ Along (step 2) (Schedules 2) initial (twoComparators ++ [.run]) := by
  intro h
  have hevents := eq_ok_of_isOk (m := twoComparators.foldlM (step 2) initial) (by decide +kernel)
    initial
  have hscheduled := Along.last twoComparators h hevents (by decide +kernel)
  obtain ⟨t, ht, -⟩ := hscheduled.wakeup 0 (by decide) (by decide +kernel) (by decide +kernel)
    (by decide +kernel) (by decide +kernel)
  have hdelta : (({ outcome (twoComparators.foldlM (step 2) initial) initial with
      irqEvent := .none } : Clint).run 2).irqEvent = .delta := by decide +kernel
  cases hdelta.symm.trans ht

end Clint

end CoverageVP.Platform
