import CoverageVP.Platform.Fu540Selection

/-!
# Delivery of interrupts by the controller of the FU540

When the controller has run, every context with an interrupt whose priority is above the threshold
has to be told. A run compares the registers of the next interrupts and aborts at the last one, it
reports one level of a hart, so that machine mode has to wait while there is something for supervisor
mode, and a completion takes the line down even if another interrupt is to be delivered.
-/

namespace CoverageVP.Platform

open Lib

namespace Fu540Plic

/-! ## Events -/

variable (harts : Nat)

def step (s : Fu540Plic) : PlicEvent → Except Fault Fu540Plic
  | .trigger irq => s.gatewayTriggerInterrupt irq
  | .read addr len => do
    let result ← (peripheral harts).read addr len s
    return result.2
  | .write addr data => (peripheral harts).write addr data s
  | .run => if s.runNotified then s.run harts else .ok s

/-- The priority of an interrupt. The register of the first one is the first register. -/
def givenPriority (s : Fu540Plic) (irq : Nat) : Nat :=
  (minWord (s.regs.word .interruptPriorities (irq - 1)) maxPrio).toNat

/-- An enabled pending interrupt whose priority is above the threshold of the context. -/
structure Deliverable (s : Fu540Plic) (hart : Nat) (level : Level) (irq : Nat) : Prop where
  pos : 0 < irq
  le : irq ≤ numIrq
  enabled : s.enabledBit hart level irq = true
  pending : s.pendingBit irq = true
  priority : s.threshold hart level < s.givenPriority irq

/-- A context has to be told about an interrupt. -/
def HasEligible (s : Fu540Plic) (hart : Nat) (level : Level) : Prop :=
  ∃ irq, s.Deliverable hart level irq

/-- The interrupt that is completed by a write. -/
def completedIrq (data : List (BitVec 8)) : Nat :=
  (Bytes.word (Bytes.write (fun _ ↦ 0#8) 0 data) 32 0).toNat

/-- A context has to be told about another interrupt. -/
def HasAnother (s : Fu540Plic) (hart : Nat) (level : Level) (data : List (BitVec 8)) : Prop :=
  ∃ irq, s.Deliverable hart level irq ∧ irq ≠ completedIrq data

/-- A write of the claim register of a context. -/
structure IsCompletion (addr : Nat) (data : List (BitVec 8)) (hart : Nat) (level : Level) :
    Prop where
  reaches : (peripheral harts).Reaches addr data.length (.hartContext hart level)
  claim : isClaimAccess ((range (.hartContext hart level)).toLocal addr) = true

/-- A run ends with the line of every context up that has to be told, and so does a completion after
which there is another interrupt. -/
def Delivers (s : Fu540Plic) : PlicEvent → Prop
  | .run => s.runNotified = true → ∀ hart level, IsContext harts hart level →
    s.HasEligible hart level → ∃ s', s.run harts = .ok s' ∧ s'.targetHarts hart level = true
  | .write addr data => ∀ hart level, IsCompletion harts addr data hart level →
    s.HasAnother hart level data →
      ∃ s', (peripheral harts).write addr data s = .ok s' ∧ s'.targetHarts hart level = true
  | _ => True

/-- The registers that are compared let an interrupt of the context through. -/
def Finds (s : Fu540Plic) (hart : Nat) (level : Level) : Prop :=
  ∃ irq, s.Eligible hart level false irq

/-- The last interrupt is not enabled and pending for a level that is looked at. -/
structure ScansHart (s : Fu540Plic) (hart : Nat) : Prop where
  supervisor : hart ≠ 0 → s.Scans hart .supervisor
  machine : ¬ (hart ≠ 0 ∧ s.Finds hart .supervisor) → s.Scans hart .machine

/-- If a context has to be told by a run, then the last interrupt is not in the way, and the line of
the context is up or its interrupt is let through, for machine mode only if none is for supervisor
mode. At a completion there is no other interrupt. -/
def Unrivalled (s : Fu540Plic) : PlicEvent → Prop
  | .run => s.runNotified = true → ∀ hart level, IsContext harts hart level →
    s.HasEligible hart level → (∀ i < harts, s.ScansHart i) ∧
      (s.targetHarts hart level = true ∨ s.Finds hart level ∧
        (level = .machine → hart ≠ 0 → ¬ s.Finds hart .supervisor))
  | .write addr data => ∀ hart level, IsCompletion harts addr data hart level →
    ¬ s.HasAnother hart level data
  | _ => True

/-! ## Runs -/

section Runs

variable {s s' : Fu540Plic} {hart : Nat} {level : Level}

theorem hasPendingIrq_congr (h : s'.regs = s.regs) (hart : Nat) :
    s'.hasPendingIrq hart = s.hasPendingIrq hart := by
  obtain ⟨regs, targetHarts, runNotified⟩ := s
  obtain ⟨regs', targetHarts', runNotified'⟩ := s'
  obtain rfl : regs' = regs := h
  rfl

theorem nextPendingIrq_pos_iff (hlevel : ¬ (hart = 0 ∧ level = .supervisor)) {n : Nat}
    (h : s.nextPendingIrq hart level false = .ok n) : 0 < n ↔ s.Finds hart level := by
  obtain ⟨hscans, rfl⟩ := (nextPendingIrq_eq_ok_iff hlevel).mp h
  exact nextPending_pos_iff hscans

/-- Machine mode is reported if there is nothing for supervisor mode. -/
theorem hasPendingIrq_of_ok {r : Option Level} (h : s.hasPendingIrq hart = .ok r) :
    s.ScansHart hart ∧ ((hart ≠ 0 ∧ s.Finds hart .supervisor ∧ r = some .supervisor) ∨
      (¬ (hart ≠ 0 ∧ s.Finds hart .supervisor) ∧ s.Finds hart .machine ∧ r = some .machine) ∨
      (¬ (hart ≠ 0 ∧ s.Finds hart .supervisor) ∧ ¬ s.Finds hart .machine ∧ r = none)) := by
  obtain ⟨n, hn, h⟩ := bind_eq_ok.mp h
  have hscans : hart ≠ 0 → s.Scans hart .supervisor := by
    intro hne
    rw [if_pos hne] at hn
    exact ((nextPendingIrq_eq_ok_iff fun h ↦ hne h.1).mp hn).1
  have hsupervisor : 0 < n ↔ hart ≠ 0 ∧ s.Finds hart .supervisor := by
    split at hn
    case isTrue hne =>
      rw [nextPendingIrq_pos_iff (fun h ↦ hne h.1) hn, and_iff_right hne]
    case isFalse heq =>
      cases hn
      exact iff_of_false (Nat.lt_irrefl 0) fun h ↦ heq h.1
  split at h
  case isTrue hpos =>
    cases h
    obtain ⟨hne, hfinds⟩ := hsupervisor.mp hpos
    exact ⟨⟨hscans, fun hnot ↦ absurd ⟨hne, hfinds⟩ hnot⟩, .inl ⟨hne, hfinds, rfl⟩⟩
  case isFalse hzero =>
    obtain ⟨m, hm, h⟩ := bind_eq_ok.mp h
    have hmachine := nextPendingIrq_pos_iff (by simp) hm
    have hnone := mt hsupervisor.mpr hzero
    refine ⟨⟨hscans, fun _ ↦ ((nextPendingIrq_eq_ok_iff (by simp)).mp hm).1⟩, ?_⟩
    cases h
    by_cases hpos : 0 < m
    · exact .inr (.inl ⟨hnone, hmachine.mp hpos, if_pos hpos⟩)
    · exact .inr (.inr ⟨hnone, mt hmachine.mpr hpos, if_neg hpos⟩)

/-- The search ends unless it comes to the last interrupt. -/
theorem exists_hasPendingIrq_iff : (∃ r, s.hasPendingIrq hart = .ok r) ↔ s.ScansHart hart := by
  refine ⟨fun ⟨r, hr⟩ ↦ (hasPendingIrq_of_ok hr).1, fun h ↦ ?_⟩
  obtain ⟨n, hn⟩ : ∃ n, (if hart ≠ 0 then s.nextPendingIrq hart .supervisor false else .ok 0) =
      .ok n := by
    split
    case isTrue hne => exact ⟨_, nextPendingIrq_of_scans (fun h ↦ hne h.1) (h.supervisor hne) false⟩
    case isFalse => exact ⟨0, rfl⟩
  rw [hasPendingIrq, hn]
  by_cases hpos : 0 < n
  · exact ⟨some .supervisor, if_pos hpos⟩
  · have hscans : s.Scans hart .machine := by
      refine h.machine fun ⟨hne, hfinds⟩ ↦ hpos ?_
      rw [if_pos hne] at hn
      exact (nextPendingIrq_pos_iff (fun h ↦ hne h.1) hn).mpr hfinds
    have hmachine := nextPendingIrq_of_scans (by simp) hscans false
    refine ⟨if 0 < s.nextPending hart .machine false then some .machine else none, ?_⟩
    refine (if_neg hpos).trans ?_
    rw [hmachine]
    rfl

theorem runHart_of_ok (h : s.runHart hart = .ok s') :
    s'.regs = s.regs ∧ ∃ r, s.hasPendingIrq hart = .ok r ∧
      ∀ i level, s'.targetHarts i level = true ↔
        s.targetHarts i level = true ∨ (i = hart ∧ r = some level) := by
  obtain ⟨r, hr, h⟩ := bind_eq_ok.mp h
  cases r with
  | none =>
    cases h
    exact ⟨rfl, none, hr, fun i level ↦ by simp⟩
  | some reported =>
    cases h
    refine ⟨rfl, some reported, hr, fun i level ↦ ?_⟩
    by_cases hi : i = hart ∧ level = reported
    · obtain ⟨rfl, rfl⟩ := hi
      exact iff_of_true (if_pos ⟨rfl, rfl⟩) (.inr ⟨rfl, rfl⟩)
    · have hsame : (s.setTarget hart reported true).targetHarts i level = s.targetHarts i level :=
        if_neg hi
      rw [hsame]
      refine ⟨.inl, ?_⟩
      rintro (hline | ⟨rfl, hreported⟩)
      · exact hline
      · exact absurd ⟨rfl, (Option.some.inj hreported).symm⟩ hi

/-- A run raises the lines that are reported for the harts. -/
theorem foldlM_runHart_of_ok {hs : List Nat} (h : hs.foldlM runHart s = .ok s') :
    s'.regs = s.regs ∧ (∀ hart ∈ hs, ∃ r, s.hasPendingIrq hart = .ok r) ∧
      ∀ i level, s'.targetHarts i level = true ↔
        s.targetHarts i level = true ∨ (i ∈ hs ∧ s.hasPendingIrq i = .ok (some level)) := by
  induction hs generalizing s with
  | nil =>
    cases h
    simp
  | cons hart hs ih =>
    rw [List.foldlM_cons] at h
    obtain ⟨s₁, hs₁, h⟩ := bind_eq_ok.mp h
    obtain ⟨hregs₁, r, hr, hline₁⟩ := runHart_of_ok hs₁
    obtain ⟨hregs, hall, hline⟩ := ih h
    simp only [hasPendingIrq_congr hregs₁] at hall hline
    refine ⟨hregs.trans hregs₁, fun i hi ↦ ?_, fun i level ↦ ?_⟩
    · rcases List.mem_cons.mp hi with rfl | hi
      · exact ⟨r, hr⟩
      · exact hall i hi
    · rw [hline, hline₁, List.mem_cons, or_assoc, or_and_right]
      refine or_congr_right (or_congr_left ?_)
      constructor
      · rintro ⟨rfl, rfl⟩
        exact ⟨rfl, hr⟩
      · rintro ⟨rfl, hlevel⟩
        exact ⟨rfl, Except.ok.inj (hr.symm.trans hlevel)⟩

theorem exists_foldlM_runHart {hs : List Nat}
    (h : ∀ hart ∈ hs, ∃ r, s.hasPendingIrq hart = .ok r) : ∃ s', hs.foldlM runHart s = .ok s' := by
  induction hs generalizing s with
  | nil => exact ⟨s, rfl⟩
  | cons hart hs ih =>
    obtain ⟨r, hr⟩ := h hart List.mem_cons_self
    obtain ⟨s₁, hs₁⟩ : ∃ s₁, s.runHart hart = .ok s₁ := by
      rw [runHart, hr]
      cases r with
      | none => exact ⟨s, rfl⟩
      | some level => exact ⟨s.setTarget hart level true, rfl⟩
    have hrest : ∀ i ∈ hs, ∃ r, s₁.hasPendingIrq i = .ok r := by
      intro i hi
      rw [hasPendingIrq_congr (runHart_of_ok hs₁).1]
      exact h i (List.mem_cons_of_mem hart hi)
    obtain ⟨s', hs'⟩ := ih hrest
    refine ⟨s', ?_⟩
    rw [List.foldlM_cons, hs₁]
    exact hs'

theorem run_of_ok {harts : Nat} (h : s.run harts = .ok s') :
    s'.regs = s.regs ∧ (∀ hart < harts, ∃ r, s.hasPendingIrq hart = .ok r) ∧
      ∀ i level, s'.targetHarts i level = true ↔
        s.targetHarts i level = true ∨ (i < harts ∧ s.hasPendingIrq i = .ok (some level)) := by
  obtain ⟨hregs, hall, hline⟩ := foldlM_runHart_of_ok h
  simp only [List.mem_range] at hall hline
  exact ⟨hregs, hall, hline⟩

theorem exists_run {harts : Nat} (h : ∀ hart < harts, ∃ r, s.hasPendingIrq hart = .ok r) :
    ∃ s', s.run harts = .ok s' := by
  exact exists_foldlM_runHart fun hart hhart ↦ h hart (List.mem_range.mp hhart)

/-- A run tells every context that has to be told, if and only if nothing is in its way. -/
theorem delivers_run_iff : Delivers harts s .run ↔ Unrivalled harts s .run := by
  refine imp_congr_right fun _ ↦ forall₄_congr fun hart level hcontext _ ↦ ?_
  constructor
  · rintro ⟨s', hs', hup⟩
    obtain ⟨-, hall, hline⟩ := run_of_ok hs'
    refine ⟨fun i hi ↦ exists_hasPendingIrq_iff.mp (hall i hi), ?_⟩
    rcases (hline hart level).mp hup with hup | ⟨-, hreported⟩
    · exact .inl hup
    · refine .inr ?_
      rcases (hasPendingIrq_of_ok hreported).2 with ⟨-, hfinds, h⟩ | ⟨hnone, hfinds, h⟩ | ⟨-, -, h⟩
      · cases h
        exact ⟨hfinds, fun h ↦ by cases h⟩
      · cases h
        exact ⟨hfinds, fun _ hne hsupervisor ↦ hnone ⟨hne, hsupervisor⟩⟩
      · cases h
  · rintro ⟨hscans, hfound⟩
    obtain ⟨s', hs'⟩ := exists_run fun i hi ↦ exists_hasPendingIrq_iff.mpr (hscans i hi)
    obtain ⟨-, hall, hline⟩ := run_of_ok hs'
    refine ⟨s', hs', (hline hart level).mpr ?_⟩
    refine hfound.imp_right fun ⟨hfinds, hfirst⟩ ↦ ⟨hcontext.lt, ?_⟩
    obtain ⟨r, hr⟩ := hall hart hcontext.lt
    have hne : level = .supervisor → hart ≠ 0 := fun hlevel hzero ↦
      hcontext.hasLevel ⟨hzero, hlevel⟩
    rw [hr]
    rcases (hasPendingIrq_of_ok hr).2 with ⟨hpos, hsupervisor, rfl⟩ | ⟨hnone, -, rfl⟩ | ⟨hnone, hnot, -⟩
    · cases level with
      | supervisor => rfl
      | machine => exact absurd hsupervisor (hfirst rfl hpos)
    · cases level with
      | supervisor => exact absurd ⟨hne rfl, hfinds⟩ hnone
      | machine => rfl
    · cases level with
      | supervisor => exact absurd ⟨hne rfl, hfinds⟩ hnone
      | machine => exact absurd hfinds hnot

end Runs

section Completions

variable {harts} {s s' : Fu540Plic} {addr : Nat} {data : List (BitVec 8)} {hart : Nat}
  {level : Level}

/-- The claim register is the second word of a context. -/
theorem IsCompletion.toLocal_eq (h : IsCompletion harts addr data hart level)
    (hdata : data.length = 4) : (range (.hartContext hart level)).toLocal addr = 4 := by
  have hbounds : (range (.hartContext hart level)).toLocal addr + data.length ≤ 8 :=
    h.reaches.bounds
  have hclaim := of_decide_eq_true h.claim
  have haligned : addr % 4 = 0 := h.reaches.aligned.1
  rw [hdata] at hbounds
  change addr - (0x200000 + 0x1000 * contextIndex hart level) = 4
  change addr - (0x200000 + 0x1000 * contextIndex hart level) + 4 ≤ 8 at hbounds
  change (addr - (0x200000 + 0x1000 * contextIndex hart level)) / 4 % 2 = 1 at hclaim
  omega

/-- A completion takes the line down. -/
theorem write_of_isCompletion (h : IsCompletion harts addr data hart level)
    (hdata : data.length = 4) :
    (peripheral harts).write addr data s = .ok ((s.setMem (.hartContext hart level)
      ((s.regs (.hartContext hart level)).write 4 data)).setTarget hart level false) := by
  have hlocal : ((peripheral harts).range (.hartContext hart level)).toLocal addr = 4 :=
    h.toLocal_eq hdata
  rw [Peripheral.write_of_reaches h.reaches rfl rfl, hdata, hlocal]
  rfl

theorem write_of_length_ne (h : IsCompletion harts addr data hart level)
    (hdata : data.length ≠ 4) : (peripheral harts).write addr data s ≠ .ok s' := by
  rw [Peripheral.write_of_reaches h.reaches rfl rfl]
  intro hok
  obtain ⟨-, hok⟩ := check_bind_eq_ok_iff.mp hok
  obtain ⟨hsize, -⟩ := check_bind_eq_ok_iff.mp hok
  exact hdata hsize

/-- No completion leaves the line up. -/
theorem delivers_write_iff : Delivers harts s (.write addr data) ↔
    Unrivalled harts s (.write addr data) := by
  refine forall₃_congr fun hart level hcompletion ↦ imp_congr_right fun _ ↦ iff_of_false ?_ id
  rintro ⟨s', hs', hup⟩
  by_cases hdata : data.length = 4
  · rw [write_of_isCompletion hcompletion hdata] at hs'
    cases hs'
    have hdown : (if hart = hart ∧ level = level then false else s.targetHarts hart level) = false :=
      if_pos ⟨rfl, rfl⟩
    exact absurd (hdown.symm.trans hup) Bool.false_ne_true
  · exact absurd hs' (write_of_length_ne hcompletion hdata)

end Completions

/-- The writes among the events. -/
def writesOf (events : List PlicEvent) : List (Nat × List (BitVec 8)) :=
  events.filterMap fun
    | .write addr data => some (addr, data)
    | _ => none

/-- The priorities are those that were written. -/
def Prioritised (m : Bytes) (s : Fu540Plic) : Prop :=
  ∀ irq, 0 < irq → irq ≤ numIrq →
    minWord (s.regs.word .interruptPriorities (irq - 1)) maxPrio = minWord (m.word 32 (4 * irq)) maxPrio

section Priorities

variable {harts} {m : Bytes} {s s' : Fu540Plic} {addr : Nat} {data : List (BitVec 8)}

theorem Prioritised.congr (h : Prioritised m s)
    (hregs : s'.regs .interruptPriorities = s.regs .interruptPriorities) : Prioritised m s' := by
  intro irq hpos hle
  rw [Registers.word, hregs]
  exact h irq hpos hle

/-- The words of a write are the same in the registers as at their addresses. -/
theorem Prioritised.write_words (h : Prioritised m s) {i irq : Nat} (hlen : data.length % 4 = 0)
    (hpos : 0 < irq) (hle : irq ≤ numIrq) :
    minWord (((s.regs .interruptPriorities).write (4 * i) data).word 32 (4 * (irq - 1))) maxPrio =
      minWord ((m.write (4 * i + 4) data).word 32 (4 * irq)) maxPrio := by
  by_cases hwithin : i < irq ∧ 4 * irq < 4 * i + 4 + data.length
  · obtain ⟨hlt, hend⟩ := hwithin
    obtain ⟨k, rfl⟩ := Nat.exists_eq_add_of_lt hlt
    have hword : ((s.regs .interruptPriorities).write (4 * i) data).word 32 (4 * i + 4 * k) =
        (m.write (4 * i + 4) data).word 32 (4 * i + 4 + 4 * k) :=
      Bytes.word_write_of_within _ m (by decide) (by omega)
    rw [show 4 * (i + k + 1 - 1) = 4 * i + 4 * k by omega,
      show 4 * (i + k + 1) = 4 * i + 4 + 4 * k by omega, hword]
  · rw [Bytes.word_write_of_disjoint _ (by decide) data (by omega),
      Bytes.word_write_of_disjoint _ (by decide) data (by omega)]
    exact h irq hpos hle

/-- Only the first priority of a write is bounded at once. -/
theorem Prioritised.write_priorities (h : Prioritised m s)
    (hreaches : (peripheral harts).Reaches addr data.length .interruptPriorities)
    (hs' : ((peripheral harts).setMem s .interruptPriorities ((s.regs .interruptPriorities).write
      ((range .interruptPriorities).toLocal addr) data)).writeIrqPrios
        ((range .interruptPriorities).toLocal addr) = .ok s') :
    Prioritised (m.write addr data) s' := by
  have hstart : 0x4 ≤ addr := (Peripheral.bounds_of_route hreaches.route).1
  have haligned : addr % 4 = 0 ∧ data.length % 4 = 0 := hreaches.aligned
  obtain ⟨i, hi⟩ : ∃ i, addr = 4 * i + 4 := ⟨addr / 4 - 1, by omega⟩
  subst hi
  have hlocal : (range .interruptPriorities).toLocal (4 * i + 4) = 4 * i :=
    Nat.add_sub_cancel (4 * i) 4
  rw [hlocal] at hs'
  obtain ⟨-, hs'⟩ := check_bind_eq_ok_iff.mp hs'
  obtain ⟨-, hs'⟩ := check_bind_eq_ok_iff.mp hs'
  cases hs'
  intro irq hpos hle
  rw [Nat.mul_div_cancel_left i (by decide), ← h.write_words haligned.2 hpos hle]
  by_cases hirq : irq - 1 = i
  · rw [hirq, setWord, Registers.word_setWord_self, minWord_minWord]
    rfl
  · rw [setWord, Registers.word_setWord_of_idx_ne _ hirq]
    rfl

theorem Prioritised.read {len : Nat} (h : Prioritised m s)
    (hread : (peripheral harts).read addr len s = .ok (data, s')) : Prioritised m s' := by
  obtain ⟨b, -, hpre, -⟩ := Peripheral.read_eq_ok_iff.mp hread
  cases b with
  | hartContext hart level =>
    obtain ⟨-, hpre⟩ := check_bind_eq_ok_iff.mp hpre
    obtain ⟨-, hpre⟩ := check_bind_eq_ok_iff.mp hpre
    split at hpre
    case isTrue =>
      obtain ⟨irq, -, hpre⟩ := bind_eq_ok.mp hpre
      split at hpre
      case isTrue =>
        obtain ⟨-, hpre⟩ := check_bind_eq_ok_iff.mp hpre
        obtain ⟨-, hpre⟩ := check_bind_eq_ok_iff.mp hpre
        cases hpre
        exact h.congr rfl
      case isFalse =>
        cases hpre
        exact h.congr rfl
    case isFalse =>
      cases hpre
      exact h
  | _ =>
    cases hpre
    exact h

/-- The other registers are not at the addresses of the priorities. -/
theorem Prioritised.write_other {b : Fu540Bank} (h : Prioritised m s) (hb : b ≠ .interruptPriorities)
    (hreaches : (peripheral harts).Reaches addr data.length b)
    (hregs : s'.regs .interruptPriorities = s.regs .interruptPriorities) :
    Prioritised (m.write addr data) s' := by
  have hstart : (range b).start ≤ addr := (Peripheral.bounds_of_route hreaches.route).1
  have hlarge : 0x1000 ≤ (range b).start := by
    cases b with
    | interruptPriorities => exact absurd rfl hb
    | pendingInterrupts => exact Nat.le_refl _
    | enabledIrqs hart level =>
      change 0x1000 ≤ 0x2000 + 0x80 * contextIndex hart level
      omega
    | hartContext hart level =>
      change 0x1000 ≤ 0x200000 + 0x1000 * contextIndex hart level
      omega
  intro irq hpos hle
  have hbound : irq ≤ 53 := hle
  rw [Bytes.word_write_of_disjoint m (by decide) data (by omega)]
  exact h.congr hregs irq hpos hle

theorem Prioritised.write (h : Prioritised m s) (hs' : (peripheral harts).write addr data s = .ok s') :
    Prioritised (m.write addr data) s' := by
  obtain ⟨b, hreaches, -, hs'⟩ := Peripheral.write_eq_ok_iff.mp hs'
  cases b with
  | interruptPriorities => exact h.write_priorities hreaches hs'
  | pendingInterrupts =>
    cases hs'
    exact h.write_other Fu540Bank.noConfusion hreaches rfl
  | enabledIrqs hart level =>
    cases hs'
    exact h.write_other Fu540Bank.noConfusion hreaches rfl
  | hartContext hart level =>
    obtain ⟨-, hs'⟩ := check_bind_eq_ok_iff.mp hs'
    obtain ⟨-, hs'⟩ := check_bind_eq_ok_iff.mp hs'
    split at hs' <;>
    · cases hs'
      exact h.write_other Fu540Bank.noConfusion hreaches rfl

/-- The priorities along a sequence are those that were written last. -/
theorem Prioritised.events {events : List PlicEvent} (h : Prioritised m s)
    (hs' : events.foldlM (step harts) s = .ok s') :
    Prioritised ((writesOf events).foldl (fun m w ↦ m.write w.1 w.2) m) s' := by
  induction events generalizing m s with
  | nil =>
    cases hs'
    exact h
  | cons e events ih =>
    rw [List.foldlM_cons] at hs'
    obtain ⟨s₁, hstep, hrest⟩ := bind_eq_ok.mp hs'
    cases e with
    | trigger irq =>
      obtain ⟨-, hstep⟩ := check_bind_eq_ok_iff.mp hstep
      obtain ⟨-, hstep⟩ := check_bind_eq_ok_iff.mp hstep
      cases hstep
      refine ih (h.congr ?_) hrest
      rfl
    | read addr len =>
      obtain ⟨result, hread, hstep⟩ := bind_eq_ok.mp hstep
      cases hstep
      exact ih (h.read hread) hrest
    | write addr data => exact ih (h.write hstep) hrest
    | run =>
      refine ih (h.congr ?_) hrest
      rw [step] at hstep
      split at hstep
      case isTrue => rw [(run_of_ok hstep).1]
      case isFalse =>
        cases hstep
        rfl

/-- A context has to be told about an interrupt that may be selected for it. -/
theorem deliverable_iff_selectable {events : List PlicEvent}
    (hs : events.foldlM (step harts) initial = .ok s) (hart : Nat) (level : Level) (irq : Nat) :
    s.Deliverable hart level irq ↔ Selectable (writesOf events) s hart level false irq := by
  have hinitial : Prioritised (fun _ ↦ 0#8) initial := fun irq _ _ ↦
    congrArg (minWord · maxPrio) (Bytes.word_congr _ (by decide) fun _ _ ↦ rfl)
  have hpriority : 0 < irq → irq ≤ numIrq → s.givenPriority irq = ownPriority (writesOf events) irq :=
    fun hpos hle ↦ congrArg BitVec.toNat (hinitial.events hs irq hpos hle)
  constructor
  · intro h
    have hlt := hpriority h.pos h.le ▸ h.priority
    exact ⟨h.pos, h.le, h.enabled, h.pending, Nat.zero_lt_of_lt hlt, fun _ ↦ hlt⟩
  · intro h
    exact ⟨h.pos, h.le, h.enabled, h.pending, (hpriority h.pos h.le).symm ▸ h.unmasked.threshold rfl⟩

end Priorities

/-! ## Sequences -/

/-- Interrupts are delivered along a sequence of events if and only if nothing is in the way of a run
and no completion finds another interrupt. -/
theorem delivers_iff_unrivalled (events : List PlicEvent) :
    Along (step harts) (Delivers harts) initial events ↔
      Along (step harts) (Unrivalled harts) initial events := by
  refine along_congr (fun s e ↦ ?_) initial events
  cases e with
  | run => exact delivers_run_iff harts
  | write addr data => exact delivers_write_iff
  | trigger irq | read addr len => exact Iff.rfl

/-- The first interrupt is enabled and has a priority. -/
def oneInterrupt : List PlicEvent :=
  [.write 0x4 [1#8, 0#8, 0#8, 0#8], .write 0x2000 [2#8, 0#8, 0#8, 0#8], .trigger 1]

/-- The first interrupt is enabled for both levels of the second hart. -/
def bothLevels : List PlicEvent :=
  [.write 0x4 [1#8, 0#8, 0#8, 0#8], .write 0x8 [1#8, 0#8, 0#8, 0#8],
    .write 0x2080 [2#8, 0#8, 0#8, 0#8], .write 0x2100 [2#8, 0#8, 0#8, 0#8], .trigger 1]

/-- Two interrupts are enabled for the first hart, which has claimed the first one. -/
def twoInterrupts : List PlicEvent :=
  [.write 0x4 [1#8, 0#8, 0#8, 0#8], .write 0x8 [1#8, 0#8, 0#8, 0#8],
    .write 0xC [1#8, 0#8, 0#8, 0#8], .write 0x2000 [6#8, 0#8, 0#8, 0#8], .trigger 1, .trigger 2,
    .run, .read 0x200004 4]

/-- A hart is not told about its only interrupt, machine mode is not told about an interrupt of
supervisor mode, and a completion takes the line down although the second interrupt is pending. -/
theorem not_delivers :
    ¬ Along (step 1) (Delivers 1) initial (oneInterrupt ++ [.run]) ∧
      ¬ Along (step 2) (Delivers 2) initial (bothLevels ++ [.run]) ∧
      ¬ Along (step 2) (Delivers 2) initial
        (twoInterrupts ++ [.write 0x200004 [1#8, 0#8, 0#8, 0#8]]) := by
  refine ⟨fun h ↦ ?_, fun h ↦ ?_, fun h ↦ ?_⟩
  · have hevents := eq_ok_of_isOk (m := oneInterrupt.foldlM (step 1) initial) (by decide +kernel)
      initial
    have hrun := eq_ok_of_isOk (m := (outcome (oneInterrupt.foldlM (step 1) initial) initial).run 1)
      (by decide +kernel) initial
    obtain ⟨s', hs', hup⟩ := Along.last oneInterrupt h hevents (by decide +kernel) 0 .machine
      ⟨by decide, by decide⟩ ⟨1, by decide, by decide, by decide +kernel, by decide +kernel,
        by decide +kernel⟩
    rw [hrun] at hs'
    cases hs'
    exact absurd hup (by decide +kernel)
  · have hevents := eq_ok_of_isOk (m := bothLevels.foldlM (step 2) initial) (by decide +kernel)
      initial
    have hrun := eq_ok_of_isOk (m := (outcome (bothLevels.foldlM (step 2) initial) initial).run 2)
      (by decide +kernel) initial
    obtain ⟨s', hs', hup⟩ := Along.last bothLevels h hevents (by decide +kernel) 1 .machine
      ⟨by decide, by decide⟩ ⟨1, by decide, by decide, by decide +kernel, by decide +kernel,
        by decide +kernel⟩
    rw [hrun] at hs'
    cases hs'
    exact absurd hup (by decide +kernel)
  · have hevents := eq_ok_of_isOk (m := twoInterrupts.foldlM (step 2) initial) (by decide +kernel)
      initial
    have hcompletion : IsCompletion 2 0x200004 [1#8, 0#8, 0#8, 0#8] 0 .machine := by
      refine ⟨⟨rfl, by decide, by decide⟩, by decide⟩
    obtain ⟨s', hs', hup⟩ := Along.last twoInterrupts h hevents 0 .machine hcompletion
      ⟨2, ⟨by decide, by decide, by decide +kernel, by decide +kernel, by decide +kernel⟩,
        by decide⟩
    rw [write_of_isCompletion hcompletion rfl] at hs'
    cases hs'
    exact absurd hup (by decide +kernel)

end Fu540Plic

end CoverageVP.Platform
