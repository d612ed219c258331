import CoverageVP.Lib.Sequences
import CoverageVP.Platform.Fu540Plic

/-!
# Selection of an interrupt by the controller of the FU540

The priority of an interrupt is the bounded value that was last written to its register. The
controller compares the register of the next interrupt instead, does not mask an interrupt whose
priority is the threshold, and has no priority for the last interrupt.
-/

namespace CoverageVP.Platform

open Lib

namespace Fu540Plic

/-! ## What is selected -/

/-- Writes of the registers, one after another. -/
def writeAll (harts : Nat) (s : Fu540Plic) (writes : List (Nat × List (BitVec 8))) :
    Except Fault Fu540Plic :=
  writes.foldlM (fun s w ↦ (peripheral harts).write w.1 w.2 s) s

/-- Interrupts that become pending. -/
def triggerAll (s : Fu540Plic) (irqs : List Nat) : Except Fault Fu540Plic :=
  irqs.foldlM gatewayTriggerInterrupt s

/-- The byte that was last written to every offset. -/
def lastWritten (writes : List (Nat × List (BitVec 8))) : Bytes :=
  writes.foldl (fun m w ↦ m.write w.1 w.2) fun _ ↦ 0#8

/-- The priority that software has given to an interrupt. -/
def ownPriority (writes : List (Nat × List (BitVec 8))) (irq : Nat) : Nat :=
  (minWord ((lastWritten writes).word 32 (4 * irq)) maxPrio).toNat

/-- The priority of an interrupt has to be above the threshold. -/
structure Unmasked (writes : List (Nat × List (BitVec 8))) (s : Fu540Plic) (hart : Nat)
    (level : Level) (ignth : Bool) (irq : Nat) : Prop where
  priority : 0 < ownPriority writes irq
  threshold : ignth = false → s.threshold hart level < ownPriority writes irq

/-- An interrupt that may be selected for a context. -/
structure Selectable (writes : List (Nat × List (BitVec 8))) (s : Fu540Plic) (hart : Nat)
    (level : Level) (ignth : Bool) (irq : Nat) : Prop where
  pos : 0 < irq
  le : irq ≤ numIrq
  enabled : s.enabledBit hart level irq = true
  pending : s.pendingBit irq = true
  unmasked : Unmasked writes s hart level ignth irq

/-- The loop ends with the interrupt of the highest priority, the lowest one among those. -/
def Selects (writes : List (Nat × List (BitVec 8))) (s : Fu540Plic) (hart : Nat) (level : Level)
    (ignth : Bool) : Prop :=
  ∃ irq, s.nextPendingIrq hart level ignth = .ok irq ∧
    Selection.Chosen 0 (Selectable writes s hart level ignth) (ownPriority writes) irq

/-- An interrupt that the code does not mask. -/
structure Taken (s : Fu540Plic) (hart : Nat) (level : Level) (ignth : Bool) (irq : Nat) : Prop where
  priority : 0 < s.priority irq
  threshold : ignth = false → s.threshold hart level ≤ s.priority irq

/-- The last interrupt is not enabled, and the registers that the code compares mask and order the
enabled interrupts as their own priorities do. -/
structure Agrees (writes : List (Nat × List (BitVec 8))) (s : Fu540Plic) (hart : Nat)
    (level : Level) (ignth : Bool) : Prop where
  last : s.enabledBit hart level numIrq = false
  masked : ∀ irq, 0 < irq → irq < numIrq → s.enabledBit hart level irq = true →
    (Taken s hart level ignth irq ↔ Unmasked writes s hart level ignth irq)
  order : ∀ j k, 0 < j → j < k → k < numIrq →
    s.enabledBit hart level j = true → s.enabledBit hart level k = true →
    Taken s hart level ignth j → Taken s hart level ignth k →
    (s.priority j < s.priority k ↔ ownPriority writes j < ownPriority writes k)

/-! ## Pending interrupts -/

section Pending

variable {s s' : Fu540Plic} {irqs : List Nat}

/-- The gateways change only the pending interrupts. -/
theorem triggerAll_of_ok (h : s.triggerAll irqs = .ok s') :
    (∀ bank, bank ≠ .pendingInterrupts → s'.regs bank = s.regs bank) ∧
      ∀ i, s'.pendingBit i = (s.pendingBit i || decide (i ∈ irqs)) := by
  induction irqs generalizing s with
  | nil =>
    cases h
    simp
  | cons irq irqs ih =>
    rw [triggerAll, List.foldlM_cons] at h
    obtain ⟨s₁, hs₁, h⟩ := bind_eq_ok.mp h
    obtain ⟨-, hs₁⟩ := check_bind_eq_ok_iff.mp hs₁
    obtain ⟨-, hs₁⟩ := check_bind_eq_ok_iff.mp hs₁
    cases hs₁
    obtain ⟨hregs, hpending⟩ := ih h
    refine ⟨fun bank hbank ↦ ?_, fun i ↦ ?_⟩
    · rw [hregs bank hbank]
      exact Registers.set_of_ne _ hbank
    · have hset : Registers.bit (s.regs.setBit .pendingInterrupts irq) .pendingInterrupts i =
          (s.pendingBit i || i == irq) := Registers.bit_setBit
      rw [hpending i, pendingBit, hset, Bool.or_assoc]
      congr 1
      rw [Bool.eq_iff_iff]
      simp

theorem exists_triggerAll (h : ∀ irq ∈ irqs, 0 < irq ∧ irq ≤ numIrq) :
    ∃ s', s.triggerAll irqs = .ok s' := by
  induction irqs generalizing s with
  | nil => exact ⟨s, rfl⟩
  | cons irq irqs ih =>
    obtain ⟨hpos, hle⟩ := h irq List.mem_cons_self
    have hvalid : ¬ (irq = 0 ∨ numIrq < irq) := by omega
    have hindex : irq / 32 < 2 := by
      rw [numIrq] at hle
      omega
    have hstep : s.gatewayTriggerInterrupt irq = .ok
        { s with regs := s.regs.setBit .pendingInterrupts irq, runNotified := true } := by
      rw [gatewayTriggerInterrupt, check_of hvalid, checkIndex, check_of hindex]
      rfl
    rw [triggerAll, List.foldlM_cons, hstep]
    exact ih fun j hj ↦ h j (List.mem_cons_of_mem irq hj)

/-- Software does not make an interrupt pending. -/
theorem write_pendingInterrupts {harts addr : Nat} {data : List (BitVec 8)}
    (h : (peripheral harts).write addr data s = .ok s') :
    s'.regs .pendingInterrupts = s.regs .pendingInterrupts := by
  obtain ⟨b, -, -, h⟩ := Peripheral.write_eq_ok_iff.mp h
  cases b with
  | pendingInterrupts =>
    cases h
    rfl
  | interruptPriorities =>
    obtain ⟨-, h⟩ := check_bind_eq_ok_iff.mp h
    obtain ⟨-, h⟩ := check_bind_eq_ok_iff.mp h
    cases h
    rfl
  | enabledIrqs hart level =>
    cases h
    rfl
  | hartContext hart level =>
    obtain ⟨-, h⟩ := check_bind_eq_ok_iff.mp h
    obtain ⟨-, h⟩ := check_bind_eq_ok_iff.mp h
    split at h <;> cases h <;> rfl

theorem writeAll_pendingInterrupts {harts : Nat} {writes : List (Nat × List (BitVec 8))}
    (h : writeAll harts s writes = .ok s') :
    s'.regs .pendingInterrupts = s.regs .pendingInterrupts := by
  refine invariant_of_foldlM (I := fun s₁ ↦ s₁.regs .pendingInterrupts = s.regs .pendingInterrupts)
    (fun s₁ w s₂ hs₁ hs₂ ↦ ?_) writes rfl h
  exact (write_pendingInterrupts hs₂).trans hs₁

/-- The pending interrupts are those of the gateways. -/
theorem pendingBit_of_triggerAll {harts : Nat} {writes : List (Nat × List (BitVec 8))}
    (hs : writeAll harts initial writes = .ok s) (h : s.triggerAll irqs = .ok s') (i : Nat) :
    s'.pendingBit i = decide (i ∈ irqs) := by
  have hnone : s.pendingBit i = false := by
    rw [pendingBit, Registers.bit, Registers.word,
      Bytes.getLsbD_word _ (by decide) _ (Nat.mod_lt i (by decide)), writeAll_pendingInterrupts hs]
    exact BitVec.getLsbD_zero
  rw [(triggerAll_of_ok h).2 i, hnone, Bool.false_or]

end Pending

/-! ## Agreement -/

section Agreement

variable {harts : Nat} {writes : List (Nat × List (BitVec 8))} {s s' : Fu540Plic} {irqs : List Nat}
  {hart : Nat} {level : Level} {ignth : Bool}

section Triggered

variable (h : s.triggerAll irqs = .ok s')

include h

theorem enabledBit_of_triggerAll (hart : Nat) (level : Level) (irq : Nat) :
    s'.enabledBit hart level irq = s.enabledBit hart level irq := by
  have hbank := (triggerAll_of_ok h).1 (.enabledIrqs hart level) (by simp)
  rw [enabledBit, Registers.bit, Registers.word, hbank]
  rfl

theorem priority_of_triggerAll (irq : Nat) : s'.priority irq = s.priority irq := by
  have hbank := (triggerAll_of_ok h).1 .interruptPriorities (by simp)
  rw [priority, Registers.word, hbank]
  rfl

theorem threshold_of_triggerAll (hart : Nat) (level : Level) :
    s'.threshold hart level = s.threshold hart level := by
  have hbank := (triggerAll_of_ok h).1 (.hartContext hart level) (by simp)
  rw [threshold, Registers.word, hbank]
  rfl

/-- What the loop takes depends on the registers before the gateways were triggered. -/
theorem eligible_iff_taken {irq : Nat} (hpos : 0 < irq) (hlt : irq < numIrq) :
    s'.Eligible hart level ignth irq ↔ s.enabledBit hart level irq = true ∧
      s'.pendingBit irq = true ∧ Taken s hart level ignth irq := by
  have hpriority := priority_of_triggerAll h irq
  have hthreshold := threshold_of_triggerAll h hart level
  have henabled := enabledBit_of_triggerAll h hart level irq
  constructor
  · intro he
    exact ⟨henabled ▸ he.enabled, he.pending, hpriority ▸ he.priority,
      fun hi ↦ hpriority ▸ hthreshold ▸ he.threshold hi⟩
  · rintro ⟨hbit, hpending, htaken⟩
    exact ⟨hpos, hlt, henabled.trans hbit, hpending, hpriority ▸ htaken.priority,
      fun hi ↦ hpriority ▸ hthreshold ▸ htaken.threshold hi⟩

theorem selectable_iff_unmasked {irq : Nat} :
    Selectable writes s' hart level ignth irq ↔ (0 < irq ∧ irq ≤ numIrq) ∧
      s.enabledBit hart level irq = true ∧ s'.pendingBit irq = true ∧
      Unmasked writes s hart level ignth irq := by
  have hthreshold := threshold_of_triggerAll h hart level
  have henabled := enabledBit_of_triggerAll h hart level irq
  constructor
  · intro hs
    exact ⟨⟨hs.pos, hs.le⟩, henabled ▸ hs.enabled, hs.pending, hs.unmasked.priority,
      fun hi ↦ hthreshold ▸ hs.unmasked.threshold hi⟩
  · rintro ⟨⟨hpos, hle⟩, hbit, hpending, hunmasked⟩
    exact ⟨hpos, hle, henabled.trans hbit, hpending, hunmasked.priority,
      fun hi ↦ hthreshold ▸ hunmasked.threshold hi⟩

/-- Registers that agree select the right one of any pending interrupts. -/
theorem Agrees.selects (hlevel : ¬ (hart = 0 ∧ level = .supervisor))
    (ha : Agrees writes s hart level ignth) : Selects writes s' hart level ignth := by
  have hscans : s'.Scans hart level := by
    rintro ⟨henabled, -⟩
    rw [enabledBit_of_triggerAll h, ha.last] at henabled
    cases henabled
  refine ⟨_, nextPendingIrq_of_scans hlevel hscans ignth, ?_⟩
  refine (chosen_nextPending hscans ignth).congr (fun irq ↦ ?_) fun j k hj hk hlt ↦ ?_
  · constructor
    · intro he
      obtain ⟨hbit, hpending, htaken⟩ := (eligible_iff_taken h he.pos he.lt).mp he
      exact (selectable_iff_unmasked h).mpr ⟨⟨he.pos, he.lt.le⟩, hbit, hpending,
        (ha.masked irq he.pos he.lt hbit).mp htaken⟩
    · intro hsel
      obtain ⟨⟨hpos, hle⟩, hbit, hpending, hunmasked⟩ := (selectable_iff_unmasked h).mp hsel
      have hne : irq ≠ numIrq := by
        rintro rfl
        exact Bool.false_ne_true (ha.last.symm.trans hbit)
      have hlt : irq < numIrq := by omega
      exact (eligible_iff_taken h hpos hlt).mpr ⟨hbit, hpending,
        (ha.masked irq hpos hlt hbit).mpr hunmasked⟩
  · obtain ⟨hbitj, -, htakenj⟩ := (eligible_iff_taken h hj.pos hj.lt).mp hj
    obtain ⟨hbitk, -, htakenk⟩ := (eligible_iff_taken h hk.pos hk.lt).mp hk
    rw [priority_of_triggerAll h, priority_of_triggerAll h]
    exact ha.order j k hj.pos hlt hk.lt hbitj hbitk htakenj htakenk

end Triggered

section Converse

variable (hs : writeAll harts initial writes = .ok s)
  (hlevel : ¬ (hart = 0 ∧ level = .supervisor))
  (hall : ∀ irqs s', s.triggerAll irqs = .ok s' → Selects writes s' hart level ignth)

include hs hlevel hall

/-- The selection among given pending interrupts, by the code and as it should be. -/
theorem exists_chosen (irqs : List Nat) (hirqs : ∀ irq ∈ irqs, 0 < irq ∧ irq ≤ numIrq) :
    ∃ s' irq, s.triggerAll irqs = .ok s' ∧ (∀ i, s'.pendingBit i = decide (i ∈ irqs)) ∧
      s'.Scans hart level ∧
      Selection.Chosen 0 (s'.Eligible hart level ignth) s'.priority irq ∧
      Selection.Chosen 0 (Selectable writes s' hart level ignth) (ownPriority writes) irq := by
  obtain ⟨s', hs'⟩ := exists_triggerAll hirqs
  obtain ⟨irq, hnext, hchosen⟩ := hall irqs s' hs'
  obtain ⟨hscans, rfl⟩ := (nextPendingIrq_eq_ok_iff hlevel).mp hnext
  exact ⟨s', _, hs', pendingBit_of_triggerAll hs hs', hscans, chosen_nextPending hscans ignth,
    hchosen⟩

theorem not_enabled_last : s.enabledBit hart level numIrq = false := by
  obtain ⟨s', -, hs', hpending, hscans, -⟩ := exists_chosen hs hlevel hall [numIrq] (by decide)
  by_contra henabled
  refine hscans ⟨?_, ?_⟩
  · rw [enabledBit_of_triggerAll hs']
    exact Bool.eq_true_of_not_eq_false henabled
  · rw [hpending]
    rfl

theorem taken_iff_unmasked {irq : Nat} (hpos : 0 < irq) (hlt : irq < numIrq)
    (henabled : s.enabledBit hart level irq = true) :
    Taken s hart level ignth irq ↔ Unmasked writes s hart level ignth irq := by
  have hirqs : ∀ i ∈ [irq], 0 < i ∧ i ≤ numIrq := by
    intro i hi
    rw [List.mem_singleton.mp hi]
    exact ⟨hpos, hlt.le⟩
  obtain ⟨s', i, hs', hpending, -, hcode, hspec⟩ := exists_chosen hs hlevel hall _ hirqs
  have hbit : s'.pendingBit irq = true := by
    rw [hpending]
    exact decide_eq_true List.mem_cons_self
  have honly : s'.pendingBit i = true → i = irq := by
    rw [hpending, decide_eq_true_iff]
    exact List.mem_singleton.mp
  constructor
  · intro htaken
    have hbest := hcode.firstBest ((eligible_iff_taken hs' hpos hlt).mpr ⟨henabled, hbit, htaken⟩)
    obtain rfl := honly hbest.eligible.pending
    rcases hspec with ⟨rfl, -⟩ | hbest'
    · exact absurd hpos (Nat.lt_irrefl 0)
    · exact ((selectable_iff_unmasked hs').mp hbest'.eligible).2.2.2
  · intro hunmasked
    have hbest := hspec.firstBest ((selectable_iff_unmasked hs').mpr ⟨⟨hpos, hlt.le⟩, henabled, hbit,
      hunmasked⟩)
    obtain rfl := honly hbest.eligible.pending
    rcases hcode with ⟨rfl, -⟩ | hbest'
    · exact absurd hpos (Nat.lt_irrefl 0)
    · exact ((eligible_iff_taken hs' hpos hlt).mp hbest'.eligible).2.2

theorem priority_lt_iff {j k : Nat} (hpos : 0 < j) (hjk : j < k) (hlt : k < numIrq)
    (hj : s.enabledBit hart level j = true) (hk : s.enabledBit hart level k = true)
    (htakenj : Taken s hart level ignth j) (htakenk : Taken s hart level ignth k) :
    s.priority j < s.priority k ↔ ownPriority writes j < ownPriority writes k := by
  have hirqs : ∀ i ∈ [j, k], 0 < i ∧ i ≤ numIrq := by
    intro i hi
    rcases List.mem_pair.mp hi with rfl | rfl
    · exact ⟨hpos, (hjk.trans hlt).le⟩
    · exact ⟨hpos.trans hjk, hlt.le⟩
  have hunmasked : ∀ i, 0 < i → i < numIrq → s.enabledBit hart level i = true →
      Taken s hart level ignth i → Unmasked writes s hart level ignth i :=
    fun i hpos hlt henabled ↦ (taken_iff_unmasked hs hlevel hall hpos hlt henabled).mp
  obtain ⟨s', i, hs', hpending, -, hcode, hspec⟩ := exists_chosen hs hlevel hall _ hirqs
  have hbit : ∀ i ∈ [j, k], s'.pendingBit i = true := fun i hi ↦ by
    rw [hpending]
    exact decide_eq_true hi
  have hej : s'.Eligible hart level ignth j :=
    (eligible_iff_taken hs' hpos (hjk.trans hlt)).mpr ⟨hj, hbit j (by simp), htakenj⟩
  have hek : s'.Eligible hart level ignth k :=
    (eligible_iff_taken hs' (hpos.trans hjk) hlt).mpr ⟨hk, hbit k (by simp), htakenk⟩
  have hsj : Selectable writes s' hart level ignth j := (selectable_iff_unmasked hs').mpr
    ⟨⟨hpos, (hjk.trans hlt).le⟩, hj, hbit j (by simp), hunmasked j hpos (hjk.trans hlt) hj htakenj⟩
  have hsk : Selectable writes s' hart level ignth k := (selectable_iff_unmasked hs').mpr
    ⟨⟨hpos.trans hjk, hlt.le⟩, hk, hbit k (by simp),
      hunmasked k (hpos.trans hjk) hlt hk htakenk⟩
  have hbest := hcode.firstBest hej
  have hpair : i = j ∨ i = k := by
    have hi := hbest.eligible.pending
    rw [hpending, decide_eq_true_iff] at hi
    exact List.mem_pair.mp hi
  calc s.priority j < s.priority k
      ↔ s'.priority j < s'.priority k := by
        rw [priority_of_triggerAll hs', priority_of_triggerAll hs']
    _ ↔ i = k := (hbest.eq_iff_of_pair hej hek hjk hpair).symm
    _ ↔ ownPriority writes j < ownPriority writes k :=
        (hspec.firstBest hsj).eq_iff_of_pair hsj hsk hjk hpair

end Converse

/-- Among any pending interrupts the code selects the right one if and only if the last interrupt is
not enabled and the registers that it compares mask and order the enabled interrupts as their own
priorities do. -/
theorem selects_iff_agrees (hs : writeAll harts initial writes = .ok s)
    (hcontext : IsContext harts hart level) (ignth : Bool) :
    (∀ irqs s', s.triggerAll irqs = .ok s' → Selects writes s' hart level ignth) ↔
      Agrees writes s hart level ignth := by
  constructor
  · intro hall
    exact ⟨not_enabled_last hs hcontext.hasLevel hall,
      fun _ ↦ taken_iff_unmasked hs hcontext.hasLevel hall,
      fun _ _ ↦ priority_lt_iff hs hcontext.hasLevel hall⟩
  · intro ha irqs s' h
    exact ha.selects h hcontext.hasLevel

end Agreement

/-- The first two interrupts have the same priority and the first one is enabled. -/
def equalPriorities : List (Nat × List (BitVec 8)) :=
  [(0x4, [5#8, 0#8, 0#8, 0#8]), (0x8, [5#8, 0#8, 0#8, 0#8]), (0x2000, [2#8, 0#8, 0#8, 0#8])]

theorem selects_equalPriorities :
    ∃ s, writeAll 1 initial equalPriorities = .ok s ∧ ∀ irqs s', s.triggerAll irqs = .ok s' →
      Selects equalPriorities s' 0 .machine true := by
  have hs := eq_ok_of_isOk (m := writeAll 1 initial equalPriorities) (by decide +kernel) initial
  set s := outcome (writeAll 1 initial equalPriorities) initial with houtcome
  have honly : ∀ irq < numIrq, s.enabledBit 0 .machine irq = true → irq = 1 := by
    rw [houtcome]
    decide +kernel
  refine ⟨s, hs, (selects_iff_agrees hs ⟨by decide, by decide⟩ true).mpr ⟨?_, ?_, ?_⟩⟩
  · rw [houtcome]
    decide +kernel
  · intro irq _ hlt henabled
    obtain rfl := honly irq hlt henabled
    have htaken : 0 < s.priority 1 := by
      rw [houtcome]
      decide +kernel
    refine iff_of_true ⟨htaken, ?_⟩ ⟨by decide +kernel, ?_⟩
    · intro h
      cases h
    · intro h
      cases h
  · intro j k _ hjk hlt hj hk
    have hj' := honly j (hjk.trans hlt) hj
    have hk' := honly k hlt hk
    omega

/-- The first interrupt has a priority and is enabled. -/
def onePriority : List (Nat × List (BitVec 8)) :=
  [(0x4, [1#8, 0#8, 0#8, 0#8]), (0x2000, [2#8, 0#8, 0#8, 0#8])]

/-- The last interrupt is enabled. -/
def lastEnabled : List (Nat × List (BitVec 8)) := [(0x2004, [0#8, 0#8, 32#8, 0#8])]

theorem not_selects :
    (∃ s, writeAll 1 initial onePriority = .ok s ∧ ¬ ∀ irqs s', s.triggerAll irqs = .ok s' →
        Selects onePriority s' 0 .machine true) ∧
      ∃ s, writeAll 1 initial lastEnabled = .ok s ∧ ¬ ∀ irqs s', s.triggerAll irqs = .ok s' →
        Selects lastEnabled s' 0 .machine true := by
  constructor
  · have hs := eq_ok_of_isOk (m := writeAll 1 initial onePriority) (by decide +kernel) initial
    refine ⟨_, hs, fun hall ↦ ?_⟩
    have hiff := taken_iff_unmasked hs (by decide) hall Nat.zero_lt_one (by decide)
      (by decide +kernel)
    have htaken := hiff.mpr ⟨by decide +kernel, fun h ↦ absurd h.symm Bool.false_ne_true⟩
    exact absurd htaken.priority (by decide +kernel)
  · have hs := eq_ok_of_isOk (m := writeAll 1 initial lastEnabled) (by decide +kernel) initial
    refine ⟨_, hs, fun hall ↦ ?_⟩
    exact absurd (not_enabled_last hs (by decide) hall) (by decide +kernel)

end Fu540Plic

end CoverageVP.Platform
