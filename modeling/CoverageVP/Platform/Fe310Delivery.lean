import CoverageVP.Lib.Sequences
import CoverageVP.Platform.Fe310Plic

/-!
# Delivery of interrupts by the controller of the FE310

With one hart, an eligible interrupt is announced as long as the controller runs after everything
that makes an interrupt eligible. A trigger notifies the controller. A write of a priority, of an
enable bit or of the threshold does not, and the completion of another interrupt before the
controller has run fails an assertion.
-/

namespace CoverageVP.Platform

open Lib

namespace Fe310Plic

/-! ## Events -/

variable (p : Fe310Params)

def step (s : Fe310Plic) : PlicEvent → Except Fault Fe310Plic
  | .trigger irqId => s.gatewayTriggerInterrupt p irqId
  | .read addr len => do
    let result ← (peripheral p).read addr len s
    return result.2
  | .write addr data => (peripheral p).write addr data s
  | .run => if s.runNotified then s.run p else .ok s

/-- Without a run ahead, the hart is told about an eligible interrupt. -/
def Announced (s : Fe310Plic) : Prop :=
  s.runNotified = false → (∃ i, s.Eligible p 0 true i) →
    s.hartEip 0 = true ∧ s.targetHarts 0 = true

/-- No interrupt is lost by an event, and the line is up where the code asserts it. -/
def NotLost (s : Fe310Plic) (e : PlicEvent) : Prop :=
  step p s e ≠ .error (.assertion .hartEip) ∧ ∀ s', step p s e = .ok s' → s'.Announced p

/-- The registers after a write of a bank. -/
def overwritten (s : Fe310Plic) (b : Fe310Bank) (addr : Nat) (data : List (BitVec 8)) : Fe310Plic :=
  match b with
  | .interruptPriorities =>
    (s.setMem b ((s.regs b).write addr data)).postWriteInterruptPriorities p
  | _ => s.setMem b ((s.regs b).write addr data)

/-- A completion does not find an interrupt before the controller has run for it, and no other write
makes an interrupt eligible while the line is down and no run is ahead. -/
def Foreseen (s : Fe310Plic) : PlicEvent → Prop
  | .write addr data => ∀ b, (peripheral p).Reaches addr data.length b →
    (range p b).readonly = false →
    let loc := (range p b).toLocal addr
    let s₁ := s.overwritten p b loc data
    if b = .hartConfig ∧ loc / 4 % 2 = 1 then
      data.length = 4 → s₁.hartHasPendingEnabledInterrupts p 0 = .ok true → s.hartEip 0 = true
    else s.runNotified = false → (∃ i, s₁.Eligible p 0 true i) → s.hartEip 0 = true
  | _ => True

/-- The line of the hart is up if the controller has raised it. -/
structure Steady (s : Fe310Plic) : Prop where
  announced : s.Announced p
  line : s.targetHarts 0 = s.hartEip 0

/-! ## Each event -/

section Events

variable {p} {s s' : Fe310Plic}

theorem Eligible.of_pending {considerThreshold : Bool} {hart i : Nat}
    (h : s'.Eligible p hart considerThreshold i)
    (hpending : s'.pendingBit i = true → s.pendingBit i = true)
    (henabled : s'.enabledBit hart i = s.enabledBit hart i) (hpriority : s'.priority i = s.priority i)
    (hthreshold : s'.priorityThreshold hart = s.priorityThreshold hart) :
    s.Eligible p hart considerThreshold i where
  pos := h.pos
  lt := h.lt
  enabled := henabled ▸ h.enabled
  pending := hpending h.pending
  priority := hpriority ▸ h.priority
  threshold := fun hc ↦ hthreshold ▸ hpriority ▸ h.threshold hc

/-- A claim makes nothing eligible. -/
theorem eligible_of_claimed {minId i : Nat} (h : (s.claimed 1 minId).Eligible p 0 true i) :
    s.Eligible p 0 true i := by
  have hother : ∀ {b : Fe310Bank} {idx : Nat}, b ≠ .pendingInterrupts → b ≠ .hartConfig →
      (s.claimed 1 minId).word b idx = s.word b idx := by
    intro b idx hpending hconfig
    rw [claimed, cleared, word_setWord_of_bank_ne _ hpending, word_setWord_of_bank_ne _ hconfig]
  refine h.of_pending (fun hbit ↦ ?_) ?_ (hother (by decide) (by decide)) ?_
  · rw [claimed, pendingBit_cleared, Bool.and_eq_true] at hbit
    rw [pendingBit, word_setWord_of_bank_ne _ (by decide)] at hbit
    exact hbit.1
  · rw [enabledBit, hother (by decide) (by decide), enabledBit]
  · rw [priorityThreshold, claimed, cleared, word_setWord_of_bank_ne _ (by decide),
      word_setWord_of_idx_ne _ _ (by decide), priorityThreshold]

theorem gatewayTriggerInterrupt_of_ok {irqId : Nat}
    (h : s.gatewayTriggerInterrupt p irqId = .ok s') :
    s'.runNotified = true ∧ s'.hartEip = s.hartEip ∧ s'.targetHarts = s.targetHarts := by
  obtain ⟨-, h⟩ := check_bind_eq_ok_iff.mp h
  obtain ⟨pending, -, h⟩ := bind_eq_ok.mp h
  obtain ⟨s₁, hs₁, h⟩ := bind_eq_ok.mp h
  obtain ⟨-, hs₁⟩ := check_bind_eq_ok_iff.mp hs₁
  cases hs₁
  cases h
  exact ⟨rfl, rfl, rfl⟩

theorem gatewayTriggerInterrupt_ne_hartEip (irqId : Nat) :
    s.gatewayTriggerInterrupt p irqId ≠ .error (.assertion .hartEip) := by
  intro h
  rcases check_bind_eq_error_iff.mp h with ⟨-, h⟩ | ⟨-, h⟩
  · cases h
  rcases bind_eq_error.mp h with h | ⟨pending, -, h⟩
  · rcases check_bind_eq_error_iff.mp h with ⟨-, h⟩ | ⟨-, h⟩ <;> cases h
  rcases bind_eq_error.mp h with h | ⟨s₁, -, h⟩
  · rcases check_bind_eq_error_iff.mp h with ⟨-, h⟩ | ⟨-, h⟩ <;> cases h
  · cases h

theorem preRead_ne_hartEip (b : Fe310Bank) (addr size : Nat) :
    (peripheral p).preRead b addr size s ≠ .error (.assertion .hartEip) := by
  intro h
  cases b with
  | hartConfig =>
    change s.preReadHartConfig p addr size = _ at h
    rcases check_bind_eq_error_iff.mp h with ⟨-, h⟩ | ⟨-, h⟩
    · cases h
    dsimp only at h
    split at h
    case isFalse => cases h
    case isTrue =>
    rcases check_bind_eq_error_iff.mp h with ⟨-, h⟩ | ⟨-, h⟩
    · cases h
    rcases bind_eq_error.mp h with h | ⟨minId, -, h⟩
    · rcases hartGetNextPendingInterrupt_eq_error h with h | h <;> cases h
    rcases check_bind_eq_error_iff.mp h with ⟨-, h⟩ | ⟨-, h⟩
    · cases h
    rcases check_bind_eq_error_iff.mp h with ⟨-, h⟩ | ⟨-, h⟩
    · cases h
    rcases bind_eq_error.mp h with h | ⟨pending, -, h⟩
    · rcases check_bind_eq_error_iff.mp h with ⟨-, h⟩ | ⟨-, h⟩ <;> cases h
    · rcases check_bind_eq_error_iff.mp h with ⟨-, h⟩ | ⟨-, h⟩ <;> cases h
  | interruptPriorities | pendingInterrupts | hartEnabledInterrupts => cases h

/-- The controller has told the hart about every eligible interrupt when it has run. -/
theorem steady_runHart (hline : s.targetHarts 0 = s.hartEip 0) (h : s.runHart p 0 = .ok s') :
    s'.Steady p := by
  unfold runHart at h
  split at h
  case isTrue heip =>
    cases h
    exact ⟨fun _ _ ↦ ⟨heip, hline.trans heip⟩, hline⟩
  case isFalse =>
    obtain ⟨b, hb, h⟩ := bind_eq_ok.mp h
    split at h
    case isTrue =>
      cases h
      exact ⟨fun _ _ ↦ ⟨rfl, rfl⟩, rfl⟩
    case isFalse hnone =>
      cases h
      have hiff := hartHasPendingEnabledInterrupts_of_ok hb
      exact ⟨fun _ heligible ↦ absurd (hiff.mpr heligible) hnone, hline⟩

theorem hartHasPendingEnabledInterrupts_ne_hartEip (hart : Nat) :
    s.hartHasPendingEnabledInterrupts p hart ≠ .error (.assertion .hartEip) := by
  intro h
  rcases bind_eq_error.mp h with h | ⟨n, -, h⟩
  · rcases hartGetNextPendingInterrupt_eq_error h with h | h <;> cases h
  · cases h

theorem runHart_ne_hartEip (hart : Nat) :
    s.runHart p hart ≠ .error (.assertion .hartEip) := by
  intro h
  unfold runHart at h
  split at h
  case isTrue => cases h
  case isFalse =>
    rcases bind_eq_error.mp h with h | ⟨b, -, h⟩
    · exact hartHasPendingEnabledInterrupts_ne_hartEip hart h
    · split at h <;> cases h

theorem toLocal_hartConfig {addr len : Nat} (h : (peripheral p).Reaches addr len .hartConfig) :
    (range p .hartConfig).toLocal addr % 4 = 0 := by
  have haddr : addr % 4 = 0 := h.aligned.1
  change (addr - 0x200000) % 4 = 0
  omega

/-- A completion of the first hart. -/
theorem postWriteHartConfig_of_odd {addr : Nat} (hodd : addr / 4 % 2 = 1) (hlt : addr + 4 ≤ 8)
    (haligned : addr % 4 = 0) :
    s.postWriteHartConfig p addr 4 = (do
      if ← s.hartHasPendingEnabledInterrupts p 0 then
        check (s.hartEip 0 = true) (.assertion .hartEip)
        return s.setTargetHart 0 true
      else return (s.setHartEip 0 false).setTargetHart 0 false) := by
  have hidx : addr / 4 = 1 := by omega
  have hcheck : ∀ fault, check (0 < p.numberCores) fault = .ok () :=
    fun _ ↦ check_eq_ok_iff.mpr p.cores_pos
  rw [postWriteHartConfig, hidx, haligned]
  simp only [hcheck]
  rfl

theorem completion_eq_error_iff {addr : Nat} (hodd : addr / 4 % 2 = 1) (hlt : addr + 4 ≤ 8)
    (haligned : addr % 4 = 0) :
    s.postWriteHartConfig p addr 4 = .error (.assertion .hartEip) ↔
      s.hartHasPendingEnabledInterrupts p 0 = .ok true ∧ s.hartEip 0 = false := by
  rw [postWriteHartConfig_of_odd hodd hlt haligned, bind_eq_error,
    or_iff_right (hartHasPendingEnabledInterrupts_ne_hartEip 0)]
  constructor
  · rintro ⟨b, hb, h⟩
    split at h
    case isTrue hpending =>
      rcases check_bind_eq_error_iff.mp h with ⟨heip, -⟩ | ⟨-, h⟩
      · exact ⟨hpending ▸ hb, Bool.eq_false_of_not_eq_true heip⟩
      · cases h
    case isFalse => cases h
  · rintro ⟨hb, heip⟩
    refine ⟨true, hb, ?_⟩
    rw [if_pos rfl, check_bind_eq_error_iff, heip]
    exact .inl ⟨Bool.false_ne_true, rfl⟩

theorem postWriteHartConfig_of_size {addr size : Nat} (hodd : addr / 4 % 2 = 1)
    (haligned : addr % 4 = 0) (hsize : size ≠ 4) :
    s.postWriteHartConfig p addr size = .error (.assertion .registerSize) := by
  rw [postWriteHartConfig, check_bind_eq_error_iff]
  refine .inr ⟨haligned, ?_⟩
  dsimp only
  rw [if_pos hodd, check_bind_eq_error_iff]
  exact .inl ⟨hsize, rfl⟩

theorem steady_completion {addr : Nat} (hodd : addr / 4 % 2 = 1) (hlt : addr + 4 ≤ 8)
    (haligned : addr % 4 = 0) (h : s.postWriteHartConfig p addr 4 = .ok s') : s'.Steady p := by
  rw [postWriteHartConfig_of_odd hodd hlt haligned] at h
  obtain ⟨b, hb, h⟩ := bind_eq_ok.mp h
  split at h
  case isTrue =>
    obtain ⟨heip, h⟩ := check_bind_eq_ok_iff.mp h
    cases h
    exact ⟨fun _ _ ↦ ⟨heip, rfl⟩, heip.symm⟩
  case isFalse hnone =>
    cases h
    refine ⟨fun _ heligible ↦ ?_, rfl⟩
    obtain ⟨i, hi⟩ := heligible
    have hsame : s.Eligible p 0 true i := hi.of_pending (fun h ↦ h) rfl rfl rfl
    exact absurd ((hartHasPendingEnabledInterrupts_of_ok hb).mpr ⟨i, hsame⟩) hnone

/-! ### Writes that complete nothing -/

theorem postWriteInterruptPriorities_frame (p : Fe310Params) (s : Fe310Plic) :
    (s.postWriteInterruptPriorities p).hartEip = s.hartEip ∧
      (s.postWriteInterruptPriorities p).targetHarts = s.targetHarts ∧
      (s.postWriteInterruptPriorities p).runNotified = s.runNotified := by
  unfold postWriteInterruptPriorities
  induction List.range p.numberInterrupts generalizing s with
  | nil => exact ⟨rfl, rfl, rfl⟩
  | cons i is ih => exact ih (s.setWord .interruptPriorities i _)

theorem overwritten_frame (p : Fe310Params) (s : Fe310Plic) (b : Fe310Bank) (addr : Nat)
    (data : List (BitVec 8)) :
    (s.overwritten p b addr data).hartEip = s.hartEip ∧
      (s.overwritten p b addr data).targetHarts = s.targetHarts ∧
      (s.overwritten p b addr data).runNotified = s.runNotified := by
  cases b with
  | interruptPriorities => exact postWriteInterruptPriorities_frame p _
  | pendingInterrupts | hartEnabledInterrupts | hartConfig => exact ⟨rfl, rfl, rfl⟩

theorem postWrite_of_plain {b : Fe310Bank} {addr : Nat} (data : List (BitVec 8))
    (hplain : ¬ (b = .hartConfig ∧ addr / 4 % 2 = 1)) (haligned : b = .hartConfig → addr % 4 = 0) :
    (peripheral p).postWrite b addr data.length (s.setMem b ((s.regs b).write addr data)) =
      .ok (s.overwritten p b addr data) := by
  cases b with
  | hartConfig =>
    have heven : ¬ addr / 4 % 2 = 1 := fun h ↦ hplain ⟨rfl, h⟩
    change postWriteHartConfig p _ addr data.length = _
    rw [postWriteHartConfig, haligned rfl, if_neg heven]
    rfl
  | interruptPriorities | pendingInterrupts | hartEnabledInterrupts => rfl

theorem announced_overwritten_iff (hs : s.Steady p) (b : Fe310Bank) (addr : Nat)
    (data : List (BitVec 8)) :
    (s.overwritten p b addr data).Announced p ↔
      (s.runNotified = false → (∃ i, (s.overwritten p b addr data).Eligible p 0 true i) →
        s.hartEip 0 = true) := by
  obtain ⟨heip, hline, hrun⟩ := overwritten_frame p s b addr data
  rw [Announced, heip, hline, hrun, hs.line, and_self]

section OneHart

variable (hcores : p.numberCores = 1)

include hcores

theorem steady_preRead (hs : s.Steady p) {b : Fe310Bank} {addr size : Nat}
    (h : (peripheral p).preRead b addr size s = .ok s') : s'.Steady p := by
  cases b with
  | hartConfig =>
    obtain ⟨-, h⟩ := preReadHartConfig_eq_ok_iff.mp h
    split at h
    case isFalse => exact h ▸ hs
    case isTrue hodd =>
      obtain ⟨-, minId, -, hidx, -, -, rfl⟩ := h
      have hone : addr / 4 = 1 := by omega
      rw [hone]
      refine ⟨fun hrun heligible ↦ ?_, hs.line⟩
      obtain ⟨i, hi⟩ := heligible
      exact hs.announced hrun ⟨i, eligible_of_claimed hi⟩
  | interruptPriorities | pendingInterrupts | hartEnabledInterrupts =>
    cases h
    exact hs

theorem steady_run (hs : s.Steady p) (h : s.run p = .ok s') : s'.Steady p := by
  rw [run, hcores, List.range_one, List.foldlM_cons] at h
  obtain ⟨s₁, hs₁, h⟩ := bind_eq_ok.mp h
  cases h
  exact steady_runHart (s := { s with runNotified := false }) hs.line hs₁

theorem run_ne_hartEip : s.run p ≠ .error (.assertion .hartEip) := by
  intro h
  rw [run, hcores, List.range_one, List.foldlM_cons] at h
  rcases bind_eq_error.mp h with h | ⟨s₁, -, h⟩
  · exact runHart_ne_hartEip 0 h
  · cases h

theorem notLost_completion_iff {addr : Nat} {data : List (BitVec 8)}
    (hb : (peripheral p).Reaches addr data.length .hartConfig)
    (hodd : (range p .hartConfig).toLocal addr / 4 % 2 = 1) :
    NotLost p s (.write addr data) ↔ (data.length = 4 →
      (s.overwritten p .hartConfig ((range p .hartConfig).toLocal addr)
        data).hartHasPendingEnabledInterrupts p 0 = .ok true → s.hartEip 0 = true) := by
  have haligned := toLocal_hartConfig hb
  have hbounds : (range p .hartConfig).toLocal addr + data.length ≤ 8 * p.numberCores := hb.bounds
  rw [hcores] at hbounds
  have hstep : step p s (.write addr data) =
      postWriteHartConfig p (s.overwritten p .hartConfig ((range p .hartConfig).toLocal addr) data)
        ((range p .hartConfig).toLocal addr) data.length := by
    have hwrite := Peripheral.write_of_reaches (s := s) hb rfl rfl
    exact hwrite
  by_cases hlen : data.length = 4
  · have hlt : (range p .hartConfig).toLocal addr + 4 ≤ 8 := hlen ▸ hbounds
    rw [NotLost, hstep, hlen, imp_iff_right rfl, Ne,
      completion_eq_error_iff hodd hlt haligned, not_and, Bool.not_eq_false]
    refine and_iff_left_of_imp fun _ s' hs' ↦ ?_
    exact (steady_completion hodd hlt haligned hs').announced
  · have herror := hstep.trans (postWriteHartConfig_of_size hodd haligned hlen)
    refine iff_of_true ⟨?_, ?_⟩ fun h ↦ absurd h hlen
    · rw [herror]
      intro h
      cases h
    · intro s' hs'
      rw [herror] at hs'
      cases hs'

theorem notLost_write_iff (hs : s.Steady p) (addr : Nat) (data : List (BitVec 8)) :
    NotLost p s (.write addr data) ↔ Foreseen p s (.write addr data) := by
  by_cases hreached : ∃ b, (peripheral p).Reaches addr data.length b ∧
      (range p b).readonly = false
  · obtain ⟨b, hb, hreadonly⟩ := hreached
    have hforeseen : Foreseen p s (.write addr data) ↔
        if b = .hartConfig ∧ (range p b).toLocal addr / 4 % 2 = 1 then
          data.length = 4 → (s.overwritten p b ((range p b).toLocal addr)
            data).hartHasPendingEnabledInterrupts p 0 = .ok true → s.hartEip 0 = true
        else s.runNotified = false →
          (∃ i, (s.overwritten p b ((range p b).toLocal addr) data).Eligible p 0 true i) →
            s.hartEip 0 = true := by
      constructor
      · intro h
        exact h b hb hreadonly
      · intro h b' hb' _
        rw [hb.unique hb']
        exact h
    rw [hforeseen]
    split
    case isTrue hodd =>
      obtain ⟨rfl, hodd⟩ := hodd
      exact notLost_completion_iff hcores hb hodd
    case isFalse hplain =>
      have haligned : b = .hartConfig → (range p b).toLocal addr % 4 = 0 := by
        rintro rfl
        exact toLocal_hartConfig hb
      have hstep : step p s (.write addr data) =
          .ok (s.overwritten p b ((range p b).toLocal addr) data) :=
        (Peripheral.write_of_reaches hb hreadonly rfl).trans (postWrite_of_plain data hplain haligned)
      rw [NotLost, hstep, ← announced_overwritten_iff hs]
      constructor
      · rintro ⟨-, h⟩
        exact h _ rfl
      · intro h
        refine ⟨error_ne_ok.symm, fun s' hs' ↦ ?_⟩
        cases hs'
        exact h
  · refine iff_of_true ⟨fun h ↦ ?_, fun s' h ↦ ?_⟩ fun b hb hreadonly ↦ ?_
    · obtain ⟨b, hb, hreadonly, -⟩ := (Peripheral.write_eq_error_iff (by decide)).mp h
      exact hreached ⟨b, hb, hreadonly⟩
    · obtain ⟨b, hb, hreadonly, -⟩ := Peripheral.write_eq_ok_iff.mp h
      exact absurd ⟨b, hb, hreadonly⟩ hreached
    · exact absurd ⟨b, hb, hreadonly⟩ hreached

theorem notLost_iff_foreseen (hs : s.Steady p) (e : PlicEvent) : NotLost p s e ↔ Foreseen p s e := by
  cases e with
  | trigger irqId =>
    refine iff_of_true ⟨gatewayTriggerInterrupt_ne_hartEip irqId, fun s' h hrun ↦ ?_⟩ trivial
    rw [(gatewayTriggerInterrupt_of_ok h).1] at hrun
    cases hrun
  | read addr len =>
    refine iff_of_true ⟨fun h ↦ ?_, fun s' h ↦ ?_⟩ trivial
    · rcases bind_eq_error.mp h with h | ⟨_, -, h⟩
      · obtain ⟨b, hb⟩ := Peripheral.exists_of_read_eq_error (by decide) h
        exact preRead_ne_hartEip _ _ _ hb
      · cases h
    · obtain ⟨⟨data, s₁⟩, hread, h⟩ := bind_eq_ok.mp h
      cases h
      obtain ⟨b, -, hpre, -⟩ := Peripheral.read_eq_ok_iff.mp hread
      exact (steady_preRead hcores hs hpre).announced
  | write addr data => exact notLost_write_iff hcores hs addr data
  | run =>
    refine iff_of_true ⟨fun h ↦ ?_, fun s' h ↦ ?_⟩ trivial
    · rw [step] at h
      split at h
      · exact run_ne_hartEip hcores h
      · cases h
    · rw [step] at h
      split at h
      · exact (steady_run hcores hs h).announced
      · cases h
        exact hs.announced

theorem line_write (hs : s.Steady p) {addr : Nat} {data : List (BitVec 8)}
    (h : (peripheral p).write addr data s = .ok s') : s'.targetHarts 0 = s'.hartEip 0 := by
  obtain ⟨b, hb, -, h⟩ := Peripheral.write_eq_ok_iff.mp h
  change (peripheral p).postWrite b _ _ (s.setMem b _) = _ at h
  by_cases hodd : b = .hartConfig ∧ (range p b).toLocal addr / 4 % 2 = 1
  · obtain ⟨rfl, hodd⟩ := hodd
    have haligned := toLocal_hartConfig hb
    have hbounds : (range p .hartConfig).toLocal addr + data.length ≤ 8 * p.numberCores := hb.bounds
    rw [hcores] at hbounds
    change postWriteHartConfig p _ _ _ = _ at h
    by_cases hlen : data.length = 4
    · rw [hlen] at h hbounds
      exact (steady_completion hodd hbounds haligned h).line
    · exact absurd ((postWriteHartConfig_of_size hodd haligned hlen).symm.trans h) error_ne_ok
  · have haligned : b = .hartConfig → (range p b).toLocal addr % 4 = 0 := by
      rintro rfl
      exact toLocal_hartConfig hb
    have hs' := (postWrite_of_plain data hodd haligned).symm.trans h
    cases hs'
    obtain ⟨heip, hline, -⟩ := overwritten_frame p s b ((range p b).toLocal addr) data
    rw [heip, hline]
    exact hs.line

/-- An event that loses nothing keeps the invariant. -/
theorem steady_step (hs : s.Steady p) {e : PlicEvent} (he : Foreseen p s e)
    (h : step p s e = .ok s') : s'.Steady p := by
  refine ⟨((notLost_iff_foreseen hcores hs e).mpr he).2 s' h, ?_⟩
  cases e with
  | trigger irqId =>
    obtain ⟨-, heip, hline⟩ := gatewayTriggerInterrupt_of_ok h
    rw [heip, hline]
    exact hs.line
  | read addr len =>
    obtain ⟨⟨data, s₁⟩, hread, h⟩ := bind_eq_ok.mp h
    cases h
    obtain ⟨b, -, hpre, -⟩ := Peripheral.read_eq_ok_iff.mp hread
    exact (steady_preRead hcores hs hpre).line
  | write addr data => exact line_write hcores hs h
  | run =>
    rw [step] at h
    split at h
    · exact (steady_run hcores hs h).line
    · cases h
      exact hs.line

end OneHart

end Events

theorem not_eligible_of_zero {p : Fe310Params} {s : Fe310Plic}
    (h : s.regs .pendingInterrupts = fun _ ↦ 0#8) {considerThreshold : Bool} {hart i : Nat} :
    ¬ s.Eligible p hart considerThreshold i := by
  intro hi
  have hbit : s.pendingBit i = false := by
    rw [pendingBit, word, Registers.word,
      Bytes.getLsbD_word _ (by decide) _ (Nat.mod_lt i (by decide)), h]
    exact BitVec.getLsbD_zero
  exact absurd (hbit.symm.trans hi.pending) Bool.false_ne_true

theorem steady_initial (p : Fe310Params) : (initial p).Steady p := by
  refine ⟨fun _ heligible ↦ ?_, rfl⟩
  obtain ⟨i, hi⟩ := heligible
  exact absurd hi (not_eligible_of_zero rfl)

/-! ## Sequences -/

/-- With one hart, no event of a sequence loses an interrupt if and only if every event of it is
foreseen. -/
theorem delivered_iff_foreseen {p : Fe310Params} (hcores : p.numberCores = 1)
    (events : List PlicEvent) :
    Along (step p) (NotLost p) (initial p) events ↔
      Along (step p) (Foreseen p) (initial p) events :=
  along_iff_of_invariant (fun _ _ _ _ hs he h ↦ steady_step hcores hs he h)
    (fun e _ _ hs ↦ notLost_iff_foreseen hcores hs e) (steady_initial p)

theorem hifive_interrupts_le : 53 ≤ 4096 := by decide

theorem hifive_cores_le : 1 ≤ 15360 := by decide

theorem hifive_entries_pos : 0 < 64 := by decide

/-- The controller of the HiFive platform. -/
def hifive : Fe310Params where
  numberCores := 1
  numberInterrupts := 53
  numberInterruptEntries := 64
  maxPriority := 7#32
  interrupts_le := hifive_interrupts_le
  cores_le := hifive_cores_le
  cores_pos := Nat.zero_lt_one
  entries_pos := hifive_entries_pos

/-- The first interrupt is enabled before it is triggered. -/
theorem delivered_enabled :
    Along (step hifive) (NotLost hifive) (initial hifive)
      [.write 0x2000 [2#8, 0#8, 0#8, 0#8], .trigger 1, .run] := by
  rw [delivered_iff_foreseen rfl]
  refine ⟨fun b hb _ ↦ ?_, fun _ _ ↦ ⟨trivial, fun _ _ ↦ ⟨trivial, fun _ _ ↦ trivial⟩⟩⟩
  have hroute : (peripheral hifive).route 0x2000 = .ok .hartEnabledInterrupts := rfl
  cases hb.route.symm.trans hroute
  dsimp only
  rw [if_neg (by decide)]
  rintro - ⟨i, hi⟩
  exact absurd hi (not_eligible_of_zero rfl)

/-- An interrupt that is enabled after the run is lost, and a completion between the trigger and the
run fails the assertion. -/
theorem not_delivered :
    ¬ Along (step hifive) (NotLost hifive) (initial hifive)
        [.trigger 1, .run, .write 0x2000 [2#8, 0#8, 0#8, 0#8]] ∧
      ¬ Along (step hifive) (NotLost hifive) (initial hifive)
        [.write 0x2000 [2#8, 0#8, 0#8, 0#8], .trigger 1,
          .write 0x200004 [1#8, 0#8, 0#8, 0#8]] := by
  constructor
  · intro h
    have hrun := eq_ok_of_isOk (m := [PlicEvent.trigger 1, .run].foldlM (step hifive) (initial hifive))
      (by decide +kernel) (initial hifive)
    have hwrite := eq_ok_of_isOk (m := step hifive (outcome ([PlicEvent.trigger 1, .run].foldlM
      (step hifive) (initial hifive)) (initial hifive)) (.write 0x2000 [2#8, 0#8, 0#8, 0#8]))
      (by decide +kernel) (initial hifive)
    have hlast := (Along.last [PlicEvent.trigger 1, .run] h hrun).2 _ hwrite (by decide +kernel)
      ⟨1, by decide, by decide, by decide +kernel, by decide +kernel, by decide +kernel,
        fun _ ↦ by decide +kernel⟩
    exact absurd hlast.1 (by decide +kernel)
  · intro h
    have hrun := eq_ok_of_isOk (m := [PlicEvent.write 0x2000 [2#8, 0#8, 0#8, 0#8], .trigger 1].foldlM
      (step hifive) (initial hifive)) (by decide +kernel) (initial hifive)
    refine (Along.last [PlicEvent.write 0x2000 [2#8, 0#8, 0#8, 0#8], .trigger 1] h hrun).1 ?_
    exact eq_error_of_failure (by decide +kernel)

end Fe310Plic

end CoverageVP.Platform
