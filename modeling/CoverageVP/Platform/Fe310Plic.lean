import CoverageVP.Lib.Selection
import CoverageVP.Platform.MemoryMap

/-!
# The interrupt controller of the FE310

An interrupt becomes pending when its gateway is triggered. One clock cycle later the controller
raises the line of every hart for which some pending interrupt is enabled and above the threshold. A
hart claims an interrupt by reading a register and completes it by writing the same register.
-/

namespace CoverageVP.Platform

open Lib

/-- The parameters of the controller, with the static assertions on them. A bank of registers may not
be empty. -/
structure Fe310Params where
  numberCores : Nat
  numberInterrupts : Nat
  numberInterruptEntries : Nat
  maxPriority : BitVec 32
  interrupts_le : numberInterrupts ≤ 4096
  cores_le : numberCores ≤ 15360
  cores_pos : 0 < numberCores
  entries_pos : 0 < numberInterruptEntries

/-- The banks of registers. -/
inductive Fe310Bank
  | interruptPriorities | pendingInterrupts | hartEnabledInterrupts | hartConfig
  deriving DecidableEq, Repr

/-- The registers, the lines that the controller has raised, the external interrupts of the harts, and
whether the controller is going to run. -/
structure Fe310Plic where
  regs : Registers Fe310Bank
  hartEip : Nat → Bool
  targetHarts : Nat → Bool
  runNotified : Bool

namespace Fe310Plic

variable (p : Fe310Params)

def range : Fe310Bank → RegisterRange
  | .interruptPriorities => ⟨0x0, 4 * (p.numberInterrupts + 1), false, 1⟩
  | .pendingInterrupts => ⟨0x1000, 4 * p.numberInterruptEntries, true, 1⟩
  | .hartEnabledInterrupts => ⟨0x2000, 4 * p.numberInterruptEntries * p.numberCores, false, 1⟩
  | .hartConfig => ⟨0x200000, 8 * p.numberCores, false, 4⟩

/-! ## Registers -/

variable (s : Fe310Plic)

def setMem (bank : Fe310Bank) (mem : Bytes) : Fe310Plic :=
  { s with regs := s.regs.set bank mem }

/-- A word of a bank. -/
def word (bank : Fe310Bank) (idx : Nat) : BitVec 32 := s.regs.word bank idx

def setWord (bank : Fe310Bank) (idx : Nat) (value : BitVec 32) : Fe310Plic :=
  { s with regs := s.regs.setWord bank idx value }

/-- The threshold and the claim register of a hart are two words. -/
def priorityThreshold (hart : Nat) : BitVec 32 := s.word .hartConfig (2 * hart)

/-- The enabled interrupts are rows of one word, and their index is not checked. -/
def enabledIndex (hart idx : Nat) : Nat := hart * 1 + idx

def hartEnabledInterrupts (hart idx : Nat) : Except Fault (BitVec 32) := do
  check (enabledIndex hart idx < p.numberInterruptEntries * p.numberCores) .undefined
  return s.word .hartEnabledInterrupts (enabledIndex hart idx)

def pendingInterrupts (idx : Nat) : Except Fault (BitVec 32) := do
  checkIndex idx p.numberInterruptEntries
  return s.word .pendingInterrupts idx

def interruptPriorities (idx : Nat) : Except Fault (BitVec 32) := do
  checkIndex idx (p.numberInterrupts + 1)
  return s.word .interruptPriorities idx

def setPendingInterrupts (idx : Nat) (value : BitVec 32) : Except Fault Fe310Plic := do
  checkIndex idx p.numberInterruptEntries
  return s.setWord .pendingInterrupts idx value

/-! ## Operations -/

/-- The state after construction: every priority is one but that of the last register, nothing is
enabled. -/
def initial : Fe310Plic where
  regs
    | .interruptPriorities =>
      fun b ↦ if b % 4 = 0 ∧ b / 4 < p.numberInterrupts then 1#8 else 0#8
    | _ => fun _ ↦ 0#8
  hartEip := fun _ ↦ false
  targetHarts := fun _ ↦ false
  runNotified := false

/-- An edge is not queued. -/
def gatewayTriggerInterrupt (irqId : Nat) : Except Fault Fe310Plic := do
  check (0 < irqId ∧ irqId < p.numberInterrupts) (.assertion .irqId)
  let pending ← s.pendingInterrupts p (irqId / 32)
  let s ← s.setPendingInterrupts p (irqId / 32) (pending ||| 1#32 <<< (irqId % 32))
  return { s with runNotified := true }

def clearPendingInterrupt (irqId : Nat) : Except Fault Fe310Plic := do
  check (irqId < p.numberInterrupts) (.assertion .irqId)
  let pending ← s.pendingInterrupts p (irqId / 32)
  s.setPendingInterrupts p (irqId / 32) (pending &&& ~~~(1#32 <<< (irqId % 32)))

/-- The priority of an interrupt, if it is enabled and pending and can be taken. -/
def candidate (hart : Nat) (considerThreshold : Bool) (i : Nat) :
    Except Fault (Option Nat) := do
  let enabled ← s.hartEnabledInterrupts p hart (i / 32)
  if enabled.getLsbD (i % 32) then
    let pending ← s.pendingInterrupts p (i / 32)
    if pending.getLsbD (i % 32) then
      let prio ← s.interruptPriorities p i
      if 0#32 < prio then
        if considerThreshold then
          checkIndex hart p.numberCores
          return if s.priorityThreshold hart < prio then some prio.toNat else none
        else return some prio.toNat
      else return none
    else return none
  else return none

def hartGetNextPendingInterrupt (hart : Nat) (considerThreshold : Bool) : Except Fault Nat := do
  let best ← Selection.chooseM (s.candidate p hart considerThreshold) (0, 0)
    (List.range' 1 (p.numberInterrupts - 1))
  return best.1

def hartHasPendingEnabledInterrupts (hart : Nat) : Except Fault Bool := do
  let next ← s.hartGetNextPendingInterrupt p hart true
  return 0 < next

/-- The loop stops before the last register. -/
def postWriteInterruptPriorities : Fe310Plic :=
  (List.range p.numberInterrupts).foldl (fun s i ↦ s.setWord .interruptPriorities i
    (minWord (s.word .interruptPriorities i) p.maxPriority)) s

/-- A read of a claim register claims an interrupt of the first hart. -/
def preReadHartConfig (addr size : Nat) : Except Fault Fe310Plic := do
  check (addr % 4 = 0) (.assertion .registerAddress)
  let idx := addr / 4
  if idx % 2 = 1 then
    check (size = 4) (.assertion .registerSize)
    let minId ← s.hartGetNextPendingInterrupt p 0 false
    checkIndex (idx - 1) p.numberCores
    let s := s.setWord .hartConfig (2 * (idx - 1) + 1) (BitVec.ofNat 32 minId)
    s.clearPendingInterrupt p minId
  else return s

def setHartEip (hart : Nat) (value : Bool) : Fe310Plic :=
  { s with hartEip := fun h ↦ if h = hart then value else s.hartEip h }

def setTargetHart (hart : Nat) (value : Bool) : Fe310Plic :=
  { s with targetHarts := fun h ↦ if h = hart then value else s.targetHarts h }

/-- A write of a claim register completes an interrupt. -/
def postWriteHartConfig (addr size : Nat) : Except Fault Fe310Plic := do
  check (addr % 4 = 0) (.assertion .registerAddress)
  let idx := addr / 4
  if idx % 2 = 1 then
    check (size = 4) (.assertion .registerSize)
    let hart := idx - 1
    if ← s.hartHasPendingEnabledInterrupts p hart then
      check (hart < p.numberCores) .undefined
      check (s.hartEip hart = true) (.assertion .hartEip)
      return s.setTargetHart hart true
    else
      check (hart < p.numberCores) .undefined
      return (s.setHartEip hart false).setTargetHart hart false
  else return s

/-- The controller runs for one hart. -/
def runHart (hart : Nat) : Except Fault Fe310Plic :=
  if s.hartEip hart then return s
  else do
    if ← s.hartHasPendingEnabledInterrupts p hart then
      return (s.setHartEip hart true).setTargetHart hart true
    else return s

/-- The controller runs when it has been notified. -/
def run : Except Fault Fe310Plic :=
  (List.range p.numberCores).foldlM (fun s hart ↦ s.runHart p hart) { s with runNotified := false }

def peripheral : Peripheral Fe310Bank Fe310Plic where
  name := "FE310_PLIC"
  banks := [.interruptPriorities, .pendingInterrupts, .hartEnabledInterrupts, .hartConfig]
  range := range p
  mem := regs
  setMem := setMem
  preRead
    | .hartConfig, addr, size, s => s.preReadHartConfig p addr size
    | _, _, _, s => .ok s
  preWrite := fun _ ↦ true
  postWrite
    | .interruptPriorities, _, _, s => .ok (s.postWriteInterruptPriorities p)
    | .hartConfig, addr, size, s => s.postWriteHartConfig p addr size
    | _, _, _, s => .ok s

/-! ## Eligible interrupts -/

def priority (i : Nat) : BitVec 32 := s.word .interruptPriorities i

def pendingBit (i : Nat) : Bool := (s.word .pendingInterrupts (i / 32)).getLsbD (i % 32)

def enabledBit (hart i : Nat) : Bool :=
  (s.word .hartEnabledInterrupts (enabledIndex hart (i / 32))).getLsbD (i % 32)

/-- An enabled pending interrupt whose priority is not zero and, unless thresholds are ignored, above
the threshold. -/
structure Eligible (hart : Nat) (considerThreshold : Bool) (i : Nat) : Prop where
  pos : 0 < i
  lt : i < p.numberInterrupts
  enabled : s.enabledBit hart i = true
  pending : s.pendingBit i = true
  priority : 0#32 < s.priority i
  threshold : considerThreshold = true → s.priorityThreshold hart < s.priority i

/-- The priority that the loop compares. -/
def candidatePriority (hart : Nat) (considerThreshold : Bool) (i : Nat) : Option Nat :=
  if s.enabledBit hart i = true ∧ s.pendingBit i = true ∧ 0#32 < s.priority i ∧
      (considerThreshold = true → s.priorityThreshold hart < s.priority i) then
    some (s.priority i).toNat
  else none

def nextPending (hart : Nat) (considerThreshold : Bool) : Nat :=
  (Selection.choose (s.candidatePriority hart considerThreshold) (0, 0)
    (List.range' 1 (p.numberInterrupts - 1))).1

variable {p s} {hart : Nat} {considerThreshold : Bool}

theorem mem_interrupts {i : Nat} :
    i ∈ List.range' 1 (p.numberInterrupts - 1) ↔ 0 < i ∧ i < p.numberInterrupts := by
  rw [List.mem_range'_1]
  omega

theorem candidatePriority_eq_some_iff {i q : Nat} (hi : 0 < i ∧ i < p.numberInterrupts) :
    s.candidatePriority hart considerThreshold i = some q ↔
      s.Eligible p hart considerThreshold i ∧ (s.priority i).toNat = q := by
  unfold candidatePriority
  constructor
  · intro h
    split at h
    case isTrue hc =>
      exact ⟨⟨hi.1, hi.2, hc.1, hc.2.1, hc.2.2.1, hc.2.2.2⟩, Option.some.inj h⟩
    case isFalse => cases h
  · rintro ⟨h, rfl⟩
    exact if_pos ⟨h.enabled, h.pending, h.priority, h.threshold⟩

/-- A priority that is found is that of the registers. -/
theorem candidate_of_ok {i : Nat} {c : Option Nat}
    (h : s.candidate p hart considerThreshold i = .ok c) :
    c = s.candidatePriority hart considerThreshold i := by
  unfold candidate at h
  obtain ⟨enabled, henabled, h⟩ := bind_eq_ok.mp h
  obtain ⟨-, henabled⟩ := check_bind_eq_ok_iff.mp henabled
  cases henabled
  unfold candidatePriority
  split at h
  case isFalse hbit =>
    cases h
    exact (if_neg fun hc ↦ hbit hc.1).symm
  case isTrue hbit =>
  obtain ⟨pending, hpending, h⟩ := bind_eq_ok.mp h
  obtain ⟨-, hpending⟩ := check_bind_eq_ok_iff.mp hpending
  cases hpending
  split at h
  case isFalse hpbit =>
    cases h
    exact (if_neg fun hc ↦ hpbit hc.2.1).symm
  case isTrue hpbit =>
  obtain ⟨prio, hprio, h⟩ := bind_eq_ok.mp h
  obtain ⟨-, hprio⟩ := check_bind_eq_ok_iff.mp hprio
  cases hprio
  split at h
  case isFalse hzero =>
    cases h
    exact (if_neg fun hc ↦ hzero hc.2.2.1).symm
  case isTrue hzero =>
  split at h
  case isFalse hignore =>
    cases h
    exact (if_pos ⟨hbit, hpbit, hzero, fun hc ↦ absurd hc hignore⟩).symm
  case isTrue hconsider =>
  obtain ⟨-, h⟩ := check_bind_eq_ok_iff.mp h
  cases h
  split
  case isTrue hthreshold => exact (if_pos ⟨hbit, hpbit, hzero, fun _ ↦ hthreshold⟩).symm
  case isFalse hthreshold => exact (if_neg fun hc ↦ hthreshold (hc.2.2.2 hconsider)).symm

theorem hartGetNextPendingInterrupt_of_ok {n : Nat}
    (h : s.hartGetNextPendingInterrupt p hart considerThreshold = .ok n) :
    n = s.nextPending p hart considerThreshold := by
  obtain ⟨best, hbest, h⟩ := bind_eq_ok.mp h
  have hall : ∀ i ∈ List.range' 1 (p.numberInterrupts - 1),
      s.candidate p hart considerThreshold i =
        .ok (s.candidatePriority hart considerThreshold i) := by
    intro i hi
    obtain ⟨c, hc⟩ := Selection.exists_of_chooseM_eq_ok hbest hi
    rw [hc, candidate_of_ok hc]
  rw [Selection.chooseM_eq_ok hall] at hbest
  cases hbest
  cases h
  rfl

/-- The loop fails only for an index that is out of range. -/
theorem candidate_eq_error {i : Nat} {e : Fault}
    (h : s.candidate p hart considerThreshold i = .error e) :
    (¬ enabledIndex hart (i / 32) < p.numberInterruptEntries * p.numberCores ∧ e = .undefined) ∨
      (¬ (i / 32 < p.numberInterruptEntries ∧ i < p.numberInterrupts + 1 ∧
        hart < p.numberCores) ∧ e = .assertion .index) := by
  have hchecked : ∀ {c : Prop} [Decidable c] {fault : Fault} {x : BitVec 32},
      (do check c fault; return x : Except Fault (BitVec 32)) = .error e → ¬ c ∧ e = fault := by
    intro c _ fault x h
    rcases check_bind_eq_error_iff.mp h with ⟨hc, he⟩ | ⟨-, he⟩
    · exact ⟨hc, he.symm⟩
    · cases he
  unfold candidate at h
  rcases bind_eq_error.mp h with h | ⟨enabled, -, h⟩
  · exact .inl (hchecked h)
  split at h
  case isFalse => cases h
  case isTrue =>
  rcases bind_eq_error.mp h with h | ⟨pending, -, h⟩
  · obtain ⟨hentry, he⟩ := hchecked h
    exact .inr ⟨fun hc ↦ hentry hc.1, he⟩
  split at h
  case isFalse => cases h
  case isTrue =>
  rcases bind_eq_error.mp h with h | ⟨prio, -, h⟩
  · obtain ⟨hi, he⟩ := hchecked h
    exact .inr ⟨fun hc ↦ hi hc.2.1, he⟩
  split at h
  case isFalse => cases h
  case isTrue =>
  split at h
  case isFalse => cases h
  case isTrue =>
  rcases check_bind_eq_error_iff.mp h with ⟨hcore, he⟩ | ⟨-, he⟩
  · exact .inr ⟨fun hc ↦ hcore hc.2.2, he.symm⟩
  · cases he

theorem hartGetNextPendingInterrupt_eq_error {e : Fault}
    (h : s.hartGetNextPendingInterrupt p hart considerThreshold = .error e) :
    e = .undefined ∨ e = .assertion .index := by
  rcases bind_eq_error.mp h with h | ⟨_, -, h⟩
  · obtain ⟨i, -, hi⟩ := Selection.exists_of_chooseM_eq_error h
    exact (candidate_eq_error hi).imp And.right And.right
  · cases h

/-- The loop ends if every index is in range. -/
theorem hartGetNextPendingInterrupt_eq_ok (hcore : hart < p.numberCores)
    (hindex : ∀ i < p.numberInterrupts, i / 32 < p.numberInterruptEntries ∧
      enabledIndex hart (i / 32) < p.numberInterruptEntries * p.numberCores) :
    s.hartGetNextPendingInterrupt p hart considerThreshold =
      .ok (s.nextPending p hart considerThreshold) := by
  cases h : s.hartGetNextPendingInterrupt p hart considerThreshold with
  | ok n => rw [hartGetNextPendingInterrupt_of_ok h]
  | error e =>
    rcases bind_eq_error.mp h with h | ⟨_, -, h⟩
    · obtain ⟨i, hi, hcandidate⟩ := Selection.exists_of_chooseM_eq_error h
      obtain ⟨-, hlt⟩ := mem_interrupts.mp hi
      obtain ⟨hentry, henabled⟩ := hindex i hlt
      rcases candidate_eq_error hcandidate with ⟨hn, -⟩ | ⟨hn, -⟩
      · exact absurd henabled hn
      · exact absurd ⟨hentry, Nat.lt_succ_of_lt hlt, hcore⟩ hn
    · cases h

/-- The loop ends with the eligible interrupt of the highest priority, the lowest one among those. -/
theorem chosen_nextPending (p : Fe310Params) (s : Fe310Plic) (hart : Nat)
    (considerThreshold : Bool) :
    Selection.Chosen 0 (s.Eligible p hart considerThreshold) (fun i ↦ (s.priority i).toNat)
      (s.nextPending p hart considerThreshold) := by
  refine Selection.chosen_choose (List.pairwise_lt_range' 1 (by decide))
    (fun i h ↦ mem_interrupts.mpr ⟨h.pos, h.lt⟩) (fun i hi q _ ↦ ?_) fun i h ↦ h.priority
  exact candidatePriority_eq_some_iff (mem_interrupts.mp hi)

/-- The code's test finds an eligible interrupt. -/
theorem hartHasPendingEnabledInterrupts_of_ok {b : Bool}
    (h : s.hartHasPendingEnabledInterrupts p hart = .ok b) :
    b = true ↔ ∃ i, s.Eligible p hart true i := by
  obtain ⟨n, hn, h⟩ := bind_eq_ok.mp h
  cases h
  rw [hartGetNextPendingInterrupt_of_ok hn, decide_eq_true_iff]
  rcases chosen_nextPending p s hart true with ⟨hzero, hnone⟩ | hbest
  · rw [hzero]
    refine iff_of_false (Nat.lt_irrefl 0) ?_
    rintro ⟨i, hi⟩
    exact hnone i hi
  · exact iff_of_true hbest.eligible.pos ⟨_, hbest.eligible⟩

variable {bank bank' : Fe310Bank} {idx i : Nat}

theorem setWord_regs_self (s : Fe310Plic) (bank : Fe310Bank) (idx : Nat) (value : BitVec 32) :
    (s.setWord bank idx value).regs bank = (s.regs bank).setWord (4 * idx) value :=
  Registers.set_self _

theorem setWord_regs_of_ne (value : BitVec 32) (h : bank' ≠ bank) :
    (s.setWord bank idx value).regs bank' = s.regs bank' :=
  Registers.set_of_ne _ h

theorem word_setWord_self (s : Fe310Plic) (bank : Fe310Bank) (idx : Nat) (value : BitVec 32) :
    (s.setWord bank idx value).word bank idx = value :=
  Registers.word_setWord_self value

theorem word_setWord_of_idx_ne (bank : Fe310Bank) (value : BitVec 32) (h : i ≠ idx) :
    (s.setWord bank idx value).word bank i = s.word bank i :=
  Registers.word_setWord_of_idx_ne value h

theorem word_setWord_of_bank_ne (value : BitVec 32) (h : bank' ≠ bank) :
    (s.setWord bank idx value).word bank' i = s.word bank' i :=
  Registers.word_setWord_of_bank_ne value h

/-- The interrupt is not pending any more. -/
def cleared (s : Fe310Plic) (irqId : Nat) : Fe310Plic :=
  s.setWord .pendingInterrupts (irqId / 32)
    (s.word .pendingInterrupts (irqId / 32) &&& ~~~(1#32 <<< (irqId % 32)))

theorem pendingBit_cleared (s : Fe310Plic) (irqId i : Nat) :
    (s.cleared irqId).pendingBit i = (s.pendingBit i && i != irqId) :=
  Registers.bit_clearBit

theorem clearPendingInterrupt_eq_ok_iff {irqId : Nat} {s' : Fe310Plic} :
    s.clearPendingInterrupt p irqId = .ok s' ↔
      irqId < p.numberInterrupts ∧ irqId / 32 < p.numberInterruptEntries ∧
        s.cleared irqId = s' := by
  rw [clearPendingInterrupt, check_bind_eq_ok_iff]
  refine and_congr_right fun _ ↦ ?_
  simp only [bind_eq_ok, pendingInterrupts, setPendingInterrupts, checkIndex, check_eq_ok_iff,
    pure_eq_ok_iff]
  constructor
  · rintro ⟨_, ⟨-, hidx, rfl⟩, -, -, rfl⟩
    exact ⟨hidx, rfl⟩
  · rintro ⟨hidx, rfl⟩
    exact ⟨_, ⟨(), hidx, rfl⟩, (), hidx, rfl⟩

/-- The state after the claim of an interrupt through the claim register at word `idx`. -/
def claimed (s : Fe310Plic) (idx minId : Nat) : Fe310Plic :=
  (s.setWord .hartConfig (2 * (idx - 1) + 1) (BitVec.ofNat 32 minId)).cleared minId

theorem preReadHartConfig_eq_ok_iff {addr size : Nat} {s' : Fe310Plic} :
    s.preReadHartConfig p addr size = .ok s' ↔ addr % 4 = 0 ∧
      (if addr / 4 % 2 = 1 then size = 4 ∧ ∃ minId, s.hartGetNextPendingInterrupt p 0 false = .ok minId ∧
        addr / 4 - 1 < p.numberCores ∧ minId < p.numberInterrupts ∧
        minId / 32 < p.numberInterruptEntries ∧ s.claimed (addr / 4) minId = s'
      else s = s') := by
  rw [preReadHartConfig, check_bind_eq_ok_iff]
  refine and_congr_right fun _ ↦ ?_
  dsimp only
  split
  · rw [check_bind_eq_ok_iff]
    refine and_congr_right fun _ ↦ ?_
    simp only [bind_eq_ok, checkIndex, check_eq_ok_iff, clearPendingInterrupt_eq_ok_iff]
    constructor
    · rintro ⟨minId, hmin, -, hidx, hlt, hentry, rfl⟩
      exact ⟨minId, hmin, hidx, hlt, hentry, rfl⟩
    · rintro ⟨minId, hmin, hidx, hlt, hentry, rfl⟩
      exact ⟨minId, hmin, (), hidx, hlt, hentry, rfl⟩
  · exact pure_eq_ok_iff

end Fe310Plic

end CoverageVP.Platform
