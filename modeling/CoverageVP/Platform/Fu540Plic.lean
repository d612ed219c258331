import CoverageVP.Lib.Selection
import CoverageVP.Platform.MemoryMap

/-!
# The interrupt controller of the FU540

Every hart has a context for machine mode and, but for the first hart, one for supervisor mode. The
contexts share the pending interrupts and the priorities. The registers of the priorities start with
that of the first interrupt.
-/

namespace CoverageVP.Platform

open Lib

/-- The modes that take external interrupts. -/
inductive Level
  | machine | supervisor
  deriving DecidableEq, Repr

/-- The banks of registers. -/
inductive Fu540Bank
  | interruptPriorities | pendingInterrupts
  | enabledIrqs (hart : Nat) (level : Level)
  | hartContext (hart : Nat) (level : Level)
  deriving DecidableEq, Repr

/-- The registers, the external interrupts of the harts, and whether the controller is going to
run. -/
structure Fu540Plic where
  regs : Registers Fu540Bank
  targetHarts : Nat → Level → Bool
  runNotified : Bool

namespace Fu540Plic

def numIrq : Nat := 53

def maxThr : BitVec 32 := 7#32

def maxPrio : BitVec 32 := 7#32

/-! ## Registers -/

/-- The number of a context. The first hart has one context, every other hart has two. -/
def contextIndex (hart : Nat) (level : Level) : Nat :=
  match hart, level with
  | 0, _ => 0
  | hart + 1, .machine => 2 * hart + 1
  | hart + 1, .supervisor => 2 * hart + 2

def range : Fu540Bank → RegisterRange
  | .interruptPriorities => ⟨0x4, 4 * numIrq, false, 4⟩
  | .pendingInterrupts => ⟨0x1000, 4 * 2, false, 4⟩
  | .enabledIrqs hart level => ⟨0x2000 + 0x80 * contextIndex hart level, 8, false, 4⟩
  | .hartContext hart level => ⟨0x200000 + 0x1000 * contextIndex hart level, 8, false, 4⟩

/-- The levels of a hart. -/
def levels (hart : Nat) : List Level :=
  if hart = 0 then [.machine] else [.machine, .supervisor]

def hartRegs (harts : Nat) (bank : Nat → Level → Fu540Bank) : List Fu540Bank :=
  (List.range harts).flatMap fun hart ↦ (levels hart).map (bank hart)

/-- A context of the controller. -/
structure IsContext (harts hart : Nat) (level : Level) : Prop where
  lt : hart < harts
  mem : level ∈ levels hart

/-- The state after construction. -/
def initial : Fu540Plic where
  regs := fun _ _ ↦ 0#8
  targetHarts := fun _ _ ↦ false
  runNotified := false

variable (s : Fu540Plic)

def setMem (bank : Fu540Bank) (mem : Bytes) : Fu540Plic :=
  { s with regs := s.regs.set bank mem }

def setWord (bank : Fu540Bank) (idx : Nat) (value : BitVec 32) : Fu540Plic :=
  { s with regs := s.regs.setWord bank idx value }

def setTarget (hart : Nat) (level : Level) (value : Bool) : Fu540Plic :=
  { s with targetHarts := fun h l ↦ if h = hart ∧ l = level then value else s.targetHarts h l }

/-! ## Operations -/

/-- The number of an interrupt is asserted. -/
def checkIrq (irq : Nat) : Except Fault Unit :=
  check (0 < irq ∧ irq ≤ numIrq) (.assertion .irqId)

def gatewayTriggerInterrupt (irq : Nat) : Except Fault Fu540Plic := do
  check (¬ (irq = 0 ∨ numIrq < irq)) (.invalidArgument "IRQ value is invalid")
  checkIndex (irq / 32) 2
  return { s with regs := s.regs.setBit .pendingInterrupts irq, runNotified := true }

def clearPending (irq : Nat) : Except Fault Fu540Plic := do
  checkIrq irq
  checkIndex (irq / 32) 2
  return { s with regs := s.regs.clearBit .pendingInterrupts irq }

def isPending (irq : Nat) : Except Fault Bool := do
  checkIrq irq
  checkIndex (irq / 32) 2
  return s.regs.bit .pendingInterrupts irq

def isEnabled (hart : Nat) (level : Level) (irq : Nat) : Except Fault Bool := do
  checkIrq irq
  checkIndex (irq / 32) 2
  return s.regs.bit (.enabledIrqs hart level) irq

/-- The register of the interrupt after `irq` is read, and there is none after the last one. -/
def interruptPriorities (irq : Nat) : Except Fault (BitVec 32) := do
  checkIndex irq numIrq
  return s.regs.word .interruptPriorities irq

def getThreshold (hart : Nat) (level : Level) : Except Fault (BitVec 32) := do
  check (¬ (hart = 0 ∧ level = .supervisor))
    (.invalidArgument "hart0 doesn't support SupervisorMode")
  return s.regs.word (.hartContext hart level) 0

/-- The priority of an interrupt, if it is enabled and pending and can be taken. -/
def candidate (hart : Nat) (level : Level) (ignth : Bool) (irq : Nat) :
    Except Fault (Option Nat) := do
  if ← s.isEnabled hart level irq then
    if ← s.isPending irq then
      let prio ← s.interruptPriorities irq
      if ignth then return some prio.toNat
      else
        let threshold ← s.getThreshold hart level
        return if prio < threshold then none else some prio.toNat
    else return none
  else return none

def nextPendingIrq (hart : Nat) (level : Level) (ignth : Bool) : Except Fault Nat := do
  check (¬ (hart = 0 ∧ level = .supervisor)) (.assertion .level)
  let best ← Selection.chooseM (s.candidate hart level ignth) (0, 0) (List.range' 1 numIrq)
  return best.1

/-- The level of a hart that is reported. Supervisor mode comes first. -/
def hasPendingIrq (hart : Nat) : Except Fault (Option Level) := do
  let selirq ← (if hart ≠ 0 then s.nextPendingIrq hart .supervisor false else .ok 0)
  if 0 < selirq then return some .supervisor
  else
    let selirq ← s.nextPendingIrq hart .machine false
    return if 0 < selirq then some .machine else none

def isClaimAccess (addr : Nat) : Bool := addr / 4 % 2 = 1

def readHartctx (hart : Nat) (level : Level) (addr size : Nat) : Except Fault Fu540Plic := do
  check (addr % 4 = 0) (.assertion .registerAddress)
  check (size = 4) (.assertion .registerSize)
  if isClaimAccess addr then
    let irq ← s.nextPendingIrq hart level true
    let s := s.setWord (.hartContext hart level) 1 (BitVec.ofNat 32 irq)
    if irq ≠ 0 then s.clearPending irq else return s
  else return s

def writeHartctx (hart : Nat) (level : Level) (addr size : Nat) : Except Fault Fu540Plic := do
  check (addr % 4 = 0) (.assertion .registerAddress)
  check (size = 4) (.assertion .registerSize)
  if isClaimAccess addr then return s.setTarget hart level false
  else
    let thr := s.regs.word (.hartContext hart level) 0
    return s.setWord (.hartContext hart level) 0 (minWord thr maxThr)

/-- Only the first register that is written is bounded. -/
def writeIrqPrios (addr : Nat) : Except Fault Fu540Plic := do
  check (addr / 4 ≤ numIrq) (.assertion .irqId)
  checkIndex (addr / 4) numIrq
  let elem := s.regs.word .interruptPriorities (addr / 4)
  return s.setWord .interruptPriorities (addr / 4) (minWord elem maxPrio)

/-- The controller runs for one hart. -/
def runHart (hart : Nat) : Except Fault Fu540Plic := do
  match ← s.hasPendingIrq hart with
  | some level => return s.setTarget hart level true
  | none => return s

/-- The controller runs when it has been notified. -/
def run (harts : Nat) : Except Fault Fu540Plic :=
  (List.range harts).foldlM runHart { s with runNotified := false }

/-- A write of a pending interrupt is ignored. -/
def peripheral (harts : Nat) : Peripheral Fu540Bank Fu540Plic where
  name := "FU540_PLIC"
  banks := .interruptPriorities :: .pendingInterrupts ::
    (hartRegs harts .enabledIrqs ++ hartRegs harts .hartContext)
  range := range
  mem := regs
  setMem := setMem
  preRead
    | .hartContext hart level, addr, size, s => s.readHartctx hart level addr size
    | _, _, _, s => .ok s
  preWrite
    | .pendingInterrupts => false
    | _ => true
  postWrite
    | .interruptPriorities, addr, _, s => s.writeIrqPrios addr
    | .hartContext hart level, addr, size, s => s.writeHartctx hart level addr size
    | _, _, _, s => .ok s

/-! ## The loop -/

/-- The priority of an interrupt as the loop reads it. -/
def priority (irq : Nat) : Nat := (s.regs.word .interruptPriorities irq).toNat

def threshold (hart : Nat) (level : Level) : Nat :=
  (s.regs.word (.hartContext hart level) 0).toNat

def pendingBit (irq : Nat) : Bool := s.regs.bit .pendingInterrupts irq

def enabledBit (hart : Nat) (level : Level) (irq : Nat) : Bool :=
  s.regs.bit (.enabledIrqs hart level) irq

/-- An enabled pending interrupt that the loop takes if it finds nothing better. -/
structure Eligible (hart : Nat) (level : Level) (ignth : Bool) (irq : Nat) : Prop where
  pos : 0 < irq
  lt : irq < numIrq
  enabled : s.enabledBit hart level irq = true
  pending : s.pendingBit irq = true
  priority : 0 < s.priority irq
  threshold : ignth = false → s.threshold hart level ≤ s.priority irq

/-- The loop reads the priority of every enabled pending interrupt, also of the last one. -/
def Scans (hart : Nat) (level : Level) : Prop :=
  ¬ (s.enabledBit hart level numIrq = true ∧ s.pendingBit numIrq = true)

/-- The priority that the loop compares. -/
def candidatePriority (hart : Nat) (level : Level) (ignth : Bool) (irq : Nat) : Option Nat :=
  if s.enabledBit hart level irq = true ∧ s.pendingBit irq = true ∧
      (ignth = false → s.threshold hart level ≤ s.priority irq) then
    some (s.priority irq)
  else none

def nextPending (hart : Nat) (level : Level) (ignth : Bool) : Nat :=
  (Selection.choose (s.candidatePriority hart level ignth) (0, 0) (List.range' 1 numIrq)).1

variable {s} {hart irq : Nat} {level : Level} {ignth : Bool}

theorem mem_irqs : irq ∈ List.range' 1 numIrq ↔ 0 < irq ∧ irq ≤ numIrq := by
  rw [List.mem_range'_1, numIrq]
  omega

theorem IsContext.hasLevel {harts : Nat} (h : IsContext harts hart level) :
    ¬ (hart = 0 ∧ level = .supervisor) := by
  rintro ⟨rfl, rfl⟩
  exact absurd h.mem (by decide)

theorem checkIrq_bind {α : Type} (m : Except Fault α) (hirq : 0 < irq ∧ irq ≤ numIrq) :
    (do checkIrq irq; checkIndex (irq / 32) 2; m) = m := by
  have hindex : irq / 32 < 2 := by
    have hle := hirq.2
    rw [numIrq] at hle
    omega
  rw [checkIrq, check_of hirq, checkIndex, check_of hindex]
  rfl

/-- What the loop finds for an interrupt. There is no priority for the last one. -/
theorem candidate_eq (hlevel : ¬ (hart = 0 ∧ level = .supervisor)) (ignth : Bool)
    (hirq : 0 < irq ∧ irq ≤ numIrq) :
    s.candidate hart level ignth irq =
      if s.enabledBit hart level irq = true ∧ s.pendingBit irq = true ∧ irq = numIrq then
        .error (.assertion .index)
      else .ok (s.candidatePriority hart level ignth irq) := by
  rw [candidate, isEnabled, checkIrq_bind _ hirq, isPending, checkIrq_bind _ hirq]
  change (if s.enabledBit hart level irq = true then
    if s.pendingBit irq = true then _ else _ else _) = _
  cases henabled : s.enabledBit hart level irq with
  | false =>
    have hnone : s.candidatePriority hart level ignth irq = none := by
      simp [candidatePriority, henabled]
    rw [if_neg Bool.false_ne_true, if_neg fun h ↦ Bool.false_ne_true h.1, hnone]
    rfl
  | true =>
  cases hpending : s.pendingBit irq with
  | false =>
    have hnone : s.candidatePriority hart level ignth irq = none := by
      simp [candidatePriority, hpending]
    rw [if_pos rfl, if_neg Bool.false_ne_true, if_neg fun h ↦ Bool.false_ne_true h.2.1, hnone]
    rfl
  | true =>
  by_cases hlast : irq = numIrq
  · have hindex : check (irq < numIrq) (.assertion .index) = .error (.assertion .index) :=
      if_neg (by omega)
    rw [if_pos rfl, if_pos rfl, if_pos ⟨rfl, rfl, hlast⟩, interruptPriorities, checkIndex, hindex]
    rfl
  · have hlt : irq < numIrq := by omega
    rw [if_pos rfl, if_pos rfl, if_neg fun h ↦ hlast h.2.2, interruptPriorities, checkIndex,
      check_of hlt, getThreshold, check_of hlevel, candidatePriority, henabled, hpending]
    cases ignth with
    | true =>
      rw [if_pos ⟨rfl, rfl, fun h ↦ absurd h.symm Bool.false_ne_true⟩]
      rfl
    | false =>
      by_cases hprio : s.threshold hart level ≤ s.priority irq
      · rw [if_pos ⟨rfl, rfl, fun _ ↦ hprio⟩]
        exact congrArg Except.ok (if_neg (Nat.not_lt.mpr hprio))
      · rw [if_neg fun h ↦ hprio (h.2.2 rfl)]
        exact congrArg Except.ok (if_pos (Nat.not_le.mp hprio))

theorem candidatePriority_eq_some_iff {q : Nat} (hscans : s.Scans hart level)
    (hirq : 0 < irq ∧ irq ≤ numIrq) (hq : 0 < q) :
    s.candidatePriority hart level ignth irq = some q ↔
      s.Eligible hart level ignth irq ∧ s.priority irq = q := by
  unfold candidatePriority
  constructor
  · intro h
    split at h
    case isTrue hc =>
      obtain ⟨henabled, hpending, hthreshold⟩ := hc
      obtain rfl : s.priority irq = q := Option.some.inj h
      have hne : irq ≠ numIrq := fun heq ↦ hscans ⟨heq ▸ henabled, heq ▸ hpending⟩
      exact ⟨⟨hirq.1, by omega, henabled, hpending, hq, hthreshold⟩, rfl⟩
    case isFalse => cases h
  · rintro ⟨h, rfl⟩
    exact if_pos ⟨h.enabled, h.pending, h.threshold⟩

/-- The loop ends with the eligible interrupt of the highest priority that it reads. -/
theorem chosen_nextPending (hscans : s.Scans hart level) (ignth : Bool) :
    Selection.Chosen 0 (s.Eligible hart level ignth) s.priority
      (s.nextPending hart level ignth) := by
  refine Selection.chosen_choose (List.pairwise_lt_range' 1 (by decide))
    (fun irq h ↦ mem_irqs.mpr ⟨h.pos, h.lt.le⟩) (fun irq hirq q hq ↦ ?_) fun irq h ↦ h.priority
  exact candidatePriority_eq_some_iff hscans (mem_irqs.mp hirq) hq

theorem nextPendingIrq_of_scans (hlevel : ¬ (hart = 0 ∧ level = .supervisor))
    (hscans : s.Scans hart level) (ignth : Bool) :
    s.nextPendingIrq hart level ignth = .ok (s.nextPending hart level ignth) := by
  have hcandidates : ∀ irq ∈ List.range' 1 numIrq,
      s.candidate hart level ignth irq = .ok (s.candidatePriority hart level ignth irq) := by
    intro irq hirq
    rw [candidate_eq hlevel ignth (mem_irqs.mp hirq), if_neg]
    rintro ⟨henabled, hpending, rfl⟩
    exact hscans ⟨henabled, hpending⟩
  rw [nextPendingIrq, check_of hlevel, Selection.chooseM_eq_ok hcandidates]
  rfl

/-- The loop ends unless the last interrupt is enabled and pending. -/
theorem nextPendingIrq_eq_ok_iff (hlevel : ¬ (hart = 0 ∧ level = .supervisor)) {n : Nat} :
    s.nextPendingIrq hart level ignth = .ok n ↔
      s.Scans hart level ∧ s.nextPending hart level ignth = n := by
  constructor
  · intro h
    obtain ⟨-, hloop⟩ := check_bind_eq_ok_iff.mp h
    obtain ⟨best, hbest, -⟩ := bind_eq_ok.mp hloop
    have hscans : s.Scans hart level := by
      rintro ⟨henabled, hpending⟩
      obtain ⟨c, hc⟩ := Selection.exists_of_chooseM_eq_ok hbest
        (mem_irqs.mpr ⟨by decide, le_refl numIrq⟩)
      rw [candidate_eq hlevel ignth ⟨by decide, le_refl numIrq⟩,
        if_pos ⟨henabled, hpending, rfl⟩] at hc
      cases hc
    rw [nextPendingIrq_of_scans hlevel hscans] at h
    cases h
    exact ⟨hscans, rfl⟩
  · rintro ⟨hscans, rfl⟩
    exact nextPendingIrq_of_scans hlevel hscans ignth

/-- The loop finds an eligible interrupt. -/
theorem nextPending_pos_iff (hscans : s.Scans hart level) :
    0 < s.nextPending hart level ignth ↔ ∃ irq, s.Eligible hart level ignth irq := by
  rcases chosen_nextPending hscans ignth with ⟨hzero, hnone⟩ | hbest
  · rw [hzero]
    refine iff_of_false (Nat.lt_irrefl 0) ?_
    rintro ⟨irq, hirq⟩
    exact hnone irq hirq
  · exact iff_of_true hbest.eligible.pos ⟨_, hbest.eligible⟩

end Fu540Plic

end CoverageVP.Platform
