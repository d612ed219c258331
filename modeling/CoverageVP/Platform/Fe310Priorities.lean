import CoverageVP.Platform.Fe310Delivery

/-!
# The priorities of the FE310

A write of a priority is followed by a loop that limits the priorities. The loop ends before the last
register, so that register keeps what is written to it.
-/

namespace CoverageVP.Platform

open Lib

namespace Fe310Plic

variable {p : Fe310Params} {s : Fe310Plic}

/-! ## The loop -/

/-- The loop over the first `n` registers limits these. -/
theorem priority_limit (p : Fe310Params) (s : Fe310Plic) (n i : Nat) :
    ((List.range n).foldl (fun s i ↦ s.setWord .interruptPriorities i
      (minWord (s.word .interruptPriorities i) p.maxPriority)) s).priority i =
      if i < n then minWord (s.priority i) p.maxPriority else s.priority i := by
  induction n with
  | zero => rfl
  | succ n ih =>
    rw [List.range_succ, List.foldl_append]
    simp only [List.foldl_cons, List.foldl_nil]
    rcases Nat.lt_trichotomy i n with hlt | rfl | hgt
    · rw [priority, word_setWord_of_idx_ne _ _ (Nat.ne_of_lt hlt), ← priority, ih, if_pos hlt,
        if_pos (Nat.lt_succ_of_lt hlt)]
    · rw [priority, word_setWord_self, ← priority, ih, if_neg (Nat.lt_irrefl i),
        if_pos (Nat.lt_succ_self i)]
    · rw [priority, word_setWord_of_idx_ne _ _ (Nat.ne_of_gt hgt), ← priority, ih,
        if_neg (Nat.not_lt_of_gt hgt), if_neg (by omega)]

theorem priority_postWrite (p : Fe310Params) (s : Fe310Plic) (i : Nat) :
    (s.postWriteInterruptPriorities p).priority i =
      if i < p.numberInterrupts then minWord (s.priority i) p.maxPriority else s.priority i :=
  priority_limit p s p.numberInterrupts i

/-! ## Writes -/

/-- A write of one, two or four bytes within the bank. -/
structure PriorityWrite (p : Fe310Params) where
  addr : Nat
  data : List (BitVec 8)
  size : data.length = 1 ∨ data.length = 2 ∨ data.length = 4
  bounds : addr + data.length ≤ 4 * (p.numberInterrupts + 1)

namespace PriorityWrite

variable (w : PriorityWrite p)

/-- The write is to some byte of a register. -/
def Touches (i : Nat) : Prop := w.addr < 4 * i + 4 ∧ 4 * i < w.addr + w.data.length

instance (i : Nat) : Decidable (w.Touches i) := inferInstanceAs (Decidable (_ ∧ _))

/-- The value of a register with the bytes of the write in it. -/
def given (s : Fe310Plic) (i : Nat) : BitVec 32 :=
  ((s.regs .interruptPriorities).write w.addr w.data).word 32 (4 * i)

theorem given_of_not_touches {i : Nat} (h : ¬ w.Touches i) : w.given s i = s.priority i := by
  apply Bytes.word_write_of_disjoint _ (by decide)
  unfold Touches at h
  omega

theorem reaches :
    (peripheral p).Reaches w.addr w.data.length .interruptPriorities where
  route := by
    have hsize := w.size
    have hbounds := w.bounds
    have hlast : w.addr ≤ 0x0 + 4 * (p.numberInterrupts + 1) - 1 := by omega
    have hcontains : (range p .interruptPriorities).contains w.addr = true :=
      (Bool.and_eq_true _ _).mpr ⟨decide_eq_true (Nat.zero_le _), decide_eq_true hlast⟩
    simp only [Peripheral.route, peripheral, List.find?_cons, hcontains]
  aligned := ⟨Nat.mod_one _, Nat.mod_one _⟩
  bounds := w.bounds

end PriorityWrite

/-- A write to the bank. -/
def writePriority (p : Fe310Params) (s : Fe310Plic) (w : PriorityWrite p) : Except Fault Fe310Plic :=
  (peripheral p).write w.addr w.data s

/-- The bank after a write. -/
def writtenPriorities (s : Fe310Plic) (w : PriorityWrite p) : Fe310Plic :=
  (s.setMem .interruptPriorities
    ((s.regs .interruptPriorities).write w.addr w.data)).postWriteInterruptPriorities p

theorem writePriority_eq (s : Fe310Plic) (w : PriorityWrite p) :
    writePriority p s w = .ok (s.writtenPriorities w) := by
  unfold writePriority
  rw [Peripheral.write_of_reaches w.reaches rfl rfl]
  rfl

theorem priority_written (s : Fe310Plic) (w : PriorityWrite p) (i : Nat) :
    (s.writtenPriorities w).priority i =
      if i < p.numberInterrupts then minWord (w.given s i) p.maxPriority else w.given s i := by
  have hset : s.regs.set .interruptPriorities
      ((s.regs .interruptPriorities).write w.addr w.data) .interruptPriorities =
      (s.regs .interruptPriorities).write w.addr w.data := Registers.set_self _
  have hgiven : (s.setMem .interruptPriorities
      ((s.regs .interruptPriorities).write w.addr w.data)).priority i = w.given s i :=
    congrArg (Bytes.word · 32 (4 * i)) hset
  rw [writtenPriorities, priority_postWrite, hgiven]

/-! ## Limited priorities -/

/-- The priorities are limited. -/
def Limited (p : Fe310Params) (s : Fe310Plic) : Prop :=
  ∀ i ≤ p.numberInterrupts, s.priority i ≤ p.maxPriority

/-- After the write the priorities are limited, and the registers it is not to are as before. -/
def Limits (p : Fe310Params) (s : Fe310Plic) (w : PriorityWrite p) : Prop :=
  ∃ s', writePriority p s w = .ok s' ∧ Limited p s' ∧
    ∀ i ≤ p.numberInterrupts, ¬ w.Touches i → s'.priority i = s.priority i

/-- The write leaves the last register within the limit. -/
def LeavesLast (p : Fe310Params) (s : Fe310Plic) (w : PriorityWrite p) : Prop :=
  w.given s p.numberInterrupts ≤ p.maxPriority

theorem limited_written {w : PriorityWrite p} :
    Limited p (s.writtenPriorities w) ↔ LeavesLast p s w := by
  unfold Limited LeavesLast
  simp only [priority_written]
  constructor
  · intro h
    have hlast := h p.numberInterrupts (Nat.le_refl _)
    rw [if_neg (Nat.lt_irrefl _)] at hlast
    exact hlast
  · intro hlast i hi
    rcases Nat.lt_or_eq_of_le hi with hlt | rfl
    · rw [if_pos hlt]
      exact minWord_le _ _
    · rw [if_neg (Nat.lt_irrefl _)]
      exact hlast

/-- A register that the write is not to is as before if it was within the limit. -/
theorem priority_written_eq_iff {w : PriorityWrite p} {i : Nat} (hi : ¬ w.Touches i) :
    (s.writtenPriorities w).priority i = s.priority i ↔
      (i < p.numberInterrupts → s.priority i ≤ p.maxPriority) := by
  rw [priority_written, w.given_of_not_touches hi]
  split
  case isTrue hlt =>
    rw [minWord_eq_iff]
    exact ⟨fun h _ ↦ h, fun h ↦ h hlt⟩
  case isFalse hge => exact iff_of_true rfl fun hlt ↦ absurd hlt hge

theorem limits_iff {w : PriorityWrite p} :
    Limits p s w ↔ LeavesLast p s w ∧
      ∀ i < p.numberInterrupts, ¬ w.Touches i → s.priority i ≤ p.maxPriority := by
  constructor
  · rintro ⟨s', hs', hlimited, hkeeps⟩
    cases (writePriority_eq s w).symm.trans hs'
    refine ⟨limited_written.mp hlimited, fun i hi hout ↦ ?_⟩
    exact (priority_written_eq_iff hout).mp (hkeeps i (Nat.le_of_lt hi) hout) hi
  · rintro ⟨hlast, hothers⟩
    refine ⟨_, writePriority_eq s w, limited_written.mpr hlast, fun i _ hout ↦ ?_⟩
    exact (priority_written_eq_iff hout).mpr fun hi ↦ hothers i hi hout

/-- Once the priorities are limited, only the last register matters. -/
theorem limits_iff_of_limited {w : PriorityWrite p} (h : Limited p s) :
    Limits p s w ↔ LeavesLast p s w := by
  rw [limits_iff]
  exact and_iff_left fun i hi _ ↦ h i (Nat.le_of_lt hi)

theorem limited_of_step {w : PriorityWrite p} {s' : Fe310Plic} (h : LeavesLast p s w)
    (hs' : writePriority p s w = .ok s') : Limited p s' := by
  cases (writePriority_eq s w).symm.trans hs'
  exact limited_written.mpr h

theorem priority_initial {i : Nat} (hi : i < p.numberInterrupts) : (initial p).priority i = 1#32 := by
  have hone : ∀ j < 4, (if j = 0 then 1#8 else 0#8) = Bytes.setWord (fun _ ↦ 0#8) 0 1#32 (0 + j) := by
    decide
  have hbytes : ∀ j, j < 4 → (initial p).regs .interruptPriorities (4 * i + j) =
      Bytes.setWord (fun _ ↦ 0#8) 0 1#32 (0 + j) := by
    intro j hj
    have hmod : (4 * i + j) % 4 = j := by omega
    have hdiv : (4 * i + j) / 4 = i := by omega
    unfold initial
    dsimp only
    rw [hmod, hdiv, if_congr (and_iff_left hi) rfl rfl]
    exact hone j hj
  calc (initial p).priority i
      = Bytes.word (Bytes.setWord (fun _ ↦ 0#8) 0 1#32) 32 0 := Bytes.word_congr _ (by decide) hbytes
    _ = 1#32 := Bytes.word_setWord _ (by decide) 0 1#32

/-- The priorities stay within the limit if and only if every write leaves the last register within
it and the first one is to every other register that is not. -/
theorem limits_along_iff (p : Fe310Params) (ws : List (PriorityWrite p)) :
    Along (writePriority p) (Limits p) (initial p) ws ↔
      (∀ w ∈ ws.head?, ∀ i < p.numberInterrupts, ¬ w.Touches i → 1#32 ≤ p.maxPriority) ∧
        Along (writePriority p) (LeavesLast p) (initial p) ws := by
  cases ws with
  | nil => exact iff_of_true trivial ⟨fun w hw ↦ absurd hw (by simp), trivial⟩
  | cons w ws =>
    have hrest : LeavesLast p (initial p) w → ∀ s', writePriority p (initial p) w = .ok s' →
        (Along (writePriority p) (Limits p) s' ws ↔ Along (writePriority p) (LeavesLast p) s' ws) := by
      intro hlast s' hs'
      exact along_iff_of_invariant (I := Limited p)
        (fun _ _ _ _ _ h hstep ↦ limited_of_step h hstep)
        (fun _ _ _ hs ↦ limits_iff_of_limited hs) (limited_of_step hlast hs')
    have hfirst : (∀ i < p.numberInterrupts, ¬ w.Touches i →
        (initial p).priority i ≤ p.maxPriority) ↔
        ∀ i < p.numberInterrupts, ¬ w.Touches i → 1#32 ≤ p.maxPriority :=
      forall₂_congr fun i hi ↦ by rw [priority_initial hi]
    rw [Along, Along, limits_iff, hfirst]
    simp only [List.head?_cons, Option.mem_some_iff, forall_eq']
    constructor
    · rintro ⟨⟨hlast, hothers⟩, h⟩
      exact ⟨hothers, hlast, fun s' hs' ↦ (hrest hlast s' hs').mp (h s' hs')⟩
    · rintro ⟨hothers, hlast, h⟩
      exact ⟨⟨hlast, hothers⟩, fun s' hs' ↦ (hrest hlast s' hs').mpr (h s' hs')⟩

/-- A priority of eight for the last register of the HiFive platform. -/
def lastPriority : PriorityWrite hifive where
  addr := 0xD4
  data := [8#8, 0#8, 0#8, 0#8]
  size := .inr (.inr rfl)
  bounds := Nat.le_refl _

theorem not_limits_last :
    ¬ Along (writePriority hifive) (Limits hifive) (initial hifive) [lastPriority] := by
  rintro ⟨h, -⟩
  exact absurd (limits_iff.mp h).1 (by unfold LeavesLast; decide)

end Fe310Plic

end CoverageVP.Platform
