import CoverageVP.Platform.Fe310Delivery

/-!
# Claims and completions of each hart

A claim register belongs to a hart. The controller looks for the interrupts of the first hart at every
claim, takes the index of a register for the number of a hart, and keeps the enabled interrupts of a
hart in rows of one word. These agree for one hart only.
-/

namespace CoverageVP.Platform

open Lib

namespace Fe310Plic

variable (p : Fe310Params)

/-- The address of the claim register of a hart. -/
def claimAddr (hart : Nat) : Nat := 0x200000 + 8 * hart + 4

/-- The interrupt that a claim of the hart has to return: the eligible one of the highest priority,
the lowest one among those, and zero if there is none. -/
def IsBest (s : Fe310Plic) (hart id : Nat) : Prop :=
  Selection.Chosen 0 (s.Eligible p hart false) (fun i ↦ (s.priority i).toNat) id

/-- A claim returns the best interrupt of the hart, which is not pending any more. -/
def Claims (s : Fe310Plic) (hart : Nat) : Prop :=
  ∃ id s', (peripheral p).read (claimAddr hart) 4 s =
      .ok (Bytes.ofWord (BitVec.ofNat 32 id), s') ∧
    s.IsBest p hart id ∧ ∀ i, s'.pendingBit i = (s.pendingBit i && i != id)

/-- A completion leaves the line of the hart up if there is another interrupt for it, and leaves the
lines of the other harts. No index is out of range. -/
structure Completes (s : Fe310Plic) (hart : Nat) (data : List (BitVec 8)) : Prop where
  inRange : ∀ e, (peripheral p).write (claimAddr hart) data s = .error e →
    e ≠ .undefined ∧ e ≠ .assertion .index
  own : ∀ s', (peripheral p).write (claimAddr hart) data s = .ok s' →
    ((∃ i, s'.Eligible p hart true i) ↔ s'.hartEip hart = true) ∧
      s'.targetHarts hart = s'.hartEip hart
  others : ∀ s', (peripheral p).write (claimAddr hart) data s = .ok s' → ∀ h, h ≠ hart →
    s'.hartEip h = s.hartEip h ∧ s'.targetHarts h = s.targetHarts h

/-- Every hart claims and completes its own interrupts, which it has enabled in words of its own. -/
structure PerHart : Prop where
  claim : ∀ s hart, hart < p.numberCores → Claims p s hart
  complete : ∀ s hart, hart < p.numberCores → ∀ data : List (BitVec 8), data.length = 4 →
    Completes p s hart data
  inRange : ∀ hart < p.numberCores, ∀ idx < p.numberInterruptEntries,
    enabledIndex hart idx < p.numberInterruptEntries * p.numberCores
  disjoint : ∀ hart < p.numberCores, ∀ hart' < p.numberCores, hart ≠ hart' →
    ∀ idx < p.numberInterruptEntries, ∀ idx' < p.numberInterruptEntries,
      enabledIndex hart idx ≠ enabledIndex hart' idx'

/-- There is one hart, every interrupt has its bit, and the enabled interrupts end before the claim
register. -/
structure SingleHart : Prop where
  cores : p.numberCores = 1
  interrupts : 0 < p.numberInterrupts
  entries : p.numberInterrupts ≤ 32 * p.numberInterruptEntries
  banks : p.numberInterruptEntries ≤ 0x7F801

theorem toLocal_claimAddr (hart : Nat) :
    ((peripheral p).range .hartConfig).toLocal (claimAddr hart) = 8 * hart + 4 := by
  change claimAddr hart - 0x200000 = 8 * hart + 4
  rw [claimAddr]
  omega

/-! ## One hart -/

section OneHart

variable {p} (hp : SingleHart p) {s : Fe310Plic}

include hp

theorem reaches_claimAddr : (peripheral p).Reaches (claimAddr 0) 4 .hartConfig := by
  have hinterrupts := p.interrupts_le
  have hcores := hp.cores
  have hbanks := hp.banks
  refine ⟨?_, ?_, ?_⟩
  · have hpriorities : (range p .interruptPriorities).contains (claimAddr 0) = false := by
      simp [RegisterRange.contains, RegisterRange.stop, range, claimAddr]
      omega
    have hpending : (range p .pendingInterrupts).contains (claimAddr 0) = false := by
      simp [RegisterRange.contains, RegisterRange.stop, range, claimAddr]
      omega
    have henabled : (range p .hartEnabledInterrupts).contains (claimAddr 0) = false := by
      simp [RegisterRange.contains, RegisterRange.stop, range, claimAddr, hcores]
      omega
    have hconfig : (range p .hartConfig).contains (claimAddr 0) = true := by
      simp [RegisterRange.contains, RegisterRange.stop, range, claimAddr, hcores]
    simp [Peripheral.route, peripheral, hpriorities, hpending, henabled, hconfig]
  · change claimAddr 0 % 4 = 0 ∧ 4 % 4 = 0
    decide
  · rw [toLocal_claimAddr]
    change 8 * 0 + 4 + 4 ≤ 8 * p.numberCores
    rw [hcores]

theorem hartGetNextPendingInterrupt_single (considerThreshold : Bool) :
    s.hartGetNextPendingInterrupt p 0 considerThreshold =
      .ok (s.nextPending p 0 considerThreshold) := by
  have hentries := hp.entries
  refine hartGetNextPendingInterrupt_eq_ok p.cores_pos fun i hi ↦ ?_
  have hentry : i / 32 < p.numberInterruptEntries := by omega
  refine ⟨hentry, ?_⟩
  rw [enabledIndex, hp.cores]
  omega

theorem nextPending_lt (considerThreshold : Bool) :
    s.nextPending p 0 considerThreshold < p.numberInterrupts := by
  rcases chosen_nextPending p s 0 considerThreshold with ⟨hzero, -⟩ | hbest
  · rw [hzero]
    exact hp.interrupts
  · exact hbest.eligible.lt

theorem claims_single (s : Fe310Plic) : Claims p s 0 := by
  have hlt := nextPending_lt hp (s := s) false
  have hentries := hp.entries
  have hcores := hp.cores
  refine ⟨s.nextPending p 0 false, s.claimed 1 (s.nextPending p 0 false), ?_,
    chosen_nextPending p s 0 false, fun i ↦ ?_⟩
  · rw [Peripheral.read_eq_ok_iff]
    refine ⟨.hartConfig, reaches_claimAddr hp, ?_, ?_⟩
    · rw [toLocal_claimAddr]
      change s.preReadHartConfig p 4 4 = _
      rw [preReadHartConfig_eq_ok_iff]
      refine ⟨by decide, ?_⟩
      rw [if_pos (by decide)]
      exact ⟨rfl, _, hartGetNextPendingInterrupt_single hp false, by omega, hlt, by omega, rfl⟩
    · rw [toLocal_claimAddr]
      change _ = ((s.claimed 1 (s.nextPending p 0 false)).regs .hartConfig).read 4 4
      rw [claimed, cleared, setWord_regs_of_ne _ (by decide), setWord_regs_self]
      exact (Bytes.read_setWord (s.regs .hartConfig) 4
        (BitVec.ofNat 32 (s.nextPending p 0 false))).symm
  · rw [claimed, pendingBit_cleared]
    rw [pendingBit, word_setWord_of_bank_ne _ (by decide)]
    rfl

/-- The completion of the only hart. -/
theorem write_claimAddr {data : List (BitVec 8)} (hdata : data.length = 4) :
    (peripheral p).write (claimAddr 0) data s = (do
      let s := s.setMem .hartConfig ((s.regs .hartConfig).write 4 data)
      if ← s.hartHasPendingEnabledInterrupts p 0 then
        check (s.hartEip 0 = true) (.assertion .hartEip)
        return s.setTargetHart 0 true
      else return (s.setHartEip 0 false).setTargetHart 0 false) := by
  have hreaches := reaches_claimAddr hp
  rw [← hdata] at hreaches
  rw [Peripheral.write_of_reaches hreaches rfl rfl, hdata, toLocal_claimAddr]
  exact postWriteHartConfig_of_odd (by decide) (by decide) (by decide)

theorem hartHasPendingEnabledInterrupts_single (s : Fe310Plic) :
    ∃ b, s.hartHasPendingEnabledInterrupts p 0 = .ok b := by
  rw [hartHasPendingEnabledInterrupts, hartGetNextPendingInterrupt_single hp true]
  exact ⟨_, rfl⟩

theorem completes_single (s : Fe310Plic) {data : List (BitVec 8)} (hdata : data.length = 4) :
    Completes p s 0 data := by
  set s₁ := s.setMem .hartConfig ((s.regs .hartConfig).write 4 data) with hs₁
  obtain ⟨b, hb⟩ := hartHasPendingEnabledInterrupts_single hp s₁
  have hiff := hartHasPendingEnabledInterrupts_of_ok hb
  have hwrite : (peripheral p).write (claimAddr 0) data s = if b then (do
      check (s₁.hartEip 0 = true) (.assertion .hartEip)
      return s₁.setTargetHart 0 true) else .ok ((s₁.setHartEip 0 false).setTargetHart 0 false) := by
    rw [write_claimAddr hp hdata]
    dsimp only
    rw [hb]
    rfl
  have hcases : ∀ s', (peripheral p).write (claimAddr 0) data s = .ok s' →
      (b = true ∧ s₁.hartEip 0 = true ∧ s' = s₁.setTargetHart 0 true) ∨
        (b = false ∧ s' = (s₁.setHartEip 0 false).setTargetHart 0 false) := by
    intro s' h
    rw [hwrite] at h
    cases b with
    | true =>
      obtain ⟨heip, h⟩ := check_bind_eq_ok_iff.mp h
      cases h
      exact .inl ⟨rfl, heip, rfl⟩
    | false =>
      cases h
      exact .inr ⟨rfl, rfl⟩
  refine ⟨fun e h ↦ ?_, fun s' h ↦ ?_, fun s' h hart hne ↦ ?_⟩
  · rw [hwrite] at h
    cases b with
    | true =>
      rcases check_bind_eq_error_iff.mp h with ⟨-, rfl⟩ | ⟨-, h⟩
      · exact ⟨by decide, by decide⟩
      · cases h
    | false => cases h
  · rcases hcases s' h with ⟨hb', heip, rfl⟩ | ⟨hb', rfl⟩
    · obtain ⟨i, hi⟩ := hiff.mp hb'
      exact ⟨iff_of_true ⟨i, hi.of_pending (fun h ↦ h) rfl rfl rfl⟩ heip, heip.symm⟩
    · refine ⟨iff_of_false ?_ Bool.false_ne_true, rfl⟩
      rintro ⟨i, hi⟩
      have hi' : s₁.Eligible p 0 true i := hi.of_pending (fun h ↦ h) rfl rfl rfl
      exact Bool.false_ne_true (hb'.symm.trans (hiff.mpr ⟨i, hi'⟩))
  · rcases hcases s' h with ⟨-, -, rfl⟩ | ⟨-, rfl⟩
    · exact ⟨rfl, if_neg hne⟩
    · exact ⟨if_neg hne, if_neg hne⟩

theorem perHart_single : PerHart p where
  claim s hart hlt := by
    obtain rfl : hart = 0 := by
      rw [hp.cores] at hlt
      omega
    exact claims_single hp s
  complete s hart hlt data hdata := by
    obtain rfl : hart = 0 := by
      rw [hp.cores] at hlt
      omega
    exact completes_single hp s hdata
  inRange hart hlt idx hidx := by
    rw [hp.cores] at hlt ⊢
    rw [enabledIndex]
    omega
  disjoint hart hlt hart' hlt' hne := by
    rw [hp.cores] at hlt hlt'
    omega

end OneHart

/-! ## A controller that does not -/

/-- Every priority is zero, and every other byte is one. -/
def unprioritised : Fe310Plic where
  regs
    | .interruptPriorities => fun _ ↦ 0#8
    | _ => fun _ ↦ 1#8
  hartEip := fun _ ↦ false
  targetHarts := fun _ ↦ false
  runNotified := false

theorem priority_unprioritised (i : Nat) : unprioritised.priority i = 0#32 := by
  have hword : unprioritised.priority i = Bytes.word (fun _ ↦ 0#8) 32 0 :=
    Bytes.word_congr _ (by decide) fun _ _ ↦ rfl
  rw [hword]
  rfl

variable {p}

theorem not_eligible_unprioritised (hart : Nat) (considerThreshold : Bool) (i : Nat) :
    ¬ unprioritised.Eligible p hart considerThreshold i := by
  intro h
  have hpos := h.priority
  rw [priority_unprioritised] at hpos
  exact absurd hpos (by decide)

/-- A claim finds no interrupt, so that it has to return zero. -/
theorem read_zero_of_claims {hart : Nat} (h : Claims p unprioritised hart) :
    ∃ s', (peripheral p).read (claimAddr hart) 4 unprioritised = .ok (Bytes.ofWord 0#32, s') := by
  obtain ⟨id, s', hread, ⟨rfl, -⟩ | hbest, -⟩ := h
  · exact ⟨s', hread⟩
  · exact absurd hbest.eligible (not_eligible_unprioritised hart false id)

theorem byte_of_read {m : Bytes} {addr : Nat} (h : Bytes.ofWord 0#32 = m.read addr 4) :
    m addr = 0#8 := by
  have hhead := congrArg List.head? h
  exact (Option.some.inj hhead).symm

/-- The read reaches the bank of the claim registers, and has put zero into the register. -/
theorem claimed_of_claims {hart : Nat} (h : Claims p unprioritised hart) :
    (peripheral p).Reaches (claimAddr hart) 4 .hartConfig ∧
      ∃ minId, unprioritised.hartGetNextPendingInterrupt p 0 false = .ok minId ∧
        minId < p.numberInterrupts ∧
        ((unprioritised.claimed (2 * hart + 1) minId).regs .hartConfig) (8 * hart + 4) = 0#8 := by
  obtain ⟨s', hread⟩ := read_zero_of_claims h
  obtain ⟨b, hb, hpre, hdata⟩ := Peripheral.read_eq_ok_iff.mp hread
  have hbyte := byte_of_read hdata
  cases b with
  | interruptPriorities =>
    have hbounds : claimAddr hart - 0 + 4 ≤ 4 * (p.numberInterrupts + 1) := hb.bounds
    have hinterrupts := p.interrupts_le
    rw [claimAddr] at hbounds
    omega
  | pendingInterrupts | hartEnabledInterrupts =>
    cases hpre
    cases hbyte
  | hartConfig =>
    rw [toLocal_claimAddr] at hpre hbyte
    have hidx : (8 * hart + 4) / 4 = 2 * hart + 1 := by omega
    obtain ⟨-, hpre⟩ := preReadHartConfig_eq_ok_iff.mp hpre
    rw [hidx, if_pos (by omega)] at hpre
    obtain ⟨-, minId, hmin, -, hlt, -, rfl⟩ := hpre
    exact ⟨hb, minId, hmin, hlt, hbyte⟩

/-- The claim of the second hart goes to the register of the third one. -/
theorem not_claims_one : ¬ Claims p unprioritised 1 := by
  intro h
  obtain ⟨-, minId, -, -, hbyte⟩ := claimed_of_claims h
  rw [claimed, cleared, setWord_regs_of_ne _ (by decide), setWord_regs_self, Bytes.setWord, if_neg (by decide)] at hbyte
  cases hbyte

theorem enabledIndex_lt_of_ok {s : Fe310Plic} {hart n i : Nat} {considerThreshold : Bool}
    (h : s.hartGetNextPendingInterrupt p hart considerThreshold = .ok n)
    (hi : i ∈ List.range' 1 (p.numberInterrupts - 1)) :
    enabledIndex hart (i / 32) < p.numberInterruptEntries * p.numberCores := by
  obtain ⟨best, hbest, -⟩ := bind_eq_ok.mp h
  obtain ⟨c, hc⟩ := Selection.exists_of_chooseM_eq_ok hbest hi
  obtain ⟨enabled, henabled, -⟩ := bind_eq_ok.mp hc
  exact (check_bind_eq_ok_iff.mp henabled).1

theorem route_ne_hartConfig {addr : Nat}
    (h : (range p .hartEnabledInterrupts).contains addr = true) :
    (peripheral p).route addr ≠ .ok .hartConfig := by
  cases hpriorities : (range p .interruptPriorities).contains addr <;>
    cases hpending : (range p .pendingInterrupts).contains addr <;>
    simp [Peripheral.route, peripheral, h, hpriorities, hpending]

theorem singleHart_of_perHart (h : PerHart p) : SingleHart p := by
  have hcores : p.numberCores = 1 := by
    by_contra hne
    have hpos := p.cores_pos
    have hlt : 1 < p.numberCores := by omega
    exact not_claims_one (h.claim _ 1 hlt)
  obtain ⟨hreaches, minId, hmin, hlt, -⟩ := claimed_of_claims (h.claim unprioritised 0 p.cores_pos)
  refine ⟨hcores, Nat.zero_lt_of_lt hlt, ?_, ?_⟩
  · by_contra hentries
    have hlast : p.numberInterrupts - 1 ∈ List.range' 1 (p.numberInterrupts - 1) := by
      have hpos := p.entries_pos
      rw [mem_interrupts]
      omega
    have henabled := enabledIndex_lt_of_ok hmin hlast
    rw [enabledIndex, hcores] at henabled
    omega
  · by_contra hbanks
    have henabled : (range p .hartEnabledInterrupts).contains (claimAddr 0) = true := by
      simp [RegisterRange.contains, RegisterRange.stop, range, claimAddr, hcores]
      omega
    exact route_ne_hartConfig henabled hreaches.route

/-- Every hart claims and completes its own interrupts if and only if there is one hart, every
interrupt has its bit, and the banks of registers do not overlap. -/
theorem perHart_iff (p : Fe310Params) : PerHart p ↔ SingleHart p :=
  ⟨singleHart_of_perHart, perHart_single⟩

theorem twoHarts_cores_le : 2 ≤ 15360 := by decide

/-- The controller of the HiFive with one more hart. -/
def twoHarts : Fe310Params where
  numberCores := 2
  numberInterrupts := 53
  numberInterruptEntries := 64
  maxPriority := 7#32
  interrupts_le := hifive_interrupts_le
  cores_le := twoHarts_cores_le
  cores_pos := Nat.zero_lt_two
  entries_pos := hifive_entries_pos

theorem not_perHart_twoHarts : ¬ PerHart twoHarts := fun h ↦
  not_claims_one (h.claim unprioritised 1 (by decide))

end Fe310Plic

end CoverageVP.Platform
