import CoverageVP.Iss.Coupling

/-!
# Instructions in coupled states

Accesses to the memory keep states coupled, provided that the addresses are the same and that page
walks read the same bytes in both states. An instruction whose register operands are only computed
with keeps states coupled; where the concrete part of an operand is used, it has to be the same.
-/

namespace CoverageVP.Iss

open Lib Clover Instr

/-! ## Accesses to the memory -/

/-- The physical addresses of the page table entries that a walk reads. -/
def walkEntries (m : ConcolicMemory) (size : Nat) (root vaddr : BitVec 64) :
    Nat → BitVec 64 → List (BitVec 64)
  | 0, _ => []
  | level + 1, base =>
    let paddr := ptePaddr (sv32 root) vaddr base level
    let pte := entryAt m paddr
    if size < paddr.toNat + 4 then []
    else if !pte.V || (!pte.R && pte.W) then [paddr]
    else if !pte.R && !pte.X then
      paddr :: walkEntries m size root vaddr level (pte.ppn <<< PGSHIFT)
    else [paddr]

/-- The bytes of the memory that the translation of an address reads. -/
def State.walkReads (s : State) (vaddr : BitVec 64) (type : MemoryAccessType) :
    List (BitVec 32) :=
  match s.mmu with
  | none => []
  | some mmu =>
    if s.csrs.satpMode = 0#1 ∨ s.accessMode type = MachineMode ∨
        (mmu.tlb (s.accessMode type) type ((vaddr >>> PGSHIFT).toNat % TLB_ENTRIES)).vpn =
          vaddr >>> PGSHIFT then []
    else (walkEntries s.mem s.memSize s.pageTable vaddr 2 s.pageTable).flatMap fun paddr ↦
      (List.range 4).map fun i ↦ paddr.setWidth 32 + BitVec.ofNat 32 i

namespace Coupling

variable (K : Coupling) (stop : Thrown → Prop)

/-- The walks from the two states read clean bytes only. -/
structure CleanWalks (s t : State) (vaddr : BitVec 64) (type : MemoryAccessType) : Prop where
  left : ∀ a ∈ s.walkReads vaddr type, K.clean₁ (s.mem.byteAt a)
  right : ∀ a ∈ t.walkReads vaddr type, K.clean₂ (t.mem.byteAt a)

theorem coupled_transportRead (addr : BitVec 64) {n : Nat} (hn : 0 < n) :
    Lockstep stop K.Coupled (transportRead addr n) (transportRead addr n)
      (fun a b s t ↦ K.value a b ∧ K.Coupled s t) K.Same := by
  refine Lockstep.of_start fun s t h ↦ ?_
  have hsize : t.memSize = s.memSize := h.same State.memSize fun _ _ ↦ rfl
  refine Lockstep.of_triples (triple_transportRead s addr hn) (triple_transportRead t addr hn)
    ?_ ?_ ?_ ?_
  · rintro a b _ _ ⟨rfl, -, ha⟩ ⟨rfl, -, hb⟩
    have hload := K.value_load h.mem (addr.setWidth 32) n
    rw [ha, hb] at hload
    cases hload with
    | some hab => exact ⟨hab, h⟩
  · rintro e f _ _ ⟨rfl, -, rfl⟩ ⟨rfl, -, rfl⟩
    exact ⟨rfl, h⟩
  · rintro a f _ _ ⟨rfl, hle, -⟩ ⟨rfl, hlt, -⟩
    exact absurd hlt (Nat.not_lt.mpr (hsize ▸ hle))
  · rintro a f _ _ ⟨rfl, hlt, -⟩ ⟨rfl, hle, -⟩
    exact absurd hlt (Nat.not_lt.mpr (hsize ▸ hle))

theorem Coupled.store {K : Coupling} {s t : State} (h : K.Coupled s t) (addr : BitVec 32)
    {a b : ConcolicValue} (hab : K.value a b) (n : Nat) :
    K.Coupled { s with mem := s.mem.store addr a n } { t with mem := t.mem.store addr b n } := by
  obtain ⟨d, rfl, hd⟩ := h
  exact ⟨{ d with mem := d.mem.store addr b n }, rfl, hd.regs, K.value_store hd.mem addr hab n,
    hd.log⟩

theorem coupled_transportWrite (addr : BitVec 64) {a b : ConcolicValue} (hab : K.value a b)
    (n : Nat) :
    Lockstep stop K.Coupled (transportWrite addr a n) (transportWrite addr b n) K.Same K.Same := by
  refine Lockstep.of_start fun s t h ↦ ?_
  have hsize : t.memSize = s.memSize := h.same State.memSize fun _ _ ↦ rfl
  refine Lockstep.of_triples (triple_transportWrite s addr a n) (triple_transportWrite t addr b n)
    ?_ ?_ ?_ ?_
  · rintro _ _ _ _ ⟨-, rfl⟩ ⟨-, rfl⟩
    exact ⟨rfl, h.store _ hab n⟩
  · rintro e f _ _ ⟨rfl, -, rfl⟩ ⟨rfl, -, rfl⟩
    exact ⟨rfl, h⟩
  · rintro _ f _ _ ⟨hle, -⟩ ⟨-, hlt, -⟩
    exact absurd hlt (Nat.not_lt.mpr (hsize ▸ hle))
  · rintro e _ _ _ ⟨-, hlt, -⟩ ⟨hle, -⟩
    exact absurd hlt (Nat.not_lt.mpr (hsize ▸ hle))

/-- Words of clean bytes are the same. -/
theorem wordAt_eq {s t : State} (h : K.Coupled s t) {addr : BitVec 32}
    (h₁ : ∀ i < 4, K.clean₁ (s.mem.byteAt (addr + BitVec.ofNat 32 i)))
    (h₂ : ∀ i < 4, K.clean₂ (t.mem.byteAt (addr + BitVec.ofNat 32 i))) :
    wordAt t.mem addr = wordAt s.mem addr := by
  have hbyte : ∀ i < 4, t.mem.concreteByte (addr + BitVec.ofNat 32 i) =
      s.mem.concreteByte (addr + BitVec.ofNat 32 i) :=
    fun i hi ↦ (K.concreteByte_eq (h.mem _) (h₁ i hi) (h₂ i hi)).symm
  rw [wordAt, wordAt, hbyte 0 (by decide), hbyte 1 (by decide), hbyte 2 (by decide),
    hbyte 3 (by decide)]

theorem entryAt_eq {s t : State} (h : K.Coupled s t) {paddr : BitVec 64}
    (h₁ : ∀ i < 4, K.clean₁ (s.mem.byteAt (paddr.setWidth 32 + BitVec.ofNat 32 i)))
    (h₂ : ∀ i < 4, K.clean₂ (t.mem.byteAt (paddr.setWidth 32 + BitVec.ofNat 32 i))) :
    entryAt t.mem paddr = entryAt s.mem paddr := by
  rw [entryAt, entryAt, K.wordAt_eq h h₁ h₂]

theorem coupled_mmuLoadPte32 {s t : State} (h : K.Coupled s t) (addr : BitVec 64)
    (h₁ : addr.toNat + 4 ≤ s.memSize →
      ∀ i < 4, K.clean₁ (s.mem.byteAt (addr.setWidth 32 + BitVec.ofNat 32 i)))
    (h₂ : addr.toNat + 4 ≤ t.memSize →
      ∀ i < 4, K.clean₂ (t.mem.byteAt (addr.setWidth 32 + BitVec.ofNat 32 i))) :
    Lockstep stop (fun s' t' ↦ s' = s ∧ t' = t) (mmuLoadPte32 addr) (mmuLoadPte32 addr)
      (fun a b s' t' ↦ (s' = s ∧ t' = t) ∧ addr.toNat + 4 ≤ s.memSize ∧
        a = entryAt s.mem addr ∧ b = entryAt s.mem addr) K.Same := by
  have hsize : t.memSize = s.memSize := h.same State.memSize fun _ _ ↦ rfl
  refine Lockstep.of_triples (triple_mmuLoadPte32 s addr) (triple_mmuLoadPte32 t addr) ?_ ?_ ?_ ?_
  · rintro a b _ _ ⟨rfl, rfl, hle⟩ ⟨rfl, rfl, hle'⟩
    exact ⟨⟨rfl, rfl⟩, hle, rfl, K.entryAt_eq h (h₁ hle) (h₂ hle')⟩
  · rintro e f _ _ ⟨rfl, -, rfl⟩ ⟨rfl, -, rfl⟩
    exact ⟨rfl, h⟩
  · rintro a f _ _ ⟨-, -, hle⟩ ⟨-, hlt, -⟩
    exact absurd hlt (Nat.not_lt.mpr (hsize ▸ hle))
  · rintro e b _ _ ⟨-, hlt, -⟩ ⟨-, -, hle⟩
    exact absurd hlt (Nat.not_lt.mpr (hsize ▸ hle))

theorem coupled_markLeaf (paddr : BitVec 64) (pte : Pte) (type : MemoryAccessType) (onAD : Bool) :
    Lockstep stop K.Coupled (markLeaf paddr pte type onAD) (markLeaf paddr pte type onAD) K.Same
      K.Same := by
  refine Lockstep.ite Iff.rfl (fun _ ↦ Lockstep.ret fun _ _ h ↦ ⟨rfl, h⟩) fun _ ↦
    Lockstep.ite Iff.rfl (fun _ ↦ Lockstep.ret fun _ _ h ↦ ⟨rfl, h⟩) fun _ ↦ ?_
  rw [concreteStoreData_eq]
  exact Lockstep.bind (K.coupled_transportWrite stop paddr (K.value_constant _) 4) fun _ _ ↦
    Lockstep.ret fun _ _ h ↦ ⟨rfl, h.2⟩

/-- The bytes of the entries that a walk reads are clean. -/
def CleanEntries (clean : ConcolicValue → Prop) (s : State) (root vaddr : BitVec 64) (level : Nat)
    (base : BitVec 64) : Prop :=
  ∀ paddr ∈ walkEntries s.mem s.memSize root vaddr level base, ∀ i < 4,
    clean (s.mem.byteAt (paddr.setWidth 32 + BitVec.ofNat 32 i))

theorem CleanEntries.head {clean : ConcolicValue → Prop} {s : State} {root vaddr : BitVec 64}
    {level : Nat} {base : BitVec 64} (h : CleanEntries clean s root vaddr (level + 1) base)
    (hsize : (ptePaddr (sv32 root) vaddr base level).toNat + 4 ≤ s.memSize) :
    ∀ i < 4, clean (s.mem.byteAt
      ((ptePaddr (sv32 root) vaddr base level).setWidth 32 + BitVec.ofNat 32 i)) := by
  apply h
  rw [walkEntries, if_neg (Nat.not_lt.mpr hsize)]
  split
  · exact List.mem_singleton_self _
  split
  · exact List.mem_cons_self
  · exact List.mem_singleton_self _

theorem CleanEntries.tail {clean : ConcolicValue → Prop} {s : State} {root vaddr : BitVec 64}
    {level : Nat} {base : BitVec 64} (h : CleanEntries clean s root vaddr (level + 1) base)
    (hsize : (ptePaddr (sv32 root) vaddr base level).toNat + 4 ≤ s.memSize)
    {pte : Pte} (hpte : entryAt s.mem (ptePaddr (sv32 root) vaddr base level) = pte)
    (hvalid : ¬ (!pte.V || (!pte.R && pte.W)) = true) (hnext : (!pte.R && !pte.X) = true) :
    CleanEntries clean s root vaddr level (pte.ppn <<< PGSHIFT) := by
  intro paddr hpaddr
  apply h
  rw [walkEntries, if_neg (Nat.not_lt.mpr hsize), hpte, if_neg hvalid, if_pos hnext]
  exact List.mem_cons_of_mem _ hpaddr

theorem coupled_walkLevels {s t : State} (h : K.Coupled s t) (root vaddr : BitVec 64)
    (type : MemoryAccessType) (sMode sum mxr onAD : Bool) (level : Nat) (base : BitVec 64)
    (h₁ : CleanEntries K.clean₁ s root vaddr level base)
    (h₂ : CleanEntries K.clean₂ t root vaddr level base) :
    Lockstep stop (fun s' t' ↦ s' = s ∧ t' = t)
      (walkLevels (sv32 root) vaddr type sMode sum mxr onAD level base)
      (walkLevels (sv32 root) vaddr type sMode sum mxr onAD level base) K.Same K.Same := by
  have hstop : ∀ {α : Type} (a : α), Lockstep stop (fun s' t' ↦ s' = s ∧ t' = t)
      (pure a : IssM α) (pure a) K.Same K.Same :=
    fun a ↦ Lockstep.ret_at ⟨rfl, h⟩
  have hsize : t.memSize = s.memSize := h.same State.memSize fun _ _ ↦ rfl
  induction level generalizing base with
  | zero => exact hstop none
  | succ level ih =>
    refine Lockstep.bind (K.coupled_mmuLoadPte32 stop h _ h₁.head h₂.head) fun pte pte' ↦ ?_
    refine Lockstep.of_start fun s' t' hst ↦ ?_
    obtain ⟨⟨rfl, rfl⟩, hle, rfl, hpte'⟩ := hst
    have hentry : entryAt t'.mem (ptePaddr (sv32 root) vaddr base level) =
        entryAt s'.mem (ptePaddr (sv32 root) vaddr base level) :=
      K.entryAt_eq h (h₁.head hle) (h₂.head (hsize ▸ hle))
    rw [hpte']
    refine Lockstep.ite Iff.rfl (fun _ ↦ hstop _) fun hvalid ↦ Lockstep.ite Iff.rfl
      (fun hnext ↦ ?_) fun _ ↦ ?_
    · exact ih _ (h₁.tail hle rfl hvalid hnext) (h₂.tail (hsize ▸ hle) hentry hvalid hnext)
    · refine Lockstep.ite Iff.rfl (fun _ ↦ hstop _) fun _ ↦ Lockstep.ite Iff.rfl
        (fun _ ↦ hstop _) fun _ ↦ ?_
      refine Lockstep.bind ((K.coupled_markLeaf stop _ _ type onAD).at_start h)
        fun marked marked' ↦ Lockstep.of_start fun s' t' hst ↦ ?_
      obtain ⟨rfl, hst⟩ := hst
      exact Lockstep.ite Iff.rfl (fun _ ↦ Lockstep.ret_at ⟨rfl, hst⟩) fun _ ↦
        Lockstep.ret_at ⟨rfl, hst⟩

section Translate

variable {K} {s t : State}

theorem coupled_walk (h : K.Coupled s t) (onAD : Bool) (vaddr : BitVec 64)
    (type : MemoryAccessType) (mode : Nat)
    (h₁ : CleanEntries K.clean₁ s s.pageTable vaddr 2 s.pageTable)
    (h₂ : CleanEntries K.clean₂ t t.pageTable vaddr 2 t.pageTable) :
    Lockstep stop (fun s' t' ↦ s' = s ∧ t' = t) (walk onAD vaddr type mode)
      (walk onAD vaddr type mode) K.Same K.Same := by
  refine Lockstep.read_bind fun s' t' hst ↦ ?_
  obtain ⟨rfl, rfl⟩ := hst
  refine Lockstep.bind (Lockstep.remember (((blind_decodeVmInfo mode).coupled K stop).at_start h))
    fun vm vm' ↦ Lockstep.of_start fun s₁ t₁ hrun ↦ ?_
  obtain ⟨⟨rfl, -⟩, hs, ht⟩ := hrun
  obtain ⟨rfl, rfl⟩ := (triple_decodeVmInfo s' mode).of_ok rfl hs
  obtain ⟨rfl, -⟩ := (triple_decodeVmInfo t' mode).of_ok rfl ht
  have hlevels : ∀ level, level = 0 ∨ level = 2 → Lockstep stop (fun s t ↦ s = s₁ ∧ t = t₁)
      (walkLevels (sv32 s₁.pageTable) vaddr type (mode = SupervisorMode) (s₁.csrs.mstatusSum = 1#1)
        (s₁.csrs.mstatusMxr = 1#1) onAD level s₁.pageTable)
      (walkLevels (sv32 s₁.pageTable) vaddr type (mode = SupervisorMode) (s₁.csrs.mstatusSum = 1#1)
        (s₁.csrs.mstatusMxr = 1#1) onAD level s₁.pageTable) K.Same K.Same := by
    rintro level (rfl | rfl)
    · exact K.coupled_walkLevels stop h _ vaddr type _ _ _ onAD 0 _ (fun _ hmem ↦ by cases hmem)
        fun _ hmem ↦ by cases hmem
    · refine K.coupled_walkLevels stop h _ vaddr type _ _ _ onAD 2 _ h₁ ?_
      obtain ⟨d, rfl, -⟩ := h
      exact h₂
  have hcsrs : t₁.csrs = s₁.csrs := h.same State.csrs fun _ _ ↦ rfl
  rw [hcsrs]
  refine Lockstep.bind (hlevels _ (ite_eq_or_eq _ _ _).symm) fun paddr paddr' ↦ ?_
  refine Lockstep.of_start fun s₂ t₂ hst ↦ ?_
  obtain ⟨rfl, hst⟩ := hst
  cases paddr with
  | some paddr => exact Lockstep.ret_at ⟨rfl, hst⟩
  | none => exact Lockstep.raise_at ⟨rfl, hst⟩

theorem Coupled.setMmu (h : K.Coupled s t) (mmu : Option Mmu) :
    K.Coupled { s with mmu := mmu } { t with mmu := mmu } := by
  obtain ⟨d, rfl, hd⟩ := h
  exact ⟨d, rfl, hd⟩

/-- The entries that a translation reads are clean. -/
theorem cleanEntries_of_walkReads {clean : ConcolicValue → Prop} {vaddr : BitVec 64}
    {type : MemoryAccessType} {mmu : Mmu} (hmmu : s.mmu = some mmu)
    (hread : ∀ a ∈ s.walkReads vaddr type, clean (s.mem.byteAt a))
    (hsatp : ¬ s.csrs.satpMode = 0#1) (hmode : ¬ s.accessMode type = MachineMode)
    (hmiss : ¬ (mmu.tlb (s.accessMode type) type ((vaddr >>> PGSHIFT).toNat % TLB_ENTRIES)).vpn =
      vaddr >>> PGSHIFT) :
    CleanEntries clean s s.pageTable vaddr 2 s.pageTable := by
  intro paddr hpaddr i hi
  apply hread
  rw [State.walkReads, hmmu]
  dsimp only
  rw [if_neg (by simp only [hsatp, hmode, hmiss, or_self, not_false_eq_true])]
  exact List.mem_flatMap.mpr
    ⟨paddr, hpaddr, List.mem_map.mpr ⟨i, List.mem_range.mpr hi, rfl⟩⟩

theorem coupled_translate (h : K.Coupled s t) {mmu : Mmu} (hmmu : s.mmu = some mmu)
    {vaddr : BitVec 64} {type : MemoryAccessType} (hclean : K.CleanWalks s t vaddr type) :
    Lockstep stop (fun s' t' ↦ s' = s ∧ t' = t) (translateVirtualToPhysicalAddr mmu vaddr type)
      (translateVirtualToPhysicalAddr mmu vaddr type) K.Same K.Same := by
  refine Lockstep.read_bind fun s' t' hst ↦ ?_
  obtain ⟨rfl, rfl⟩ := hst
  have hmmu' : t'.mmu = some mmu := (h.same State.mmu fun _ _ ↦ rfl).trans hmmu
  have hright := fun hsatp hmode hmiss ↦
    cleanEntries_of_walkReads hmmu' hclean.right hsatp hmode hmiss
  have hcsrs : t'.csrs = s'.csrs := h.same State.csrs fun _ _ ↦ rfl
  have haccess : t'.accessMode type = s'.accessMode type :=
    h.same (·.accessMode type) fun _ _ ↦ rfl
  rw [hcsrs, haccess] at hright ⊢
  refine Lockstep.ite Iff.rfl (fun _ ↦ Lockstep.ret_at ⟨rfl, h⟩) fun hsatp ↦
    Lockstep.ite Iff.rfl (fun _ ↦ Lockstep.ret_at ⟨rfl, h⟩) fun hmode ↦ ?_
  refine Lockstep.bind (Q := fun _ _ s t ↦ s = s' ∧ t = t')
    (Lockstep.ite Iff.rfl (fun _ ↦ Lockstep.ret_at ⟨rfl, rfl⟩) fun _ ↦ Lockstep.raise_at ⟨rfl, h⟩)
    fun _ _ ↦ ?_
  refine Lockstep.ite Iff.rfl (fun _ ↦ Lockstep.ret_at ⟨rfl, h⟩) fun hmiss ↦ ?_
  refine Lockstep.bind (coupled_walk stop h mmu.pageFaultOnAD vaddr type _
    (cleanEntries_of_walkReads hmmu hclean.left hsatp hmode hmiss) (hright hsatp hmode hmiss))
    fun paddr paddr' ↦ Lockstep.of_start fun s₁ t₁ hst ↦ ?_
  obtain ⟨rfl, hst⟩ := hst
  refine Lockstep.bind (Q := fun _ _ ↦ K.Coupled) (Lockstep.update ?_) fun _ _ ↦
    Lockstep.ret fun _ _ h ↦ ⟨rfl, h⟩
  rintro _ _ ⟨rfl, rfl⟩
  exact hst.setMmu _

/-- The translations from coupled states are the same, if they read clean bytes. -/
theorem coupled_v2p (h : K.Coupled s t) {vaddr : BitVec 64} {type : MemoryAccessType}
    (hclean : K.CleanWalks s t vaddr type) :
    Lockstep stop (fun s' t' ↦ s' = s ∧ t' = t) (v2p vaddr type) (v2p vaddr type) K.Same
      K.Same := by
  refine Lockstep.read_bind fun s' t' hst ↦ ?_
  obtain ⟨rfl, rfl⟩ := hst
  have hmmu : t'.mmu = s'.mmu := h.same State.mmu fun _ _ ↦ rfl
  rw [hmmu]
  cases hsome : s'.mmu with
  | none => exact Lockstep.ret_at ⟨rfl, h⟩
  | some mmu => exact coupled_translate stop h hsome hclean

theorem coupled_symbolicLoadData (h : K.Coupled s t) {addr addr' : ConcolicValue}
    (haddr : getValue addr' = getValue addr)
    (hclean : K.CleanWalks s t ((getValue addr).setWidth 64) .STORE) {n : Nat} (hn : 0 < n) :
    Lockstep stop (fun s' t' ↦ s' = s ∧ t' = t) (symbolicLoadData addr n)
      (symbolicLoadData addr' n) (fun a b s t ↦ K.value a b ∧ K.Coupled s t) K.Same := by
  unfold symbolicLoadData
  rw [haddr]
  refine Lockstep.bind (coupled_v2p stop h hclean) fun paddr paddr' ↦
    Lockstep.of_start fun s₁ t₁ hst ↦ ?_
  obtain ⟨rfl, hst⟩ := hst
  exact (K.coupled_transportRead stop paddr hn).at_start hst

theorem coupled_loadSigned (h : K.Coupled s t) {addr addr' : ConcolicValue}
    (haddr : getValue addr' = getValue addr)
    (hclean : K.CleanWalks s t ((getValue addr).setWidth 64) .STORE) {n : Nat} (hn : 0 < n) :
    Lockstep stop (fun s' t' ↦ s' = s ∧ t' = t) (loadSigned addr n) (loadSigned addr' n)
      (fun a b s t ↦ K.value a b ∧ K.Coupled s t) K.Same :=
  Lockstep.bind (coupled_symbolicLoadData stop h haddr hclean hn) fun _ _ ↦
    Lockstep.ret fun _ _ hdata ↦ ⟨K.sext 32 hdata.1, hdata.2⟩

theorem coupled_loadUnsigned (h : K.Coupled s t) {addr addr' : ConcolicValue}
    (haddr : getValue addr' = getValue addr)
    (hclean : K.CleanWalks s t ((getValue addr).setWidth 64) .STORE) {n : Nat} (hn : 0 < n) :
    Lockstep stop (fun s' t' ↦ s' = s ∧ t' = t) (loadUnsigned addr n) (loadUnsigned addr' n)
      (fun a b s t ↦ K.value a b ∧ K.Coupled s t) K.Same :=
  Lockstep.bind (coupled_symbolicLoadData stop h haddr hclean hn) fun _ _ ↦
    Lockstep.ret fun _ _ hdata ↦ ⟨K.value_zextIf hdata.1 32, hdata.2⟩

theorem coupled_symbolicStoreData (h : K.Coupled s t) {addr addr' : ConcolicValue}
    (haddr : getValue addr' = getValue addr)
    (hclean : K.CleanWalks s t ((getValue addr).setWidth 64) .STORE)
    {data data' : Option ConcolicValue} (hdata : Option.Rel K.value data data') (n : Nat) :
    Lockstep stop (fun s' t' ↦ s' = s ∧ t' = t) (symbolicStoreData addr data n)
      (symbolicStoreData addr' data' n) K.Same K.Same := by
  unfold symbolicStoreData
  rw [haddr]
  refine Lockstep.bind (coupled_v2p stop h hclean) fun paddr paddr' ↦
    Lockstep.of_start fun s₁ t₁ hst ↦ ?_
  obtain ⟨rfl, hst⟩ := hst
  cases hdata with
  | none => exact Lockstep.raise_at ⟨rfl, hst⟩
  | some hab => exact (K.coupled_transportWrite stop paddr hab n).at_start hst

/-- The words that are fetched need not be the same. -/
theorem coupled_loadInstr (h : K.Coupled s t) {addr : BitVec 32}
    (hclean : K.CleanWalks s t (addr.setWidth 64) .FETCH) :
    Lockstep stop (fun s' t' ↦ s' = s ∧ t' = t) (loadInstr addr) (loadInstr addr)
      (fun _ _ ↦ K.Coupled) K.Same := by
  refine Lockstep.bind (coupled_v2p stop h hclean) fun paddr paddr' ↦
    Lockstep.of_start fun s₁ t₁ hst ↦ ?_
  obtain ⟨rfl, hst⟩ := hst
  refine Lockstep.bind (Q := fun _ _ ↦ K.Coupled) (Lockstep.bind
    ((K.coupled_transportRead stop paddr (by decide)).at_start hst) fun _ _ ↦
      Lockstep.ret fun _ _ h ↦ h.2) fun _ _ ↦ Lockstep.ret fun _ _ h ↦ h

end Translate

end Coupling

/-! ## Instructions -/

theorem forgetInstr_eq_error (e : Thrown) (s : State) : ∃ s', forgetInstr e s = .error e s' := by
  cases e with
  | trap reason mtval => exact ⟨_, rfl⟩
  | host error => exact ⟨_, rfl⟩

/-- The register operand that a CSR instruction writes, sets or clears. -/
def State.csrSource (s : State) : Opcode → Option (BitVec 32)
  | .CSRRW => some (getValue (s.regs s.rs1))
  | .CSRRS | .CSRRC => if s.rs1 ≠ RegFile.zero then some (getValue (s.regs s.rs1)) else none
  | _ => none

namespace Coupling

section Instructions

variable {K : Coupling} (stop : Thrown → Prop) {s t : State}

/-- The same instruction is executed when the words fetched decode to the same operation. -/
theorem coupled_fetch_decode (h : K.Coupled s t) (hC : s.csrs.hasCExtension = true)
    (hclean : K.CleanWalks s t (s.pc.setWidth 64) .FETCH)
    (hsame : ∀ word word', s.fetchedWord = some word → t.fetchedWord = some word' →
      decodeWord word' = decodeWord word ∧ instrLength word' = instrLength word) :
    Lockstep stop (fun s' t' ↦ s' = s ∧ t' = t) (do fetch; decode) (do fetch; decode) K.Same
      K.Same := by
  have hpc : t.pc = s.pc := h.same State.pc fun _ _ ↦ rfl
  have hrethrow : ∀ e s', stop e → ∃ e' s'', forgetInstr e s' = .error e' s'' ∧ stop e' := by
    intro e s' he
    obtain ⟨s'', heq⟩ := forgetInstr_eq_error e s'
    exact ⟨e, s'', heq, he⟩
  -- The words are remembered, as `hsame` speaks of the words that the two states fetch.
  let loaded : BitVec 32 → BitVec 32 → State → State → Prop := fun word word' s' t' ↦
    K.Coupled s' t' ∧ loadInstr s.pc s = .ok word s' ∧ loadInstr t.pc t = .ok word' t'
  let fetched : State → State → Prop := fun s' t' ↦ ∃ s₁ t₁, loaded s'.instr t'.instr s₁ t₁ ∧
    s' = { s₁ with instr := s'.instr } ∧ t' = { t₁ with instr := t'.instr }
  refine Lockstep.bind (Q := fun _ _ ↦ fetched) ?_ fun _ _ ↦ ?_
  · refine Lockstep.read_bind fun s' t' hst ↦ ?_
    obtain ⟨rfl, rfl⟩ := hst
    have halign : t'.pcAlignmentMask = s'.pcAlignmentMask :=
      h.same State.pcAlignmentMask fun _ _ ↦ rfl
    refine Lockstep.bind (Q := fun _ _ s t ↦ s = s' ∧ t = t') (Lockstep.ite (by rw [hpc, halign])
      (fun _ ↦ Lockstep.ret_at ⟨rfl, rfl⟩) fun _ ↦ Lockstep.raise_at ⟨rfl, h⟩) fun _ _ ↦ ?_
    refine Lockstep.bind (Q := loaded) (Lockstep.handle (F := K.Same) ?_ (fun e f ↦ ?_) hrethrow
      hrethrow) fun word word' ↦ Lockstep.update fun s₁ t₁ hload ↦ ⟨s₁, t₁, hload, rfl, rfl⟩
    · rw [hpc]
      have hload := Lockstep.remember (coupled_loadInstr stop h hclean)
      exact hload.post fun _ _ _ _ hrun ↦ ⟨hrun.1, hrun.2.1, hpc.symm ▸ hrun.2.2⟩
    · refine Lockstep.of_start fun s₁ t₁ hst ↦ ?_
      obtain ⟨rfl, hst⟩ := hst
      cases e with
      | host error => exact Lockstep.raise_at ⟨rfl, hst⟩
      | trap reason mtval =>
        refine Lockstep.bind (Q := fun _ _ ↦ K.Coupled) (Lockstep.update ?_) fun _ _ ↦
          Lockstep.raise fun _ _ h ↦ ⟨rfl, h⟩
        rintro _ _ ⟨rfl, rfl⟩
        obtain ⟨d, rfl, hd⟩ := hst
        exact ⟨d, rfl, hd⟩
  · refine Lockstep.of_start fun s₂ t₂ hfetched ↦ ?_
    obtain ⟨s₁, t₁, ⟨hst, hword, hword'⟩, hs₂, ht₂⟩ := hfetched
    obtain ⟨hdecode, hlength⟩ := hsame s₂.instr t₂.instr (by rw [State.fetchedWord, hword])
      (by rw [State.fetchedWord, hword'])
    obtain ⟨d, rfl, hd⟩ := hst
    have hC₁ : s₁.csrs.hasCExtension = true := by
      have hfetch : Fetched s s₁ :=
        (keeps_loadInstr (fetched_keptByMarks s) s.pc).of_ok (Fetched.refl s) hword
      rw [hfetch.csrs]
      exact hC
    refine Lockstep.of_triples (triple_decode s₂) (triple_decode t₂) ?_ ?_ ?_ ?_
    · rintro _ _ _ _ ⟨rfl, -⟩ ⟨rfl, -⟩
      refine ⟨rfl, d, ?_, ?_⟩
      · rw [State.decoded, State.decoded, hdecode, hlength, ht₂, hs₂]
        rfl
      · rw [hs₂]
        exact hd
    · rintro e f _ _ ⟨-, hno, -⟩ _
      rw [hs₂] at hno
      exact absurd (hC₁.symm.trans hno) (by decide)
    · rintro _ f _ _ _ ⟨-, hno, -⟩
      rw [ht₂] at hno
      exact absurd (hC₁.symm.trans hno) (by decide)
    · rintro e _ _ _ ⟨-, hno, -⟩ _
      rw [hs₂] at hno
      exact absurd (hC₁.symm.trans hno) (by decide)

theorem Coupled.registerResult (h : K.Coupled s t) (op : Opcode) :
    Option.Rel K.value (s.registerResult op) (t.registerResult op) := by
  have hregs := h.regs
  obtain ⟨d, rfl, -⟩ := h
  have hiImm : K.value s.iImm s.iImm := K.sext 32 (K.value_constant _)
  have hshamt : K.value (s.regs.shamt s.rs2) (d.regs.shamt s.rs2) :=
    K.zext 32 (K.extract 0 5 (hregs _))
  unfold State.registerResult
  split
  case h_1 | h_2 | h_3 | h_4 | h_5 | h_6 => exact .some (K.binaryOperator _ (hregs _) hiImm)
  case h_9 | h_12 | h_13 => exact .some (K.binaryOperator _ (hregs _) hshamt)
  case h_17 | h_18 | h_19 =>
    exact .some (K.binaryOperator _ (hregs _) (K.value_constant _))
  case h_20 => exact .some (K.value_constant _)
  case h_21 => exact .some (K.binaryOperator _ (K.value_constant _) (K.value_constant _))
  case h_22 => exact .none
  all_goals exact .some (K.binaryOperator _ (hregs _) (hregs _))

theorem Coupled.branchResult (h : K.Coupled s t) (op : Opcode) :
    Option.Rel K.value (s.branchResult op) (t.branchResult op) := by
  have hregs := h.regs
  obtain ⟨d, rfl, -⟩ := h
  unfold State.branchResult
  split
  case h_7 => exact .none
  all_goals exact .some (K.binaryOperator _ (hregs _) (hregs _))

theorem coupled_execStore (h : K.Coupled s t) (alignment n : Nat)
    (haddr : getValue ((t.regs t.rs1).add t.sImm) = getValue ((s.regs s.rs1).add s.sImm))
    (hclean : K.CleanWalks s t ((getValue ((s.regs s.rs1).add s.sImm)).setWidth 64) .STORE) :
    Lockstep stop (fun s' t' ↦ s' = s ∧ t' = t)
      (execStore alignment fun addr value ↦ symbolicStoreData addr (some value) n)
      (execStore alignment fun addr value ↦ symbolicStoreData addr (some value) n)
      K.Same K.Same := by
  refine Lockstep.read_bind fun s' t' hst ↦ ?_
  obtain ⟨rfl, rfl⟩ := hst
  refine Lockstep.bind (Q := fun _ _ s t ↦ s = s' ∧ t = t') ?_ fun _ _ ↦
    coupled_symbolicStoreData stop h haddr hclean (.some ?_) n
  · unfold trapCheckAddrAlignment
    rw [haddr]
    exact Lockstep.ite Iff.rfl (fun _ ↦ Lockstep.raise_at ⟨rfl, h⟩) fun _ ↦
      Lockstep.ret_at ⟨rfl, rfl⟩
  · have hregs := h.regs s'.rs2
    obtain ⟨d, rfl, -⟩ := h
    exact hregs

/-! ### CSR instructions -/

theorem coupled_writeOldValue (old : BitVec 32) :
    Lockstep stop K.Coupled (writeOldValue old) (writeOldValue old) K.Same K.Same := by
  refine Lockstep.read_bind fun s t h ↦ ?_
  have hrd : t.rd = s.rd := h.same State.rd fun _ _ ↦ rfl
  rw [hrd]
  refine Lockstep.ite Iff.rfl (fun _ ↦ Lockstep.update ?_) fun _ ↦ Lockstep.ret_at ⟨rfl, h⟩
  rintro _ _ ⟨rfl, rfl⟩
  exact ⟨rfl, h.writeReg _ (K.value_constant old)⟩

/-- Whether a write traps does not depend on what is written. -/
theorem coupled_setCsrValue (addr : Nat) (value value' : BitVec 32) :
    Lockstep stop K.Coupled (setCsrValue addr value) (setCsrValue addr value')
      (fun _ _ s t ↦ value = value' → K.Coupled s t) K.Same := by
  by_cases heq : value = value'
  · rw [heq]
    exact ((blind_setCsrValue addr value').coupled K stop).post fun _ _ _ _ h _ ↦ h.2
  have hwritten : ∀ {f g : State → State} {s t : State}, Lockstep stop
      (fun s' t' ↦ s' = s ∧ t' = t) (modify f) (modify g)
      (fun _ _ s t ↦ value = value' → K.Coupled s t) K.Same :=
    fun {f g s t} ↦ Lockstep.update fun _ _ _ h ↦ absurd h heq
  refine Lockstep.read_bind fun s t h ↦ ?_
  have hcsrs : t.csrs = s.csrs := h.same State.csrs fun _ _ ↦ rfl
  have halign : t.pcAlignmentMask = s.pcAlignmentMask :=
    h.same State.pcAlignmentMask fun _ _ ↦ rfl
  rw [hcsrs, halign]
  split
  · exact hwritten
  split
  case h_1 => exact Lockstep.ret_at fun _ ↦ h
  case h_2 =>
    exact Lockstep.bind ((blind_raiseIllegalInstructionIf.coupled K stop).at_start h) fun _ _ ↦
      Lockstep.update fun _ _ _ h ↦ absurd h heq
  case h_3 | h_4 => exact hwritten
  case h_5 =>
    refine Lockstep.ite Iff.rfl (fun _ ↦ Lockstep.ret_at fun _ ↦ h) fun _ ↦ ?_
    unfold defaultWrite32
    split
    · exact hwritten
    · exact (blind_raiseIllegalInstruction.coupled K stop).at_start h |>.post fun _ _ _ _ h _ ↦ h.2

theorem coupled_csrReadWrite (env : Env) (value value' : BitVec 32) :
    Lockstep stop K.Coupled (csrReadWrite env value) (csrReadWrite env value')
      (fun _ _ s t ↦ value = value' → K.Coupled s t) K.Same := by
  refine Lockstep.read_bind fun s t h ↦ ?_
  have hinstr : t.instr = s.instr := h.same State.instr fun _ _ ↦ rfl
  have hrd : t.rd = s.rd := h.same State.rd fun _ _ ↦ rfl
  rw [hinstr, hrd]
  refine Lockstep.bind (((blind_isInvalidCsrAccess _ _).coupled K stop).at_start h) fun _ _ ↦
    Lockstep.of_start fun s₁ t₁ hst ↦ ?_
  obtain ⟨rfl, hst⟩ := hst
  refine Lockstep.ite Iff.rfl (fun _ ↦ ?_) fun _ ↦ Lockstep.ite Iff.rfl (fun _ ↦ ?_) fun _ ↦ ?_
  · exact (blind_raiseIllegalInstruction.coupled K stop).at_start hst |>.post
      fun _ _ _ _ h _ ↦ h.2
  · refine Lockstep.bind (((blind_getCsrValue env _).coupled K stop).at_start hst) fun _ _ ↦
      Lockstep.of_start fun s₂ t₂ hst ↦ ?_
    obtain ⟨rfl, hst⟩ := hst
    exact Lockstep.bind ((coupled_writeOldValue stop _).at_start hst) fun _ _ ↦
      (coupled_setCsrValue stop _ value value').pre fun _ _ h ↦ h.2
  · exact (coupled_setCsrValue stop _ value value').at_start hst

theorem coupled_csrReadModify (env : Env) (write : Bool) (update update' : BitVec 32 → BitVec 32) :
    Lockstep stop K.Coupled (csrReadModify env write update) (csrReadModify env write update')
      (fun _ _ s t ↦ (write = true → update = update') → K.Coupled s t) K.Same := by
  refine Lockstep.read_bind fun s t h ↦ ?_
  have hinstr : t.instr = s.instr := h.same State.instr fun _ _ ↦ rfl
  rw [hinstr]
  refine Lockstep.bind (((blind_isInvalidCsrAccess _ _).coupled K stop).at_start h) fun _ _ ↦
    Lockstep.of_start fun s₁ t₁ hst ↦ ?_
  obtain ⟨rfl, hst⟩ := hst
  refine Lockstep.ite Iff.rfl (fun _ ↦ ?_) fun _ ↦ ?_
  · exact (blind_raiseIllegalInstruction.coupled K stop).at_start hst |>.post
      fun _ _ _ _ h _ ↦ h.2
  · refine Lockstep.bind (((blind_getCsrValue env _).coupled K stop).at_start hst) fun old _ ↦
      Lockstep.of_start fun s₂ t₂ hst ↦ ?_
    obtain ⟨rfl, hst⟩ := hst
    refine Lockstep.bind ((coupled_writeOldValue stop _).at_start hst) fun _ _ ↦
      Lockstep.ite Iff.rfl (fun hwrite ↦ ?_) fun _ ↦ Lockstep.ret fun _ _ h _ ↦ h.2
    refine (coupled_setCsrValue stop _ (update old) (update' old)).conseq (fun _ _ h ↦ h.2)
      (fun _ _ _ _ h hupdate ↦ h ?_) fun _ _ _ _ h ↦ h
    rw [hupdate hwrite]

/-- A CSR instruction does the same in coupled states, if the operands it writes are the same. -/
theorem coupled_execCsr (h : K.Coupled s t) (env : Env) (op : Opcode) :
    Lockstep stop (fun s' t' ↦ s' = s ∧ t' = t) (execCsr env op) (execCsr env op)
      (fun _ _ s' t' ↦ s.csrSource op = t.csrSource op → K.Coupled s' t') K.Same := by
  refine Lockstep.read_bind fun s' t' hst ↦ ?_
  obtain ⟨rfl, rfl⟩ := hst
  have hrs1 : t'.rs1 = s'.rs1 := h.same State.rs1 fun _ _ ↦ rfl
  have hinstr : t'.instr = s'.instr := h.same State.instr fun _ _ ↦ rfl
  have hmodify : ∀ (f : BitVec 32 → BitVec 32 → BitVec 32) (op : Opcode),
      (∀ s : State, s.csrSource op =
        if s.rs1 ≠ RegFile.zero then some (getValue (s.regs s.rs1)) else none) →
      Lockstep stop (fun s t ↦ s = s' ∧ t = t')
        (csrReadModify env (s'.rs1 ≠ RegFile.zero) (f (getValue (s'.regs s'.rs1))))
        (csrReadModify env (s'.rs1 ≠ RegFile.zero) (f (getValue (t'.regs s'.rs1))))
        (fun _ _ s t ↦ s'.csrSource op = t'.csrSource op → K.Coupled s t) K.Same := by
    intro f op hop
    refine ((coupled_csrReadModify stop env _ _ _).at_start h).post fun _ _ _ _ h hsource ↦ h ?_
    intro hwrite
    have hne : s'.rs1 ≠ RegFile.zero := of_decide_eq_true hwrite
    rw [hop, hop, hrs1, if_pos hne, if_pos hne] at hsource
    rw [Option.some.inj hsource]
  have himm : ∀ (write : Bool) (update : BitVec 32 → BitVec 32) (op : Opcode),
      Lockstep stop (fun s t ↦ s = s' ∧ t = t') (csrReadModify env write update)
        (csrReadModify env write update)
        (fun _ _ s t ↦ s'.csrSource op = t'.csrSource op → K.Coupled s t) K.Same :=
    fun write update op ↦ ((coupled_csrReadModify stop env _ _ _).at_start h).post
      fun _ _ _ _ h _ ↦ h fun _ ↦ rfl
  dsimp only
  rw [hrs1, hinstr]
  split
  case h_1 =>
    refine ((coupled_csrReadWrite stop env _ _).at_start h).post fun _ _ _ _ h hsource ↦ h ?_
    rw [State.csrSource, State.csrSource, hrs1] at hsource
    exact Option.some.inj hsource
  case h_2 => exact hmodify (fun rs1 old ↦ old ||| rs1) .CSRRS fun _ ↦ rfl
  case h_3 => exact hmodify (fun rs1 old ↦ old &&& ~~~rs1) .CSRRC fun _ ↦ rfl
  case h_4 =>
    exact ((coupled_csrReadWrite stop env _ _).at_start h).post fun _ _ _ _ h _ ↦ h rfl
  case h_5 => exact himm _ _ _
  case h_6 => exact himm _ _ _

end Instructions

/-! ## Steps -/

section Steps

variable {K : Coupling} {stop : Thrown → Prop} {R : State → State → Prop} {s t : State}

theorem Coupled.finishStep (h : K.Coupled s t) :
    K.Coupled s.finishStep.updatePerformance t.finishStep.updatePerformance := by
  obtain ⟨d, rfl, hd⟩ := h
  exact ⟨_, rfl, hd.write RegFile.zero (K.value_constant _)⟩

/-- A step in coupled states, whose instructions and interrupts lead to states related by `R`. -/
theorem coupled_stepWith (h : K.Coupled s t)
    (hzero : getValue (t.regs RegFile.zero) = getValue (s.regs RegFile.zero))
    (hstop : ∀ e s', stop e → ∃ e' s'', takeTrap e s' = .error e' s'' ∧ stop e')
    (hR : ∀ s t, K.Coupled s t → R s t)
    (hfinish : ∀ s t, R s t → R s.finishStep.updatePerformance t.finishStep.updatePerformance)
    {exec exec' : IssM Unit}
    (hexec : ¬ (s.debugMode = true ∧ s.breakpoints s.pc = true) →
      Lockstep stop (fun s' t' ↦ s' = s.started ∧ t' = t.started) (do exec; takePendingInterrupt)
        (do exec'; takePendingInterrupt) (fun _ _ ↦ R) K.Same) :
    Lockstep stop (fun s' t' ↦ s' = s ∧ t' = t) (stepWith exec) (stepWith exec') (fun _ _ ↦ R)
      K.Same := by
  refine Lockstep.read_bind fun s' t' hst ↦ ?_
  obtain ⟨rfl, rfl⟩ := hst
  have hstarted : K.Coupled s'.started t'.started := by
    obtain ⟨d, rfl, hd⟩ := h
    exact ⟨d, rfl, hd⟩
  have hbreak : (t'.debugMode = true ∧ t'.breakpoints t'.pc = true) =
      (s'.debugMode = true ∧ s'.breakpoints s'.pc = true) :=
    h.same (fun s ↦ s.debugMode = true ∧ s.breakpoints s.pc = true) fun _ _ ↦ rfl
  refine Lockstep.bind (Q := fun _ _ s t ↦ s = s' ∧ t = t') (Lockstep.ite (by rw [hzero])
    (fun _ ↦ Lockstep.ret_at ⟨rfl, rfl⟩) fun _ ↦ Lockstep.raise_at ⟨rfl, h⟩) fun _ _ ↦ ?_
  refine Lockstep.ite (by rw [hbreak]) (fun _ ↦ Lockstep.update ?_) fun hrun ↦ ?_
  · rintro _ _ ⟨rfl, rfl⟩
    apply hR
    obtain ⟨d, rfl, hd⟩ := h
    exact ⟨d, rfl, hd⟩
  refine Lockstep.bind (Q := fun _ _ s t ↦ s = s'.started ∧ t = t'.started)
    (Lockstep.update ?_) fun _ _ ↦ ?_
  · rintro _ _ ⟨rfl, rfl⟩
    exact ⟨rfl, rfl⟩
  refine Lockstep.bind (Q := fun _ _ ↦ R) (Lockstep.handle (hexec hrun) (fun e f ↦ ?_) hstop hstop)
    fun _ _ ↦ Lockstep.update fun s t hst ↦ hfinish s t hst
  refine Lockstep.of_start fun s₁ t₁ hst ↦ ?_
  obtain ⟨rfl, hst⟩ := hst
  exact (((blind_takeTrap e).coupled K stop).at_start hst).post fun _ _ _ _ h ↦ hR _ _ h.2

/-- A step that returns found `x0` to be zero. -/
theorem zero_of_stepWith {exec : IssM Unit} {s' : State} (h : stepWith exec s = .ok () s') :
    getValue (s.regs RegFile.zero) = 0#32 := by
  by_contra hne
  have herror : stepWith exec s = .error (.host (.assertion .zeroRegister)) s := by
    have hensure : ensure .zeroRegister (getValue (s.regs RegFile.zero) = 0#32) s =
        .error (.host (.assertion .zeroRegister)) s := by
      rw [ensure, if_neg hne]
      rfl
    change EStateM.bind (ensure .zeroRegister (getValue (s.regs RegFile.zero) = 0#32)) _ s = _
    rw [EStateM.bind, hensure]
  rw [herror] at h
  cases h

end Steps

end Coupling

end CoverageVP.Iss
