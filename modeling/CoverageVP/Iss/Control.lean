import CoverageVP.Iss.FrontEnd

/-!
# The control state

The control and status registers, the privilege level and the program counter under an instruction.
A write of the guest changes the bits of one register that its address allows; which register and
which bits is a table, and what a mode can change is read off that table. Every instruction but a
return from a trap handler keeps each property of the registers that permitted writes keep.
-/

namespace CoverageVP.Iss

open Lib Clover Instr Csr

/-! ## Even addresses -/

theorem even_iff (x : BitVec 32) : x &&& 1#32 = 0#32 ↔ x.toNat % 2 = 0 := by
  rw [BitVec.toNat_eq, BitVec.toNat_and]
  change x.toNat &&& 1 = 0 ↔ _
  rw [Nat.and_one_is_mod]

theorem even_add {x y : BitVec 32} (hx : x &&& 1#32 = 0#32) (hy : y &&& 1#32 = 0#32) :
    (x + y) &&& 1#32 = 0#32 := by
  rw [even_iff] at hx hy ⊢
  rw [BitVec.toNat_add]
  omega

theorem aligned_iff (x : BitVec 32) : x &&& 3#32 = 0#32 ↔ x.toNat % 4 = 0 := by
  rw [BitVec.toNat_eq, BitVec.toNat_and]
  change x.toNat &&& 2 ^ 2 - 1 = 0 ↔ _
  rw [Nat.and_two_pow_sub_one_eq_mod]

theorem aligned_add {x y : BitVec 32} (hx : x &&& 3#32 = 0#32) (hy : y &&& 3#32 = 0#32) :
    (x + y) &&& 3#32 = 0#32 := by
  rw [aligned_iff] at hx hy ⊢
  rw [BitVec.toNat_add]
  omega

theorem even_of_getLsbD {x : BitVec 32} (h : x.getLsbD 0 = false) : x &&& 1#32 = 0#32 := by
  rw [BitVec.and_one_eq_setWidth_ofBool_getLsbD, h]
  rfl

theorem even_jImm (instr : Instruction) : instr.jImm &&& 1#32 = 0#32 := by
  apply even_of_getLsbD
  simp only [Instruction.jImm, BitVec.getLsbD_or, BitVec.getLsbD_sshiftRight, bitSingle,
    getLsbD_bitRange _ (show 12 ≤ 19 by decide), getLsbD_bitRange _ (show 21 ≤ 30 by decide)]
  simp

theorem even_bImm (instr : Instruction) : instr.bImm &&& 1#32 = 0#32 := by
  apply even_of_getLsbD
  simp only [Instruction.bImm, BitVec.getLsbD_or, BitVec.getLsbD_sshiftRight, bitSingle,
    getLsbD_bitRange _ (show 25 ≤ 30 by decide), getLsbD_bitRange _ (show 8 ≤ 11 by decide)]
  simp

theorem even_and_not_one (x : BitVec 32) : (x &&& ~~~1#32) &&& 1#32 = 0#32 := by
  rw [BitVec.and_assoc]
  simp

/-! ## What an address can write -/

/-- The register that an address writes and the bits of it, if there is any. -/
def Csr.writable (pcAlignmentMask : BitVec 32) (addr : Nat) : Option (CsrReg × BitVec 32) :=
  match writeMask pcAlignmentMask addr with
  | some p => some p
  | none =>
    match addr with
    | MISA_ADDR => none
    | SATP_ADDR => some (.satp, SATP_MASK)
    | FFLAGS_ADDR => some (.fcsr, 0x1f#32)
    | FRM_ADDR => some (.fcsr, 0xe0#32)
    | _ =>
      if isDebug addr || isHpmCounter addr then none
      else (registerAt addr).map fun r ↦ (r, BitVec.allOnes 32)

/-- The registers that only machine mode can write, `misa` included. -/
def CsrReg.isMachineLevel : CsrReg → Bool
  | .mtvec | .mepc | .mcause | .mtval | .mscratch | .medeleg | .mideleg | .mcounteren
  | .mcountinhibit | .pmpaddr _ | .pmpcfg _ | .misa => true
  | _ => false

/-- The bits of a register that lower modes can write. -/
def CsrReg.lowerMask : CsrReg → BitVec 32
  | .mstatus => SSTATUS_MASK
  | .mie => SIE_MASK
  | .mip => SIP_MASK
  | r => if r.isMachineLevel then 0#32 else BitVec.allOnes 32

/-- What an address can write: below machine mode, in `mepc`, in `mie` and in `mstatus`. -/
structure Csr.Permitted (pcAlignmentMask : BitVec 32) (addr : Nat) (r : CsrReg) (mask : BitVec 32) :
    Prop where
  lower : csrPrivilege addr < MachineMode → mask &&& ~~~r.lowerMask = 0#32
  misa : r ≠ .misa
  mepc : r = .mepc → mask = pcAlignmentMask
  mie : r = .mie → mask &&& ~~~MIE_MASK = 0#32
  mstatus : r = .mstatus → addr ≠ MSTATUS_ADDR → mask &&& ~~~SSTATUS_MASK = 0#32

theorem permitted_of_writeMask {m : BitVec 32} {addr : Nat} {r : CsrReg} {mask : BitVec 32}
    (h : writeMask m addr = some (r, mask)) : Permitted m addr r mask := by
  unfold writeMask at h
  split at h <;> cases h
  case h_4.refl =>
    exact ⟨fun hp ↦ absurd hp (by decide), by decide, fun _ ↦ rfl, nofun, nofun⟩
  case h_5.refl | h_6.refl =>
    refine ⟨fun _ ↦ ?_, by decide, nofun, nofun, nofun⟩
    simp [CsrReg.lowerMask, CsrReg.isMachineLevel]
  all_goals exact ⟨by decide, by decide, nofun, by decide, by decide⟩

theorem permitted_of_registerAt {m : BitVec 32} {addr : Nat} {r : CsrReg}
    (h : registerAt addr = some r) (hmasked : writeMask m addr = none) (hmisa : addr ≠ MISA_ADDR) :
    Permitted m addr r (BitVec.allOnes 32) := by
  have hall : ∀ p ∈ registerMapping,
      (csrPrivilege p.1 < MachineMode → BitVec.allOnes 32 &&& ~~~p.2.lowerMask = 0#32) ∧
        (p.2 = .misa → p.1 = MISA_ADDR) ∧ (p.2 = .mepc → p.1 = MEPC_ADDR) ∧
        (p.2 = .mie → p.1 = MIE_ADDR) ∧ (p.2 = .mstatus → p.1 = MSTATUS_ADDR) := by
    decide +kernel
  have hmem : (addr, r) ∈ registerMapping := by
    obtain ⟨_, _, hsplit, -⟩ := List.lookup_eq_some_iff.mp h
    simp [hsplit]
  obtain ⟨hlower, hr, hepc, hmie, hmstatus⟩ := hall _ hmem
  refine ⟨hlower, fun h ↦ hmisa (hr h), fun h ↦ ?_, fun h ↦ ?_, fun h ↦ absurd (hmstatus h)⟩
  · obtain rfl : addr = MEPC_ADDR := hepc h
    cases hmasked
  · obtain rfl : addr = MIE_ADDR := hmie h
    cases hmasked

theorem permitted_of_writable {m : BitVec 32} {addr : Nat} {r : CsrReg} {mask : BitVec 32}
    (h : writable m addr = some (r, mask)) : Permitted m addr r mask := by
  unfold writable at h
  split at h
  case h_1 p hp => exact permitted_of_writeMask (hp.trans h)
  case h_2 hnone =>
    split at h
    case h_1 => cases h
    case h_5 hmisa _ _ _ =>
      split at h
      · cases h
      · obtain ⟨r', hr', heq⟩ := Option.map_eq_some_iff.mp h
        cases heq
        exact permitted_of_registerAt hr' hnone hmisa
    all_goals
      cases h
      exact ⟨by decide, by decide, nofun, by decide, by decide⟩

/-! ## Reads and writes -/

theorem maskedWrite_allOnes (old value : BitVec 32) :
    maskedWrite old (BitVec.allOnes 32) value = value := by
  rw [maskedWrite, BitVec.not_allOnes, BitVec.and_zero, BitVec.zero_or, BitVec.and_allOnes]

theorem setField_eq_maskedWrite (old : BitVec 32) (start : Nat) {len : Nat} (x : BitVec len) :
    setField old start x =
      maskedWrite old ((BitVec.allOnes len).setWidth 32 <<< start) (x.setWidth 32 <<< start) := by
  rw [setField, maskedWrite, ← BitVec.shiftLeft_and_distrib, ← BitVec.setWidth_and,
    BitVec.and_allOnes]

section Access

variable {I : State → Prop}

/-- The registers that count time and instructions. -/
def CsrReg.isCounter : CsrReg → Bool
  | .cycle | .cycleh | .time | .timeh | .instret | .instreth => true
  | _ => false

/-- Two tables that differ in the counters only. -/
def CsrTable.EqUpToCounters (csrs csrs' : CsrTable) : Prop :=
  ∀ r, r.isCounter = false → csrs' r = csrs r

theorem CsrTable.eqUpToCounters_set64 (csrs : CsrTable) {low high : CsrReg} (value : BitVec 64)
    (hlow : low.isCounter = true) (hhigh : high.isCounter = true) :
    csrs.EqUpToCounters (csrs.set64 low high value) := by
  intro r hr
  have hne : ∀ {r' : CsrReg}, r'.isCounter = true → r ≠ r' := by
    intro r' hr' heq
    rw [heq, hr'] at hr
    cases hr
  rw [CsrTable.set64, CsrTable.set_of_ne _ _ (hne hhigh), CsrTable.set_of_ne _ _ (hne hlow)]

/-- An invariant that does not depend on the counters. -/
def IgnoresCounters (I : State → Prop) : Prop :=
  ∀ s csrs n, s.csrs.EqUpToCounters csrs → I s → I { s with csrs := csrs, mtimeReads := n }

/-- A read updates counters only. -/
theorem keeps_getCsrValue_of_updates {env : Env} (htime : Keeps I (updateTime env))
    (hcycle : Keeps I updateCycle) (addr : Nat) : Keeps I (getCsrValue env addr) := by
  have hread : ∀ r, Keeps I (readCsr r) := fun r ↦ Keeps.read_bind fun _ _ ↦ Keeps.ret _
  have hdefault : Keeps I (defaultRead32 addr) := by
    unfold defaultRead32
    split
    · exact Keeps.read_bind fun _ _ ↦ Keeps.ret _
    · exact keeps_raiseIllegalInstruction
  have hvalidate : Keeps I (validateCsrCounterReadAccessRights addr) :=
    Keeps.read_bind fun _ _ ↦ keeps_raiseIllegalInstructionIf
  refine Keeps.bind hvalidate fun _ ↦ ?_
  split
  · exact Keeps.bind (hread _) fun _ ↦ Keeps.ret _
  split
  case h_1 | h_2 | h_3 | h_4 => exact Keeps.bind htime fun _ ↦ hread _
  case h_5 | h_6 => exact Keeps.bind hcycle fun _ ↦ hread _
  case h_7 | h_8 => exact hread _
  case h_9 =>
    exact Keeps.read_bind fun _ _ ↦ Keeps.bind keeps_raiseIllegalInstructionIf fun _ ↦ hdefault
  case h_10 | h_11 => exact Keeps.read_bind fun _ _ ↦ Keeps.ret _
  case h_12 => exact Keeps.ret _
  case h_13 =>
    split
    · exact Keeps.ret _
    · exact hdefault

theorem keeps_getCsrValue (hI : IgnoresCounters I) (env : Env) (addr : Nat) :
    Keeps I (getCsrValue env addr) := by
  refine keeps_getCsrValue_of_updates (Keeps.update fun s hs ↦ ?_) (Keeps.update fun s hs ↦ ?_) addr
  · exact hI s _ _ (s.csrs.eqUpToCounters_set64 _ rfl rfl) hs
  · exact hI s _ s.mtimeReads (s.csrs.eqUpToCounters_set64 _ rfl rfl) hs

/-- A write changes writable bits of the register of its address. -/
theorem keeps_setCsrValue {addr : Nat}
    (hI : ∀ s r mask value, I s → writable s.pcAlignmentMask addr = some (r, mask) →
      I (s.setCsr r (maskedWrite (s.csrs r) mask value))) (value : BitVec 32) :
    Keeps I (setCsrValue addr value) := by
  refine Triple.read_bind fun s hs ↦ ?_
  split
  case h_1 r mask hmask =>
    refine Triple.update fun s' h ↦ ?_
    rw [h]
    exact hI s r mask value hs (by simp only [writable, hmask])
  case h_2 hnone =>
    split
    case h_1 => exact Triple.ret fun _ h ↦ h ▸ hs
    case h_2 =>
      refine Triple.bind (Q := fun _ s' ↦ s' = s) ?_ fun _ ↦ Triple.update fun s' h ↦ ?_
      · exact triple_raiseIllegalInstructionIf (fun _ h _ ↦ h) fun _ h _ ↦ h ▸ hs
      · rw [h]
        exact hI s _ _ _ hs rfl
    case h_3 =>
      refine Triple.update fun s' h ↦ ?_
      rw [h, setField_eq_maskedWrite]
      exact hI s _ _ _ hs rfl
    case h_4 =>
      refine Triple.update fun s' h ↦ ?_
      rw [h, setField_eq_maskedWrite]
      exact hI s _ _ _ hs rfl
    case h_5 hmisa hsatp hfflags hfrm =>
      split
      case isTrue => exact Triple.ret fun _ h ↦ h ▸ hs
      case isFalse hplain =>
        unfold defaultWrite32
        split
        case h_1 r hr =>
          refine Triple.update fun s' h ↦ ?_
          rw [h, ← maskedWrite_allOnes (s.csrs r) value]
          refine hI s _ _ _ hs ?_
          simp only [writable, hnone, hplain, hr]
          rfl
        case h_2 => exact triple_raiseIllegalInstruction fun _ h ↦ h ▸ hs

/-- A CSR instruction accesses one register and saves its old value. -/
theorem keeps_execCsr {env : Env} (hget : ∀ addr, Keeps I (getCsrValue env addr))
    (hset : ∀ addr value, Keeps I (setCsrValue addr value))
    (hreg : ∀ s index old, I s → I (s.writeReg index (constant old))) (op : Opcode) :
    Keeps I (execCsr env op) := by
  have hold : ∀ old, Keeps I (writeOldValue old) := fun old ↦
    Keeps.read_bind fun _ _ ↦ Keeps.ite (Keeps.update fun s hs ↦ hreg s _ _ hs) (Keeps.ret _)
  have hinvalid : ∀ addr w, Keeps I (isInvalidCsrAccess addr w) := fun addr w ↦
    Keeps.read_bind fun _ _ ↦ Keeps.bind keeps_raiseIllegalInstructionIf fun _ ↦ Keeps.ret _
  have hwrite : ∀ value, Keeps I (csrReadWrite env value) := fun value ↦
    Keeps.read_bind fun _ _ ↦ Keeps.bind (hinvalid _ _) fun _ ↦
      Keeps.ite keeps_raiseIllegalInstruction (Keeps.ite (Keeps.bind (hget _) fun _ ↦
        Keeps.bind (hold _) fun _ ↦ hset _ _) (hset _ _))
  have hmodify : ∀ w update, Keeps I (csrReadModify env w update) := fun w update ↦
    Keeps.read_bind fun _ _ ↦ Keeps.bind (hinvalid _ _) fun _ ↦
      Keeps.ite keeps_raiseIllegalInstruction (Keeps.bind (hget _) fun _ ↦
        Keeps.bind (hold _) fun _ ↦ Keeps.ite (hset _ _) (Keeps.ret _))
  refine Keeps.read_bind fun s _ ↦ ?_
  dsimp only
  split
  case h_1 | h_4 => exact hwrite _
  all_goals exact hmodify _ _

end Access

theorem triple_isInvalidCsrAccess (s : State) (addr : Nat) (isWrite : Bool) :
    Triple (· = s) (isInvalidCsrAccess addr isWrite)
      (fun invalid s' ↦ s' = s ∧ invalid = s.csrAccessInvalid addr isWrite) (fun _ s' ↦ s' = s) := by
  refine Triple.read_bind fun s' hs' ↦
    Triple.bind (Q := fun _ s'' ↦ s'' = s) ?_ fun _ ↦ Triple.ret fun s'' h ↦ ⟨h, hs' ▸ rfl⟩
  exact triple_raiseIllegalInstructionIf (fun _ h _ ↦ h.trans hs') fun _ h _ ↦ h.trans hs'

theorem csrPrivilege_le_of_valid {s : State} {addr : Nat} {isWrite : Bool}
    (h : s.csrAccessInvalid addr isWrite = false) : csrPrivilege addr ≤ s.prv := by
  simp only [State.csrAccessInvalid, Bool.or_eq_false_iff, decide_eq_false_iff_not,
    Nat.not_lt] at h
  exact h.1.1.2

/-! ## Properties of the control state -/

/-- A property of the registers and the mode that permitted writes to the addresses of `A` keep. -/
structure CsrClosed (A : Nat → Prop) (K : CsrTable → Nat → Prop) : Prop where
  counter : ∀ {csrs csrs' prv}, csrs.EqUpToCounters csrs' → K csrs prv → K csrs' prv
  write : ∀ {csrs prv addr r mask} value, A addr → csrPrivilege addr ≤ prv →
    writable csrs.pcAlignmentMask addr = some (r, mask) → K csrs prv →
    K (csrs.set r (maskedWrite (csrs r) mask value)) prv

/-- The bits of an address that alignment requires to be zero: one bit, or two if compressed
instructions are missing. -/
def AlignedBy (K : CsrTable → Nat → Prop) (al : BitVec 32) : Prop :=
  al = 1#32 ∨ al = 3#32 ∧ ∀ {csrs prv}, K csrs prv → csrs.hasCExtension = false

/-- The property holds and the address of the instruction is aligned. -/
structure Steady (K : CsrTable → Nat → Prop) (al : BitVec 32) (s : State) : Prop where
  csrs : K s.csrs s.prv
  lastPc : s.lastPc &&& al = 0#32

/-- The next address is aligned, too. -/
structure Control (K : CsrTable → Nat → Prop) (al : BitVec 32) (s : State) : Prop
    extends Steady K al s where
  pc : s.pc &&& al = 0#32

/-- The program keeps the control state; an exception may leave a misaligned program counter. -/
def Controls {α : Type} (K : CsrTable → Nat → Prop) (al : BitVec 32) (m : IssM α) : Prop :=
  Triple (Control K al) m (fun _ ↦ Control K al) fun _ ↦ Steady K al

section Walk

variable {K : CsrTable → Nat → Prop} {al : BitVec 32} {α β : Type}

theorem Controls.of_keeps {m : IssM α} (h : Keeps (Control K al) m) : Controls K al m :=
  h.conseq (fun _ h ↦ h) (fun _ _ h ↦ h) fun _ _ h ↦ h.toSteady

theorem Controls.bind {m : IssM α} {f : α → IssM β} (hm : Controls K al m)
    (hf : ∀ a, Controls K al (f a)) : Controls K al (m >>= f) :=
  Triple.bind hm hf

theorem Controls.ret (a : α) : Controls K al (pure a) := Triple.ret fun _ h ↦ h

theorem Controls.read_bind {f : State → IssM β}
    (hf : ∀ s, Control K al s → Controls K al (f s)) : Controls K al (get >>= f) :=
  Triple.read_bind fun s hs ↦ Triple.pre (hf s hs) fun _ h ↦ h ▸ hs

theorem control_ignoresMemory : IgnoresMemory (Control K al) where
  mem := fun _ _ h ↦ ⟨⟨h.csrs, h.lastPc⟩, h.pc⟩
  mmu := fun _ _ h ↦ ⟨⟨h.csrs, h.lastPc⟩, h.pc⟩

theorem keeps_writeReg (index : BitVec 5) (value : ConcolicValue) :
    Keeps (Control K al) (modify (·.writeReg index value) : IssM Unit) :=
  Keeps.update fun _ h ↦ ⟨⟨h.csrs, h.lastPc⟩, h.pc⟩

theorem control_writeOldValue (old : BitVec 32) : Keeps (Control K al) (writeOldValue old) := by
  refine Keeps.read_bind fun s _ ↦ ?_
  split
  · exact keeps_writeReg _ _
  · exact Keeps.ret _

/-- The rest of a CSR instruction runs under the privilege that its address requires. -/
theorem control_of_valid {addr : Nat} {isWrite : Bool} {f : Bool → IssM α}
    (htrue : Keeps (Control K al) (f true))
    (hfalse : ∀ prv, csrPrivilege addr ≤ prv →
      Keeps (Control (fun csrs prv' ↦ K csrs prv' ∧ prv' = prv) al) (f false)) :
    Keeps (Control K al) (isInvalidCsrAccess addr isWrite >>= f) := by
  intro s hs
  have hcheck := triple_isInvalidCsrAccess s addr isWrite
  refine Triple.bind (hcheck.conseq (fun _ h ↦ h) (fun _ _ h ↦ h) fun _ _ h ↦ h ▸ hs)
    (fun invalid ↦ ?_) s rfl
  cases invalid with
  | true => exact Triple.pre htrue fun _ h ↦ h.1 ▸ hs
  | false =>
    intro s' h
    have hp : csrPrivilege addr ≤ s.prv := csrPrivilege_le_of_valid h.2.symm
    refine Keeps.strengthen (P := (· = s)) (hfalse s.prv hp) (fun s'' h'' ↦ ?_)
      (fun _ h ↦ ⟨⟨h.csrs.1, h.lastPc⟩, h.pc⟩) s' h.1
    rw [h'']
    exact ⟨⟨⟨hs.csrs, rfl⟩, hs.lastPc⟩, hs.pc⟩

theorem control_fetch : Keeps (Control K al) fetch := by
  refine Keeps.read_bind fun s _ ↦ Keeps.bind keeps_ensure fun _ ↦ ?_
  refine Keeps.bind (Keeps.handle (keeps_loadInstr control_ignoresMemory.keptByMarks _)
    fun e ↦ ?_) fun _ ↦ ?_
  · cases e with
    | trap reason mtval =>
      exact Keeps.bind (Keeps.update fun _ h ↦ ⟨⟨h.csrs, h.lastPc⟩, h.pc⟩) fun _ ↦ Keeps.raise _
    | host error => exact Keeps.raise _
  · exact Keeps.update fun _ h ↦ ⟨⟨h.csrs, h.lastPc⟩, h.pc⟩

theorem control_cover (env : Env) (flags : OperandFlags) :
    Keeps (Control K al) (cover env flags) :=
  keeps_cover (fun _ _ h ↦ ⟨⟨h.csrs, h.lastPc⟩, h.pc⟩) env flags

section Aligned

variable (hal : AlignedBy K al)

include hal

theorem AlignedBy.and_eq_zero {x : BitVec 32} (hx : x &&& 3#32 = 0#32) : x &&& al = 0#32 := by
  rcases hal with rfl | ⟨rfl, -⟩
  · have hone : (1#32 : BitVec 32) = 3#32 &&& 1#32 := by decide
    rw [hone, ← BitVec.and_assoc, hx, BitVec.zero_and]
  · exact hx

theorem AlignedBy.even {x : BitVec 32} (hx : x &&& al = 0#32) : x &&& 1#32 = 0#32 := by
  rcases hal with rfl | ⟨rfl, -⟩
  · exact hx
  · have hone : (1#32 : BitVec 32) = 3#32 &&& 1#32 := by decide
    rw [hone, ← BitVec.and_assoc, hx, BitVec.zero_and]

theorem AlignedBy.add {x y : BitVec 32} (hx : x &&& al = 0#32) (hy : y &&& al = 0#32) :
    (x + y) &&& al = 0#32 := by
  rcases hal with rfl | ⟨rfl, -⟩
  · exact even_add hx hy
  · exact aligned_add hx hy

/-- After decoding, only an undefined instruction may have left a misaligned address. -/
theorem control_decode :
    Triple (Control K al) decode
      (fun _ s ↦ Steady K al s ∧ (s.op ≠ .UNDEF → s.pc &&& al = 0#32)) fun _ ↦ Steady K al := by
  refine Triple.of_start fun s hs ↦ (triple_decode s).conseq (fun _ h ↦ h) (fun _ s' h ↦ ?_)
    fun _ s' h ↦ ?_
  · rw [h.1]
    refine ⟨⟨hs.csrs, hs.lastPc⟩, fun hop ↦ ?_⟩
    change (s.pc + instrLength s.instr) &&& al = 0#32
    unfold instrLength
    split
    case isTrue hcompressed =>
      have hC := h.2 hcompressed hop
      rcases hal with rfl | ⟨rfl, hnot⟩
      · exact even_add hs.pc (by decide)
      · rw [hnot hs.csrs] at hC
        cases hC
    case isFalse => exact hal.add hs.pc (hal.and_eq_zero (by decide))
  · rw [h.1]
    exact ⟨hs.csrs, hs.lastPc⟩

/-- A jump to a misaligned address traps. -/
theorem control_jump (target : BitVec 32) : Controls K al (jump target) := by
  refine Triple.bind (Q := fun _ ↦ Steady K al) (Triple.update fun _ h ↦ ⟨h.csrs, h.lastPc⟩)
    fun _ ↦ Triple.read_bind fun s hs ↦ ?_
  refine Triple.bind (Q := fun _ s' ↦ s' = s ∧ s.pc &&& 1#32 = 0#32)
    (triple_ensure (fun _ h hc ↦ ⟨h, hc⟩) fun _ h _ ↦ h ▸ hs) fun _ ↦ ?_
  refine triple_raiseTrapIf (fun s' h hc ↦ ?_) fun s' h _ ↦ ?_
  · rw [h.1]
    refine ⟨hs, ?_⟩
    rcases hal with rfl | ⟨rfl, hnot⟩
    · exact h.2
    · by_contra hpc
      exact hc ⟨hpc, hnot hs.csrs⟩
  · rw [h.1]
    exact hs

theorem control_jumpAndLink (target : BitVec 32) : Controls K al (jumpAndLink target) :=
  Controls.read_bind fun _ _ ↦ Controls.bind (control_jump hal target) fun _ ↦
    Controls.of_keeps (keeps_writeReg _ _)

theorem control_execBranch (res : ConcolicValue) : Controls K al (execBranch res) := by
  refine Controls.read_bind fun s h ↦ Controls.bind ?_ fun _ ↦ Controls.of_keeps ?_
  · unfold jumpIf
    split
    · exact control_jump hal _
    · exact Controls.ret _
  · unfold trackAndTraceBranch
    split
    · exact Keeps.update fun _ h ↦ ⟨⟨h.csrs, h.lastPc⟩, h.pc⟩
    · exact Keeps.ret _

end Aligned

theorem control_execLoad (alignment : Nat) {load : ConcolicValue → IssM ConcolicValue}
    (hload : ∀ addr, Keeps (Control K al) (load addr)) :
    Keeps (Control K al) (execLoad alignment load) := by
  refine Keeps.read_bind fun s _ ↦ Keeps.bind (keeps_raiseTrapIf _ _) fun _ ↦
    Keeps.bind (hload _) fun _ ↦ Keeps.bind (keeps_writeReg _ _) fun _ ↦ ?_
  unfold taintLoaded
  split
  · exact Keeps.bind (Keeps.update fun _ h ↦ ⟨⟨h.csrs, h.lastPc⟩, h.pc⟩) fun _ ↦ Keeps.ret _
  · exact Keeps.ret _

theorem control_execStore (alignment : Nat) (numBytes : Nat) :
    Keeps (Control K al)
      (execStore alignment fun addr value ↦ symbolicStoreData addr (some value) numBytes) :=
  Keeps.read_bind fun _ _ ↦ Keeps.bind (keeps_raiseTrapIf _ _) fun _ ↦
    keeps_symbolicStoreData control_ignoresMemory _ _ _

theorem control_keptByCalls (env : Env) : KeptByCalls env (Control K al) where
  sys := fun _ _ h ↦ ⟨⟨h.csrs, h.lastPc⟩, h.pc⟩
  hostCalls := fun _ _ h ↦ ⟨⟨h.csrs, h.lastPc⟩, h.pc⟩
  shallExit := fun _ _ h ↦ ⟨⟨h.csrs, h.lastPc⟩, h.pc⟩
  result := fun _ _ h ↦ ⟨⟨h.csrs, h.lastPc⟩, h.pc⟩
  register := fun _ ↦ keeps_writeReg _ _
  memory := fun _ _ ↦ keeps_symbolicStoreData control_ignoresMemory _ _ _

section Closed

variable {A : Nat → Prop} (hK : CsrClosed A K)

include hK

theorem CsrClosed.atMode (prv : Nat) : CsrClosed A fun csrs prv' ↦ K csrs prv' ∧ prv' = prv where
  counter := fun heq h ↦ ⟨hK.counter heq h.1, h.2⟩
  write := fun value hA hp hw h ↦ ⟨hK.write value hA hp hw h.1, h.2⟩

theorem control_ignoresCounters : IgnoresCounters (Control K al) :=
  fun _ _ _ heq h ↦ ⟨⟨hK.counter heq h.csrs, h.lastPc⟩, h.pc⟩

theorem control_setCsrValue {addr : Nat} (hA : A addr) {prv : Nat} (hp : csrPrivilege addr ≤ prv)
    (value : BitVec 32) :
    Keeps (Control (fun csrs prv' ↦ K csrs prv' ∧ prv' = prv) al) (setCsrValue addr value) := by
  refine keeps_setCsrValue (fun s r mask value h hw ↦ ?_) value
  refine ⟨⟨(hK.atMode prv).write value hA ?_ hw h.csrs, h.lastPc⟩, h.pc⟩
  exact h.csrs.2 ▸ hp

/-- A state whose instruction addresses a register of `A`. -/
def AddressesCsr (A : Nat → Prop) (s : State) : Prop := A s.instr.csr.toNat

theorem control_csrReadWrite (env : Env) (value : BitVec 32) :
    Triple (fun s ↦ Control K al s ∧ AddressesCsr A s) (csrReadWrite env value)
      (fun _ ↦ Control K al) fun _ ↦ Control K al := by
  refine Triple.read_bind fun s hs ↦ Triple.pre (P := Control K al)
    (control_of_valid keeps_raiseIllegalInstruction fun prv hp ↦ ?_) fun _ h ↦ h ▸ hs.1
  split
  · cases ‹false = true›
  split
  · refine Keeps.bind (keeps_getCsrValue (control_ignoresCounters (hK.atMode prv)) env _) ?_
    exact fun _ ↦ Keeps.bind (control_writeOldValue _) fun _ ↦ control_setCsrValue hK hs.2 hp value
  · exact control_setCsrValue hK hs.2 hp value

theorem control_csrReadModify (env : Env) (write : Bool) (update : BitVec 32 → BitVec 32) :
    Triple (fun s ↦ Control K al s ∧ AddressesCsr A s) (csrReadModify env write update)
      (fun _ ↦ Control K al) fun _ ↦ Control K al := by
  refine Triple.read_bind fun s hs ↦ Triple.pre (P := Control K al)
    (control_of_valid keeps_raiseIllegalInstruction fun prv hp ↦ ?_) fun _ h ↦ h ▸ hs.1
  split
  · cases ‹false = true›
  refine Keeps.bind (keeps_getCsrValue (control_ignoresCounters (hK.atMode prv)) env _) ?_
  refine fun _ ↦ Keeps.bind (control_writeOldValue _) fun _ ↦ ?_
  split
  · exact control_setCsrValue hK hs.2 hp _
  · exact Keeps.ret _

theorem control_execCsr (env : Env) (op : Opcode) :
    Triple (fun s ↦ Control K al s ∧ AddressesCsr A s) (execCsr env op)
      (fun _ ↦ Control K al) fun _ ↦ Control K al := by
  refine Triple.read_bind fun s hs ↦
    Triple.pre (P := fun s ↦ Control K al s ∧ AddressesCsr A s) ?_ fun _ h ↦ h ▸ hs
  dsimp only
  split
  case h_1 | h_4 => exact control_csrReadWrite hK env _
  all_goals exact control_csrReadModify hK env _ _

end Closed

def isCsr : Opcode → Bool
  | .CSRRW | .CSRRS | .CSRRC | .CSRRWI | .CSRRSI | .CSRRCI => true
  | _ => false

section Instructions

variable {A : Nat → Prop} (hal : AlignedBy K al) (hK : CsrClosed A K)

include hal hK

/-- Every instruction but a return from a trap handler keeps the property. -/
theorem control_executeOther (env : Env) {op : Opcode} (hop : op ≠ .MRET) :
    Triple (fun s ↦ Control K al s ∧ (isCsr op = true → AddressesCsr A s)) (executeOther env op)
      (fun _ ↦ Control K al) fun _ ↦ Steady K al := by
  have hcontrols : ∀ {m : IssM Bool} {P : State → Prop}, Controls K al m →
      Triple (fun s ↦ Control K al s ∧ P s) m (fun _ ↦ Control K al) fun _ ↦ Steady K al :=
    fun h ↦ Triple.pre h fun _ h ↦ h.1
  have hcsr : ∀ op : Opcode, Triple (fun s ↦ Control K al s ∧ (true = true → AddressesCsr A s))
      (do execCsr env op; return false) (fun _ ↦ Control K al) fun _ ↦ Steady K al :=
    fun op ↦ Triple.bind ((control_execCsr hK env op).conseq (fun _ h ↦ ⟨h.1, h.2 rfl⟩)
      (fun _ _ h ↦ h) fun _ _ h ↦ h.toSteady) fun _ ↦ Controls.ret _
  unfold executeOther
  split
  case h_1 => exact hcontrols (Controls.of_keeps keeps_raiseIllegalInstruction)
  case h_2 | h_3 =>
    exact hcontrols (Controls.read_bind fun s h ↦
      Controls.bind (control_jumpAndLink hal _) fun _ ↦ Controls.ret _)
  case h_4 | h_5 | h_6 =>
    exact hcontrols (Controls.of_keeps (Keeps.bind (control_execStore _ _) fun _ ↦ Keeps.ret _))
  case h_7 | h_8 | h_9 =>
    exact hcontrols (Controls.of_keeps (control_execLoad _ fun _ ↦
      keeps_loadSigned control_ignoresMemory.keptByMarks _ _))
  case h_10 | h_11 =>
    exact hcontrols (Controls.of_keeps (control_execLoad _ fun _ ↦
      keeps_loadUnsigned control_ignoresMemory.keptByMarks _ _))
  case h_12 | h_13 => exact hcontrols (Controls.ret _)
  case h_14 =>
    exact hcontrols (Controls.of_keeps (Keeps.bind (control_keptByCalls env).execEcall fun _ ↦
      Keeps.ret _))
  case h_15 =>
    exact hcontrols (Controls.of_keeps (Keeps.bind
      (Keeps.update fun _ h ↦ ⟨⟨h.csrs, h.lastPc⟩, h.pc⟩) fun _ ↦ Keeps.ret _))
  case h_16 | h_17 | h_18 | h_19 | h_20 | h_21 => exact hcsr _
  case h_22 =>
    refine hcontrols (Controls.of_keeps (Keeps.bind (Keeps.bind
      (Keeps.update fun _ h ↦ ⟨⟨h.csrs, h.lastPc⟩, h.pc⟩) fun _ ↦ ?_) fun _ ↦ Keeps.ret _))
    exact Keeps.read_bind fun _ _ ↦
      Keeps.bind keeps_raiseIllegalInstructionIf fun _ ↦ keeps_raiseIllegalInstructionIf
  case h_23 => exact absurd rfl hop
  case h_24 => exact hcontrols (Controls.of_keeps (Keeps.raise _))

/-- The state after decoding. -/
structure Ready (K : CsrTable → Nat → Prop) (al : BitVec 32) (word : BitVec 32) (s : State) : Prop
    extends Steady K al s where
  pc : s.op ≠ .UNDEF → s.pc &&& al = 0#32
  op : s.op = (decodeWord word).1
  instr : s.instr = (decodeWord word).2

theorem control_execute (env : Env) {word : BitVec 32} (hop : (decodeWord word).1 ≠ .MRET)
    (hA : isCsr (decodeWord word).1 = true → A (decodeWord word).2.csr.toNat) :
    Triple (Ready K al word) (execute env) (fun _ ↦ Control K al) fun _ ↦ Steady K al := by
  refine Triple.read_bind fun s hs ↦ ?_
  rw [hs.op]
  by_cases hundef : (decodeWord word).1 = .UNDEF
  · rw [hundef]
    exact triple_raiseIllegalInstruction fun _ h ↦ h ▸ hs.toSteady
  have hcontrol : Control K al s := ⟨hs.toSteady, hs.pc fun h ↦ hundef (hs.op.symm.trans h)⟩
  split
  · exact Triple.pre (Controls.of_keeps (Keeps.bind (keeps_writeReg _ _) fun _ ↦ Keeps.ret _))
      fun _ h ↦ h ▸ hcontrol
  split
  · exact Triple.pre (Controls.bind (control_execBranch hal _) fun _ ↦ Controls.ret _)
      fun _ h ↦ h ▸ hcontrol
  · refine Triple.pre (control_executeOther hal hK env hop) fun s' h ↦ ?_
    rw [h]
    refine ⟨hcontrol, fun hcsr ↦ ?_⟩
    rw [AddressesCsr, hs.instr]
    exact hA hcsr

omit hal hK

theorem ready_classifyOperands (word : BitVec 32) :
    Triple (Ready K al word) classifyOperands (fun _ ↦ Ready K al word) fun _ ↦ Steady K al :=
  keeps_classifyOperands.conseq (fun _ h ↦ h) (fun _ _ h ↦ h) fun _ _ h ↦ h.toSteady

include hal

/-- What is executed after fetching and decoding is the fetched word. -/
theorem control_decoded {s : State} (hs : Control K al s) {Q : Unit → State → Prop}
    {E : Thrown → State → Prop} {rest : IssM Unit} (hE : ∀ e s', Steady K al s' → E e s')
    (hrest : ∀ word, s.fetchedWord = some word →
      Triple (fun s' ↦ Ready K al word s' ∧ Fetched s s') rest Q E) :
    Triple (· = s) (do fetch; decode; rest) Q E := by
  have hkeeps : Keeps (Fetched s) (loadInstr s.pc) :=
    keeps_loadInstr (fetched_keptByMarks s) s.pc
  have hfetch := (triple_fetch s).and (Triple.pre control_fetch fun _ h ↦ h ▸ hs)
  refine Triple.bind (hfetch.conseq (fun _ h ↦ h) (fun _ _ h ↦ h) fun e s' h ↦
    hE e s' h.2.toSteady) fun _ ↦ Triple.of_start fun s₁ h₁ ↦ ?_
  obtain ⟨⟨-, s₀, hload, hs₁⟩, hcontrol⟩ := h₁
  have hs₀ : Fetched s s₀ := hkeeps.of_ok (Fetched.refl s) hload
  have hdecode := (triple_decode s₁).and (Triple.pre (control_decode hal) fun _ h ↦ h ▸ hcontrol)
  refine Triple.bind (hdecode.conseq (fun _ h ↦ h) (fun _ _ h ↦ h) fun e s' h ↦ hE e s' h.2) ?_
  refine fun _ ↦ Triple.pre (hrest s₁.instr ?_) fun s' h ↦ ⟨⟨h.2.1, h.2.2, ?_, ?_⟩, ?_⟩
  · rw [State.fetchedWord, hload]
  · rw [h.1.1]
    rfl
  · rw [h.1.1]
    rfl
  · rw [h.1.1, hs₁]
    exact ⟨⟨hs₀.lastPc, hs₀.coverage⟩, hs₀.regs, hs₀.csrs, hs₀.prv, hs₀.sys, hs₀.mmu⟩

include hK

theorem control_execStep (env : Env) {s : State} (hs : Control K al s)
    (hword : s.fetchedWord ≠ some MRET_ENCODING)
    (hA : ∀ word, s.fetchedWord = some word → isCsr (decodeWord word).1 = true →
      A (decodeWord word).2.csr.toNat) :
    Triple (· = s) (execStep env) (fun _ ↦ Control K al) fun _ ↦ Steady K al := by
  refine control_decoded hal hs (fun _ _ h ↦ h) fun word hfetched ↦ ?_
  have hop : (decodeWord word).1 ≠ .MRET := by
    rw [ne_eq, decodeWord_eq_MRET_iff]
    rintro rfl
    exact hword hfetched
  refine Triple.pre (P := Ready K al word) ?_ fun _ h ↦ h.1
  refine Triple.bind (ready_classifyOperands word) fun _ ↦ Triple.bind
    (control_execute hal hK env hop (hA word hfetched)) fun _ ↦
      Controls.of_keeps (control_cover env _)

end Instructions

/-- The state after a return from a machine mode handler. -/
def State.returned (s : State) : State :=
  { s with prv := s.csrs.mstatusMpp.toNat, csrs := s.csrs.returnMachine, pc := s.csrs .mepc }

theorem triple_execute_MRET (env : Env) {s : State} (hop : s.op = .MRET) :
    Triple (· = s) (execute env) (fun _ s' ↦ s' = s.returned) fun _ _ ↦ False := by
  refine Triple.read_bind fun s' hs' ↦ ?_
  rw [hs', hop]
  refine Triple.bind (Q := fun _ s' ↦ s' = s.returned) (Triple.update fun s' h ↦ ?_) fun _ ↦
    Triple.ret fun _ h ↦ h
  rw [h]
  rfl

theorem control_execStep_MRET (hal : AlignedBy K al) (env : Env)
    (hreturn : ∀ {csrs prv}, K csrs prv → K csrs.returnMachine csrs.mstatusMpp.toNat)
    (hmepc : ∀ {csrs prv}, K csrs prv → csrs .mepc &&& al = 0#32) {s : State}
    (hs : Control K al s) (hword : s.fetchedWord = some MRET_ENCODING) :
    Triple (· = s) (execStep env) (fun _ ↦ Control K al) fun _ ↦ Steady K al := by
  refine control_decoded hal hs (fun _ _ h ↦ h) fun word hfetched ↦ ?_
  have hop : (decodeWord word).1 = .MRET := by
    rw [decodeWord_eq_MRET_iff]
    exact Option.some.inj (hfetched.symm.trans hword)
  refine Triple.pre (P := Ready K al word) ?_ fun _ h ↦ h.1
  refine Triple.bind (ready_classifyOperands word) fun _ ↦ Triple.bind
    (Q := fun _ ↦ Control K al) (Triple.of_start fun s₁ h₁ ↦ ?_) fun _ ↦
      Controls.of_keeps (control_cover env _)
  refine (triple_execute_MRET env (h₁.op.trans hop)).conseq (fun _ h ↦ h) (fun _ s' h ↦ ?_)
    fun _ _ h ↦ h.elim
  rw [h]
  exact ⟨⟨hreturn h₁.csrs, h₁.lastPc⟩, hmepc h₁.csrs⟩

end Walk

/-- A return from a machine mode handler, in whichever mode it is executed. -/
theorem triple_execStep_MRET (env : Env) {s : State} (hpc : s.pc &&& 1#32 = 0#32)
    (hlast : s.lastPc &&& 1#32 = 0#32) (hword : s.fetchedWord = some MRET_ENCODING) :
    Triple (· = s) (execStep env)
      (fun _ s' ↦ s'.csrs = s.csrs.returnMachine ∧ s'.prv = s.csrs.mstatusMpp.toNat)
      (fun _ _ ↦ True) := by
  have hs : Control (fun csrs prv ↦ csrs = s.csrs ∧ prv = s.prv) 1#32 s :=
    ⟨⟨⟨rfl, rfl⟩, hlast⟩, hpc⟩
  refine control_decoded (.inl rfl) hs (fun _ _ _ ↦ trivial) fun word hfetched ↦ ?_
  have hop : (decodeWord word).1 = .MRET := by
    rw [decodeWord_eq_MRET_iff]
    exact Option.some.inj (hfetched.symm.trans hword)
  let I : CsrTable → Nat → Prop :=
    fun csrs prv ↦ csrs = s.csrs.returnMachine ∧ prv = s.csrs.mstatusMpp.toNat
  refine Triple.bind ((ready_classifyOperands word).conseq (fun _ h ↦ h.1) (fun _ _ h ↦ h)
    fun _ _ _ ↦ trivial) fun flags ↦ Triple.bind (Q := fun _ s' ↦ I s'.csrs s'.prv)
      (Triple.of_start fun s₁ h₁ ↦ ?_) fun init ↦ ?_
  · refine (triple_execute_MRET env (h₁.op.trans hop)).conseq (fun _ h ↦ h) (fun _ s' h ↦ ?_)
      fun _ _ h ↦ h.elim
    rw [h]
    exact ⟨by rw [State.returned, h₁.csrs.1], by rw [State.returned, h₁.csrs.1]⟩
  · exact (keeps_cover (I := fun s' ↦ I s'.csrs s'.prv) (fun _ _ h ↦ h) env _).conseq
      (fun _ h ↦ h) (fun _ _ h ↦ h) fun _ _ _ ↦ trivial

end CoverageVP.Iss
