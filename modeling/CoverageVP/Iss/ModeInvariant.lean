import CoverageVP.Iss.Failures
import CoverageVP.Iss.TrapEntry

/-!
# Valid privilege levels

Level 2 is reserved. A program selects it by writing it to the field of `mstatus` that holds the mode
before the last trap; a return from a machine mode handler then continues in that mode. Nothing else
leads there: as long as no instruction writes this value, the current mode and the stacked one are
valid, and what rejects other modes is not reached.
-/

namespace CoverageVP.Iss

open Lib Clover Instr Csr

/-! ## Writes of the status register -/

/-- The value that a CSR instruction which addresses `mstatus` writes to it, if it writes. -/
def State.mstatusWrite (s : State) (op : Opcode) (instr : Instruction) : Option (BitVec 32) :=
  let index : BitVec 5 := instr.rs1.setWidth 5
  let rs1 := getValue (s.regs index)
  let old := s.csrs .mstatus &&& MSTATUS_MASK
  match op with
  | .CSRRW => some rs1
  | .CSRRS => if index ≠ RegFile.zero then some (old ||| rs1) else none
  | .CSRRC => if index ≠ RegFile.zero then some (old &&& ~~~rs1) else none
  | .CSRRWI => some instr.zimm
  | .CSRRSI => if instr.zimm ≠ 0#32 then some (old ||| instr.zimm) else none
  | .CSRRCI => if instr.zimm ≠ 0#32 then some (old &&& ~~~instr.zimm) else none
  | _ => none

theorem State.mstatusWrite_congr {s s' : State} (hregs : s'.regs = s.regs)
    (hcsrs : s'.csrs = s.csrs) (op : Opcode) (instr : Instruction) :
    s'.mstatusWrite op instr = s.mstatusWrite op instr := by
  unfold State.mstatusWrite
  rw [hregs, hcsrs]

/-- The next instruction writes the reserved level to the stacked mode. Only machine mode can. -/
structure State.SelectsReserved (s : State) (word value : BitVec 32) : Prop where
  mode : s.prv = MachineMode
  fetched : s.fetchedWord = some word
  addr : (decodeWord word).2.csr.toNat = MSTATUS_ADDR
  written : s.mstatusWrite (decodeWord word).1 (decodeWord word).2 = some value
  reserved : field value 11 2 = 2#2

/-- The next step does not do that. -/
def State.KeepsModes (s : State) : Prop := ∀ word value, ¬ s.started.SelectsReserved word value

theorem maskedWrite_and_self (old mask value : BitVec 32) :
    maskedWrite old mask value &&& mask = value &&& mask := by
  apply BitVec.eq_of_getLsbD_eq
  intro i hi
  simp only [maskedWrite, BitVec.getLsbD_and, BitVec.getLsbD_or, BitVec.getLsbD_not]
  cases mask.getLsbD i <;> simp

/-- The current mode and the stacked one are valid. -/
structure ModeInvariant (csrs : CsrTable) (prv : Nat) : Prop extends MachineInvariant csrs prv where
  valid : IsMode prv
  stacked : csrs.mstatusMpp ≠ 2#2

theorem isMode_of_ne_two {n : Nat} (hle : n ≤ MachineMode) (hne : n ≠ 2) : IsMode n := by
  rw [MachineMode] at hle
  have hcases : n = 3 ∨ n = 1 ∨ n = 0 := by omega
  exact hcases

theorem isMode_mpp {mpp : BitVec 2} (h : mpp ≠ 2#2) : IsMode mpp.toNat := by
  refine isMode_of_ne_two (Nat.le_of_lt_succ mpp.isLt) fun htwo ↦ h ?_
  exact BitVec.eq_of_toNat_eq htwo

theorem IsMode.ne_two {mode : Nat} (h : IsMode mode) : mode ≠ 2 := by
  rcases h with rfl | rfl | rfl <;> decide

namespace ModeInvariant

variable {csrs csrs' : CsrTable} {prv : Nat}

theorem of_mstatus_eq (h : ModeInvariant csrs prv) (hmachine : MachineInvariant csrs' prv)
    (hmstatus : csrs' .mstatus = csrs .mstatus) : ModeInvariant csrs' prv := by
  refine ⟨hmachine, h.valid, ?_⟩
  rw [CsrTable.mstatusMpp, hmstatus]
  exact h.stacked

theorem set_of_ne (h : ModeInvariant csrs prv) {r : CsrReg} {value : BitVec 32}
    (hmachine : MachineInvariant (csrs.set r value) prv) (hr : r ≠ .mstatus) :
    ModeInvariant (csrs.set r value) prv :=
  h.of_mstatus_eq hmachine (CsrTable.set_of_ne _ _ hr.symm)

/-- The other views of `mstatus` do not contain the stacked mode. -/
theorem closed : CsrClosed (· ≠ MSTATUS_ADDR) ModeInvariant where
  counter := fun heq h ↦ h.of_mstatus_eq
    (MachineInvariant.closed.counter (A := fun _ ↦ True) heq h.toMachineInvariant) (heq _ rfl)
  write := by
    intro csrs prv addr r mask value hA hp hw h
    have hmachine := MachineInvariant.closed.write (A := fun _ ↦ True) value trivial hp hw
      h.toMachineInvariant
    by_cases hr : r = .mstatus
    · subst hr
      have hmask := (permitted_of_writable hw).mstatus rfl hA
      refine ⟨hmachine, h.valid, ?_⟩
      rw [CsrTable.mstatusMpp, CsrTable.set_self,
        field_eq_of_masked (maskedWrite_and_of_disjoint hmask) (by decide)]
      exact h.stacked
    · exact h.set_of_ne hmachine hr

theorem writeMstatus (h : ModeInvariant csrs prv) (hprv : prv = MachineMode) {value : BitVec 32}
    (hvalue : field value 11 2 ≠ 2#2) :
    ModeInvariant (csrs.set .mstatus (maskedWrite (csrs .mstatus) MSTATUS_MASK value)) prv := by
  have hnot : ¬ prv < MachineMode := by
    rw [hprv]
    exact Nat.lt_irrefl _
  refine ⟨h.toMachineInvariant.set_mstatus (fun hlt ↦ absurd hlt hnot) fun hlt ↦ absurd hlt hnot,
    h.valid, ?_⟩
  rw [CsrTable.mstatusMpp, CsrTable.set_self,
    field_eq_of_masked (maskedWrite_and_self _ _ _) (by decide)]
  exact hvalue

theorem returnMachine (h : ModeInvariant csrs prv) :
    ModeInvariant csrs.returnMachine csrs.mstatusMpp.toNat := by
  refine ⟨h.toMachineInvariant.returnMachine, isMode_mpp h.stacked, ?_⟩
  rw [CsrTable.mstatusMpp, h.toMachineInvariant.returnMachine_mstatus,
    field_setField_self _ _ (by decide)]
  decide

theorem enter (h : ModeInvariant csrs prv) {mode : Nat} {epc : BitVec 32} (hmode : IsMode mode)
    (hlower : mode < MachineMode → prv ≠ MachineMode) (hepc : epc &&& 1#32 = 0#32) :
    ModeInvariant (csrs.enter mode prv epc) mode := by
  have hmachine := MachineInvariant.runClosed.enter (A := fun _ ↦ True) hmode hlower hepc
    h.toMachineInvariant
  refine ⟨hmachine, hmode, ?_⟩
  by_cases hlt : mode < MachineMode
  · rw [hmachine.mpp hlt]
    decide
  · obtain rfl : mode = MachineMode := by
      refine Nat.le_antisymm hmachine.mode (Nat.not_lt.mp hlt)
    rw [(CsrTable.entered_enter csrs prv epc hmode).mpp rfl]
    rcases h.valid with rfl | rfl | rfl <;> decide

theorem runClosed : RunClosed (· ≠ MSTATUS_ADDR) ModeInvariant 1#32 where
  toCsrClosed := closed
  aligned := .inl rfl
  mepc := fun h ↦ h.mepc
  returnMachine := fun h ↦ h.returnMachine
  setCause := by
    intro csrs prv mode interrupt code h
    exact h.set_of_ne (h.toMachineInvariant.setCause mode interrupt code)
      (CsrTable.causeReg_ne (by decide) mode)
  setTval := by
    intro csrs prv mode value h
    exact h.set_of_ne (h.toMachineInvariant.setTval mode value)
      (CsrTable.tvalReg_ne (by decide) mode)
  enter := fun hmode hlower hepc h ↦ h.enter hmode hlower hepc
  irq := fun irq hbit h ↦ h.set_of_ne
    (MachineInvariant.runClosed.irq (A := fun _ ↦ True) irq hbit h.toMachineInvariant) (by decide)

end ModeInvariant

/-! ## Instructions that address the status register -/

theorem triple_getCsrValue_mstatus (env : Env) (s : State) :
    Triple (· = s) (getCsrValue env MSTATUS_ADDR)
      (fun old s' ↦ s' = s ∧ old = s.csrs .mstatus &&& MSTATUS_MASK) fun _ s' ↦ s' = s := by
  refine Triple.bind (Q := fun _ s' ↦ s' = s) (Triple.read_bind fun s' hs' ↦ ?_) fun _ ↦ ?_
  · exact triple_raiseIllegalInstructionIf (fun _ h _ ↦ h.trans hs') fun _ h _ ↦ h.trans hs'
  · refine Triple.bind (Q := fun old s' ↦ s' = s ∧ old = s.csrs .mstatus)
      (Triple.read_bind fun s' hs' ↦ Triple.ret fun s'' h ↦ ?_) fun old ↦ Triple.ret fun s' h ↦ ?_
    · exact ⟨h.trans hs', by rw [hs']⟩
    · exact ⟨h.1, by rw [h.2]⟩

/-- The invariant in machine mode. -/
def MachineModeInvariant (csrs : CsrTable) (prv : Nat) : Prop :=
  ModeInvariant csrs prv ∧ prv = MachineMode

theorem keeps_setMstatus {value : BitVec 32} (hvalue : field value 11 2 ≠ 2#2) :
    Keeps (Control MachineModeInvariant 1#32) (setCsrValue MSTATUS_ADDR value) :=
  Keeps.read_bind fun _ _ ↦ Keeps.update fun _ h ↦
    ⟨⟨⟨h.csrs.1.writeMstatus h.csrs.2 hvalue, h.csrs.2⟩, h.lastPc⟩, h.pc⟩

section Instruction

variable {s : State} (hs : Control ModeInvariant 1#32 s)
  (haddr : s.instr.csr.toNat = MSTATUS_ADDR)

include hs

/-- An access that is valid is made in machine mode. -/
theorem triple_validMstatus {isWrite : Bool} {f : Bool → IssM Unit}
    (htrue : f true = raiseIllegalInstruction)
    (hfalse : s.prv = MachineMode → Control MachineModeInvariant 1#32 s →
      Triple (· = s) (f false) (fun _ ↦ Control MachineModeInvariant 1#32)
        fun _ ↦ Control MachineModeInvariant 1#32) :
    Triple (· = s) (isInvalidCsrAccess MSTATUS_ADDR isWrite >>= f)
      (fun _ ↦ Control ModeInvariant 1#32) fun _ ↦ Control ModeInvariant 1#32 := by
  refine Triple.bind ((triple_isInvalidCsrAccess s MSTATUS_ADDR isWrite).conseq (fun _ h ↦ h)
    (fun _ _ h ↦ h) fun _ _ h ↦ h ▸ hs) fun invalid ↦ ?_
  cases invalid with
  | true =>
    rw [htrue]
    exact triple_raiseIllegalInstruction fun _ h ↦ h.1 ▸ hs
  | false =>
    refine Triple.of_start fun s' h ↦ ?_
    have hprv : s.prv = MachineMode :=
      Nat.le_antisymm hs.csrs.mode (csrPrivilege_le_of_valid h.2.symm)
    have hmachine : Control MachineModeInvariant 1#32 s := ⟨⟨⟨hs.csrs, hprv⟩, hs.lastPc⟩, hs.pc⟩
    refine (hfalse hprv hmachine).conseq (fun _ h' ↦ h'.trans h.1) (fun _ _ h ↦ ?_) fun _ _ h ↦ ?_
    · exact ⟨⟨h.csrs.1, h.lastPc⟩, h.pc⟩
    · exact ⟨⟨h.csrs.1, h.lastPc⟩, h.pc⟩

include haddr

theorem triple_csrReadWrite_mstatus (env : Env) {value : BitVec 32}
    (hvalue : s.prv = MachineMode → field value 11 2 ≠ 2#2) :
    Triple (· = s) (csrReadWrite env value) (fun _ ↦ Control ModeInvariant 1#32)
      fun _ ↦ Control ModeInvariant 1#32 := by
  refine Triple.read_bind fun s' hs' ↦ ?_
  rw [hs', haddr]
  refine triple_validMstatus hs rfl fun hprv hmachine ↦
    Triple.pre (P := Control MachineModeInvariant 1#32) ?_ fun _ h ↦ h ▸ hmachine
  refine Triple.ite (fun h ↦ nomatch h) fun _ ↦ Triple.ite (fun _ ↦ ?_) fun _ ↦
    keeps_setMstatus (hvalue hprv)
  have hclosed := ModeInvariant.closed.atMode MachineMode
  exact Keeps.bind (keeps_getCsrValue (control_ignoresCounters hclosed) env _) fun _ ↦
    Keeps.bind (control_writeOldValue _) fun _ ↦ keeps_setMstatus (hvalue hprv)

theorem triple_csrReadModify_mstatus (env : Env) {write : Bool} {update : BitVec 32 → BitVec 32}
    (hvalue : s.prv = MachineMode → write = true →
      field (update (s.csrs .mstatus &&& MSTATUS_MASK)) 11 2 ≠ 2#2) :
    Triple (· = s) (csrReadModify env write update) (fun _ ↦ Control ModeInvariant 1#32)
      fun _ ↦ Control ModeInvariant 1#32 := by
  refine Triple.read_bind fun s' hs' ↦ ?_
  rw [hs', haddr]
  refine triple_validMstatus hs rfl fun hprv hmachine ↦ ?_
  refine Triple.ite (fun h ↦ nomatch h) fun _ ↦ ?_
  refine Triple.bind ((triple_getCsrValue_mstatus env s).conseq (fun _ h ↦ h) (fun _ _ h ↦ h)
    fun _ _ h ↦ h ▸ hmachine) fun old ↦ Triple.of_start fun s₁ h₁ ↦ ?_
  refine Triple.pre (P := Control MachineModeInvariant 1#32) ?_ fun _ h ↦ h.trans h₁.1 ▸ hmachine
  refine Keeps.bind (control_writeOldValue _) fun _ ↦ Triple.ite (fun hwrite ↦ ?_) fun _ ↦
    Keeps.ret _
  rw [h₁.2]
  exact keeps_setMstatus (hvalue hprv hwrite)

theorem triple_execCsr_mstatus (env : Env) {op : Opcode}
    (hvalue : s.prv = MachineMode → ∀ value, s.mstatusWrite op s.instr = some value →
      field value 11 2 ≠ 2#2) (hop : isCsr op = true) :
    Triple (· = s) (execCsr env op) (fun _ ↦ Control ModeInvariant 1#32)
      fun _ ↦ Control ModeInvariant 1#32 := by
  refine Triple.read_bind fun s' hs' ↦ ?_
  rw [hs']
  dsimp only
  split
  case h_1 | h_4 =>
    exact triple_csrReadWrite_mstatus hs haddr env fun hprv ↦ hvalue hprv _ rfl
  case h_2 | h_3 | h_5 =>
    refine triple_csrReadModify_mstatus hs haddr env fun hprv hwrite ↦ hvalue hprv _ ?_
    exact if_pos (of_decide_eq_true hwrite)
  case h_6 =>
    refine triple_csrReadModify_mstatus hs haddr env fun hprv hwrite ↦ hvalue hprv _ ?_
    cases op <;> first
      | contradiction
      | exact if_pos (of_decide_eq_true hwrite)

end Instruction

theorem results_of_isCsr {op : Opcode} (h : isCsr op = true) (s : State) :
    s.registerResult op = none ∧ s.branchResult op = none := by
  cases op <;> first
    | exact ⟨rfl, rfl⟩
    | contradiction

theorem executeOther_of_isCsr {op : Opcode} (h : isCsr op = true) (env : Env) :
    executeOther env op = (do execCsr env op; return false) := by
  cases op <;> first
    | rfl
    | contradiction

theorem execStep_mstatus (env : Env) {s : State} (hs : Control ModeInvariant 1#32 s)
    {word : BitVec 32} (hword : s.fetchedWord = some word) (hop : isCsr (decodeWord word).1 = true)
    (haddr : (decodeWord word).2.csr.toNat = MSTATUS_ADDR)
    (hkeeps : ∀ value, ¬ s.SelectsReserved word value) :
    Triple (· = s) (execStep env) (fun _ ↦ Control ModeInvariant 1#32)
      fun _ ↦ Steady ModeInvariant 1#32 := by
  refine control_decoded (.inl rfl) hs (fun _ _ h ↦ h) fun word' hfetched ↦ ?_
  obtain rfl : word' = word := Option.some.inj (hfetched.symm.trans hword)
  have hclassify := keeps_classifyOperands
    (I := fun s' ↦ Ready ModeInvariant 1#32 word' s' ∧ Fetched s s')
  refine Triple.bind (hclassify.conseq (fun _ h ↦ h) (fun _ _ h ↦ h) fun _ _ h ↦ h.1.toSteady)
    fun flags ↦ Triple.bind (Q := fun _ ↦ Control ModeInvariant 1#32)
      (Triple.read_bind fun s₁ h₁ ↦ ?_) fun _ ↦ Controls.of_keeps (control_cover env _)
  obtain ⟨hready, hsame⟩ := h₁
  obtain ⟨hregister, hbranch⟩ := results_of_isCsr hop s₁
  rw [hready.op, hregister, hbranch, executeOther_of_isCsr hop]
  have hdefined : s₁.op ≠ .UNDEF := by
    intro hundef
    rw [hready.op] at hundef
    rw [hundef] at hop
    cases hop
  have hcontrol : Control ModeInvariant 1#32 s₁ := ⟨hready.toSteady, hready.pc hdefined⟩
  have haddr₁ : s₁.instr.csr.toNat = MSTATUS_ADDR := by
    rw [hready.instr]
    exact haddr
  refine Triple.bind ((triple_execCsr_mstatus hcontrol haddr₁ env (fun hprv value hvalue ↦ ?_)
    hop).conseq (fun _ h ↦ h) (fun _ _ h ↦ h) fun _ _ h ↦ h.toSteady) fun _ ↦ Controls.ret _
  intro hreserved
  refine hkeeps value ⟨hsame.prv ▸ hprv, hword, haddr, ?_, hreserved⟩
  rw [← hvalue, hready.instr, State.mstatusWrite_congr hsame.regs hsame.csrs]

/-! ## Runs -/

theorem runStep_keepsModes (env : Env) {s : State} (hs : StepInvariant ModeInvariant 1#32 s)
    (hkeeps : s.KeepsModes) :
    Triple (· = s) (runStep env) (fun _ ↦ StepInvariant ModeInvariant 1#32) fun _ _ ↦ True := by
  refine ModeInvariant.runClosed.stepWith hs ?_
  by_cases hmstatus : ∃ word, s.started.fetchedWord = some word ∧
      isCsr (decodeWord word).1 = true ∧ (decodeWord word).2.csr.toNat = MSTATUS_ADDR
  · obtain ⟨word, hword, hop, haddr⟩ := hmstatus
    exact execStep_mstatus env hs.started hword hop haddr (hkeeps word)
  · refine ModeInvariant.runClosed.execStep env hs.started fun word hword hop haddr ↦ ?_
    exact hmstatus ⟨word, hword, hop, haddr⟩

theorem State.Initial.modeInvariant {s : State} (h : s.Initial) :
    StepInvariant ModeInvariant 1#32 s := by
  obtain ⟨hmachine, hpc⟩ := h.stepInvariant
  obtain ⟨hartId, useEBaseIsa, hcsrs⟩ := h.csrs
  refine ⟨⟨hmachine, .inl h.prv, ?_⟩, hpc⟩
  rw [hcsrs]
  exact (by decide : field 0#32 11 2 ≠ 2#2)

theorem Reaches.modeInvariant {env : Env} {s : State}
    (h : Reaches env State.Initial State.KeepsModes s) : StepInvariant ModeInvariant 1#32 s := by
  induction h with
  | init hinit => exact hinit.modeInvariant
  | step _ hok hstep ih => exact (runStep_keepsModes env ih hok).of_ok rfl hstep
  | irq irq _ ih => exact ModeInvariant.runClosed.interrupt ih irq

/-- The message of an unknown level differs from the other messages in the first nine characters. -/
theorem unknownPrivilegeLevel_ne {what : String}
    (h : what.toList.take 9 ≠ "unknown p".toList) (n : Nat) :
    HostError.runtimeError what ≠ unknownPrivilegeLevel n := by
  intro heq
  injection heq with hwhat
  refine h ?_
  rw [hwhat, String.toList_append, List.take_append_of_le_length (by decide)]
  rfl

/-- In every run whose steps do not write the reserved level to the stacked mode, the current mode
and the stacked one are valid, and no step is rejected for its mode. -/
theorem modes_valid_of_keepsModes {env : Env} {s : State}
    (h : Reaches env State.Initial State.KeepsModes s) :
    IsMode s.prv ∧ IsMode s.csrs.mstatusMpp.toNat ∧
      ∀ error s', runStep env s = .error (.host error) s' →
        error ≠ .assertion .translationMode ∧ error ≠ .assertion .walkMode ∧
          ∀ n, error ≠ unknownPrivilegeLevel n := by
  have hinv := h.modeInvariant
  have hzero : getValue (s.regs RegFile.zero) = 0#32 := by
    rw [h.zero fun _ h ↦ h.zero, constant_eq]
    rfl
  have halign : s.pc &&& ~~~s.pcAlignmentMask = 0#32 := by
    rw [State.pcAlignmentMask, hinv.csrs.pcAlignmentMask_eq, BitVec.not_not]
    exact hinv.pc
  have hstacked : IsMode s.csrs.mstatusMpp.toNat := isMode_mpp hinv.csrs.stacked
  have htranslatable : ∀ type, s.started.Translatable type := by
    refine fun type ↦ .inr (.inr ?_)
    unfold State.accessMode
    split
    · exact hstacked.ne_two
    · exact hinv.csrs.valid.ne_two
  refine ⟨hinv.csrs.valid, hstacked, fun error s' herror ↦ ?_⟩
  obtain ⟨error', hthrown, hmay⟩ :=
    (runStep_mayThrow env hzero hinv.csrs.mode halign hinv.pc).of_error rfl herror
  cases hthrown
  cases hmay with
  | translation type htype => exact absurd (htranslatable type) htype
  | call hmode => exact absurd hinv.csrs.valid hmode
  | unknownOpcode | pending => exact ⟨by simp, by simp, unknownPrivilegeLevel_ne (by decide)⟩
  | unsupportedSyscall n =>
    refine ⟨by simp [unsupportedSyscall], by simp [unsupportedSyscall], unknownPrivilegeLevel_ne ?_⟩
    rw [String.toList_append, String.toList_append, List.append_assoc,
      List.take_append_of_le_length (by decide)]
    decide
  | _ => simp [unknownPrivilegeLevel]

/-- `mret`, which returns to user mode -/
def returnToUser : List (BitVec 8) := [0x73#8, 0x00#8, 0x20#8, 0x30#8]

theorem modes_valid_of_keepsModes_user :
    ∃ s, runStep bootEnv (bootState returnToUser) = .ok () s ∧ s.prv = UserMode ∧
      IsMode s.prv ∧ IsMode s.csrs.mstatusMpp.toNat := by
  have hrun : runStep bootEnv (bootState returnToUser) =
      .ok () (stateAfter (runStep bootEnv) (bootState returnToUser)) :=
    eq_ok_of_returns (by decide +kernel)
  have hkeeps : (bootState returnToUser).KeepsModes := by
    intro word value h
    have hword : (bootState returnToUser).started.fetchedWord = some 0x30200073#32 := by
      decide +kernel
    obtain rfl : word = 0x30200073#32 := Option.some.inj (h.fetched.symm.trans hword)
    exact absurd h.addr (by decide +kernel)
  obtain ⟨hmode, hstacked, -⟩ := modes_valid_of_keepsModes
    (.step (.init (bootState_initial _)) hkeeps hrun)
  exact ⟨_, hrun, by decide +kernel, hmode, hstacked⟩

/-- `csrrwi x0, mepc, 16; lui x1, 1; csrrw x0, mstatus, x1; mret; ecall` -/
def selectReserved : List (BitVec 8) :=
  [0x73#8, 0x50#8, 0x18#8, 0x34#8, 0xb7#8, 0x10#8, 0x00#8, 0x00#8, 0x73#8, 0x90#8, 0x00#8, 0x30#8,
    0x73#8, 0x00#8, 0x20#8, 0x30#8, 0x73#8, 0x00#8, 0x00#8, 0x00#8]

/-- The program reaches the reserved mode, where a call is rejected. -/
theorem reachable_reserved_mode :
    ∃ s s', Reachable bootEnv s ∧ ¬ IsMode s.prv ∧
      runStep bootEnv s = .error (.host (unknownPrivilegeLevel 2)) s' := by
  have hreach : Reachable bootEnv (stateAfter (runSteps bootEnv 4) (bootState selectReserved)) :=
    (Reachable.init (bootState_initial _)).run (eq_ok_of_returns (by decide +kernel))
  have htwo : (stateAfter (runSteps bootEnv 4) (bootState selectReserved)).prv = 2 := by
    decide +kernel
  refine ⟨_, _, hreach, fun h ↦ h.ne_two htwo, eq_error_of_thrown ?_⟩
  decide +kernel

end CoverageVP.Iss
