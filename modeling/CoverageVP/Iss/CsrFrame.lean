import CoverageVP.Iss.Reachable

/-!
# Properties of the registers through a step

A property of the control and status registers and the number of cycles is kept by a step if reads
and writes of CSRs, traps and returns keep it. The rest of an instruction does not touch them.
-/

namespace CoverageVP.Iss

open Lib Clover Instr Csr

/-- A property of the registers and the number of cycles. -/
def OnCsrs (J : CsrTable → Nat → Prop) (s : State) : Prop := J s.csrs s.cycleCounter

/-- The CSR instruction writes its register. -/
def writesCsr (op : Opcode) (instr : Instruction) : Bool :=
  match op with
  | .CSRRW | .CSRRWI => true
  | .CSRRS | .CSRRC => instr.rs1.setWidth 5 ≠ RegFile.zero
  | .CSRRSI | .CSRRCI => instr.zimm ≠ 0#32
  | _ => false

/-- The CSR instruction that a state executes next writes registers of `W` only, as far as its mode
may access them. -/
def NextWrites (W : Nat → Prop) (s : State) : Prop :=
  ∀ word, s.fetchedWord = some word → writesCsr (decodeWord word).1 (decodeWord word).2 = true →
    csrPrivilege (decodeWord word).2.csr.toNat ≤ s.prv → W (decodeWord word).2.csr.toNat

/-- A property that everything in a step keeps, the writes as far as they address registers of
`W`. -/
structure CsrsClosed (env : Env) (W : Nat → Prop) (J : CsrTable → Nat → Prop) : Prop where
  read : ∀ addr, Keeps (OnCsrs J) (getCsrValue env addr)
  write : ∀ addr, W addr → csrReadonly addr = false → ∀ value,
    Keeps (OnCsrs J) (setCsrValue addr value)
  returnMachine : ∀ {csrs n}, J csrs n → J csrs.returnMachine n
  setCause : ∀ {csrs n} mode interrupt code, J csrs n →
    J (csrs.setCause (CsrTable.causeReg mode) interrupt code) n
  setTval : ∀ {csrs n} mode value, J csrs n → J (csrs.set (CsrTable.tvalReg mode) value) n
  enter : ∀ {csrs n} mode pp epc, J csrs n → J (csrs.enter mode pp epc) n

section Step

variable {env : Env} {W : Nat → Prop} {J : CsrTable → Nat → Prop}

/-! ## Instructions that do not touch the registers -/

theorem onCsrs_ignoresMemory : IgnoresMemory (OnCsrs J) where
  mem := fun _ _ h ↦ h
  mmu := fun _ _ h ↦ h

theorem onCsrs_keptByCalls (env : Env) : KeptByCalls env (OnCsrs J) where
  sys := fun _ _ h ↦ h
  hostCalls := fun _ _ h ↦ h
  shallExit := fun _ _ h ↦ h
  result := fun _ _ h ↦ h
  register := fun _ ↦ Keeps.update fun _ h ↦ h
  memory := fun _ _ ↦ keeps_symbolicStoreData onCsrs_ignoresMemory _ _ _

theorem onCsrs_fetch : Keeps (OnCsrs J) fetch := by
  refine Keeps.read_bind fun s _ ↦ Keeps.bind keeps_ensure fun _ ↦ Keeps.bind
    (Keeps.handle (keeps_loadInstr onCsrs_ignoresMemory.keptByMarks _) fun e ↦ ?_) fun _ ↦
      Keeps.update fun _ h ↦ h
  cases e with
  | trap reason mtval => exact Keeps.bind (Keeps.update fun _ h ↦ h) fun _ ↦ Keeps.raise _
  | host error => exact Keeps.raise _

theorem onCsrs_decode : Keeps (OnCsrs J) decode := by
  refine Triple.of_start fun s hs ↦ (triple_decode s).conseq (fun _ h ↦ h) (fun _ s' h ↦ ?_)
    fun _ s' h ↦ ?_
  · rw [h.1]
    exact hs
  · rw [h.1]
    exact hs

theorem onCsrs_jump (target : BitVec 32) : Keeps (OnCsrs J) (jump target) :=
  Keeps.bind (Keeps.update fun _ h ↦ h) fun _ ↦ Keeps.read_bind fun _ _ ↦
    Keeps.bind keeps_ensure fun _ ↦ keeps_raiseTrapIf _ _

theorem onCsrs_jumpAndLink (target : BitVec 32) : Keeps (OnCsrs J) (jumpAndLink target) :=
  Keeps.read_bind fun _ _ ↦ Keeps.bind (onCsrs_jump target) fun _ ↦ Keeps.update fun _ h ↦ h

theorem onCsrs_execBranch (res : ConcolicValue) : Keeps (OnCsrs J) (execBranch res) := by
  refine Keeps.read_bind fun s _ ↦ Keeps.bind ?_ fun _ ↦ ?_
  · unfold jumpIf
    exact Keeps.ite (onCsrs_jump _) (Keeps.ret _)
  · unfold trackAndTraceBranch
    split
    · exact Keeps.update fun _ h ↦ h
    · exact Keeps.ret _

theorem onCsrs_execLoad (alignment : Nat) {load : ConcolicValue → IssM ConcolicValue}
    (hload : ∀ addr, Keeps (OnCsrs J) (load addr)) :
    Keeps (OnCsrs J) (execLoad alignment load) := by
  refine Keeps.read_bind fun s _ ↦ Keeps.bind (keeps_raiseTrapIf _ _) fun _ ↦
    Keeps.bind (hload _) fun _ ↦ Keeps.bind (Keeps.update fun _ h ↦ h) fun _ ↦ ?_
  unfold taintLoaded
  split
  · exact Keeps.bind (Keeps.update fun _ h ↦ h) fun _ ↦ Keeps.ret _
  · exact Keeps.ret _

theorem onCsrs_execStore (alignment numBytes : Nat) :
    Keeps (OnCsrs J)
      (execStore alignment fun addr value ↦ symbolicStoreData addr (some value) numBytes) :=
  Keeps.read_bind fun _ _ ↦ Keeps.bind (keeps_raiseTrapIf _ _) fun _ ↦
    keeps_symbolicStoreData onCsrs_ignoresMemory _ _ _

theorem onCsrs_writeOldValue (old : BitVec 32) : Keeps (OnCsrs J) (writeOldValue old) :=
  Keeps.read_bind fun _ _ ↦ Keeps.ite (Keeps.update fun _ h ↦ h) (Keeps.ret _)

theorem csrReadonly_of_valid {s : State} {addr : Nat}
    (h : s.csrAccessInvalid addr true = false) : csrReadonly addr = false := by
  simp only [State.csrAccessInvalid, Bool.true_and, Bool.or_eq_false_iff] at h
  exact h.1.1.1

/-- The rest of a CSR instruction accesses its address only if the mode may, and writes it only if it
can be written. -/
theorem onCsrs_of_valid {s : State} (hs : OnCsrs J s) {addr : Nat} {isWrite : Bool}
    {f : Bool → IssM Unit} (htrue : Keeps (OnCsrs J) (f true))
    (hfalse : (isWrite = true → csrReadonly addr = false) → csrPrivilege addr ≤ s.prv →
      Keeps (OnCsrs J) (f false)) :
    Triple (· = s) (isInvalidCsrAccess addr isWrite >>= f) (fun _ ↦ OnCsrs J)
      fun _ ↦ OnCsrs J := by
  refine Triple.bind ((triple_isInvalidCsrAccess s addr isWrite).conseq
    (fun _ h ↦ h) (fun _ _ h ↦ h) fun _ _ h ↦ h ▸ hs) fun invalid ↦ ?_
  cases invalid with
  | true => exact Triple.pre htrue fun _ h ↦ h.1 ▸ hs
  | false =>
    intro s' h
    refine hfalse (fun hwrite ↦ ?_) (csrPrivilege_le_of_valid h.2.symm) s' (h.1 ▸ hs)
    rw [hwrite] at h
    exact csrReadonly_of_valid h.2.symm

section Closed

variable (hJ : CsrsClosed env W J)

include hJ

theorem CsrsClosed.csrReadWrite (value : BitVec 32) {s : State} (hs : OnCsrs J s)
    (hW : csrPrivilege s.instr.csr.toNat ≤ s.prv → W s.instr.csr.toNat) :
    Triple (· = s) (csrReadWrite env value) (fun _ ↦ OnCsrs J) fun _ ↦ OnCsrs J := by
  refine Triple.read_bind fun s' hs' ↦ ?_
  rw [hs']
  refine onCsrs_of_valid hs keeps_raiseIllegalInstruction fun hro hprv ↦ ?_
  refine Keeps.ite keeps_raiseIllegalInstruction (Keeps.ite (Keeps.bind (hJ.read _) fun _ ↦ ?_) ?_)
  · exact Keeps.bind (onCsrs_writeOldValue _) fun _ ↦ hJ.write _ (hW hprv) (hro rfl) _
  · exact hJ.write _ (hW hprv) (hro rfl) _

theorem CsrsClosed.csrReadModify {write : Bool} (update : BitVec 32 → BitVec 32) {s : State}
    (hs : OnCsrs J s)
    (hW : write = true → csrPrivilege s.instr.csr.toNat ≤ s.prv → W s.instr.csr.toNat) :
    Triple (· = s) (csrReadModify env write update) (fun _ ↦ OnCsrs J) fun _ ↦ OnCsrs J := by
  refine Triple.read_bind fun s' hs' ↦ ?_
  rw [hs']
  refine onCsrs_of_valid hs keeps_raiseIllegalInstruction fun hro hprv ↦ ?_
  refine Keeps.ite keeps_raiseIllegalInstruction (Keeps.bind (hJ.read _) fun _ ↦
    Keeps.bind (onCsrs_writeOldValue _) fun _ ↦ ?_)
  exact Triple.ite (fun hwrite ↦ hJ.write _ (hW hwrite hprv) (hro hwrite) _) fun _ ↦ Keeps.ret _

theorem CsrsClosed.execCsr {op : Opcode} {s : State} (hs : OnCsrs J s) (hop : isCsr op = true)
    (hW : writesCsr op s.instr = true → csrPrivilege s.instr.csr.toNat ≤ s.prv →
      W s.instr.csr.toNat) :
    Triple (· = s) (execCsr env op) (fun _ ↦ OnCsrs J) fun _ ↦ OnCsrs J := by
  refine Triple.read_bind fun s' hs' ↦ ?_
  rw [hs']
  dsimp only
  cases op with
  | CSRRW | CSRRWI => exact hJ.csrReadWrite _ hs (hW rfl)
  | CSRRS | CSRRC | CSRRSI | CSRRCI => exact hJ.csrReadModify _ hs hW
  | _ => cases hop

/-! ## Instructions -/

theorem CsrsClosed.executeOther {op : Opcode} {s : State} (hs : OnCsrs J s)
    (hW : writesCsr op s.instr = true → csrPrivilege s.instr.csr.toNat ≤ s.prv →
      W s.instr.csr.toNat) :
    Triple (· = s) (executeOther env op) (fun _ ↦ OnCsrs J) fun _ ↦ OnCsrs J := by
  have hkeeps : ∀ {m : IssM Bool}, Keeps (OnCsrs J) m →
      Triple (· = s) m (fun _ ↦ OnCsrs J) fun _ ↦ OnCsrs J := fun h ↦ Triple.pre h fun _ h ↦ h ▸ hs
  have hcsr : isCsr op = true → Triple (· = s) (do Iss.execCsr env op; return false)
      (fun _ ↦ OnCsrs J) fun _ ↦ OnCsrs J := fun hop ↦
    Triple.bind (hJ.execCsr hs hop hW) fun _ ↦ Keeps.ret _
  unfold Iss.executeOther
  split
  case h_1 => exact hkeeps keeps_raiseIllegalInstruction
  case h_2 | h_3 =>
    exact hkeeps (Keeps.read_bind fun _ _ ↦ Keeps.bind (onCsrs_jumpAndLink _) fun _ ↦ Keeps.ret _)
  case h_4 | h_5 | h_6 =>
    exact hkeeps (Keeps.bind (onCsrs_execStore _ _) fun _ ↦ Keeps.ret _)
  case h_7 | h_8 | h_9 =>
    exact hkeeps (onCsrs_execLoad _ fun _ ↦
      keeps_loadSigned onCsrs_ignoresMemory.keptByMarks _ _)
  case h_10 | h_11 =>
    exact hkeeps (onCsrs_execLoad _ fun _ ↦
      keeps_loadUnsigned onCsrs_ignoresMemory.keptByMarks _ _)
  case h_12 | h_13 => exact hkeeps (Keeps.ret _)
  case h_14 =>
    exact hkeeps (Keeps.bind (onCsrs_keptByCalls env).execEcall fun _ ↦ Keeps.ret _)
  case h_15 => exact hkeeps (Keeps.bind (Keeps.update fun _ h ↦ h) fun _ ↦ Keeps.ret _)
  case h_16 | h_17 | h_18 | h_19 | h_20 | h_21 => exact hcsr rfl
  case h_22 =>
    refine hkeeps (Keeps.bind (Keeps.bind (Keeps.update fun _ h ↦ h) fun _ ↦ ?_) fun _ ↦
      Keeps.ret _)
    exact Keeps.read_bind fun _ _ ↦
      Keeps.bind keeps_raiseIllegalInstructionIf fun _ ↦ keeps_raiseIllegalInstructionIf
  case h_23 =>
    exact hkeeps (Keeps.bind (Keeps.update fun _ h ↦ hJ.returnMachine h) fun _ ↦ Keeps.ret _)
  case h_24 => exact hkeeps (Keeps.raise _)

theorem CsrsClosed.execute {s : State} (hs : OnCsrs J s)
    (hW : writesCsr s.op s.instr = true → csrPrivilege s.instr.csr.toNat ≤ s.prv →
      W s.instr.csr.toNat) :
    Triple (· = s) (execute env) (fun _ ↦ OnCsrs J) fun _ ↦ OnCsrs J := by
  have hkeeps : ∀ {m : IssM Bool}, Keeps (OnCsrs J) m →
      Triple (· = s) m (fun _ ↦ OnCsrs J) fun _ ↦ OnCsrs J := fun h ↦ Triple.pre h fun _ h ↦ h ▸ hs
  refine Triple.read_bind fun s' hs' ↦ ?_
  rw [hs']
  split
  · exact hkeeps (Keeps.bind (Keeps.update fun _ h ↦ h) fun _ ↦ Keeps.ret _)
  split
  · exact hkeeps (Keeps.bind (onCsrs_execBranch _) fun _ ↦ Keeps.ret _)
  · exact hJ.executeOther hs hW

theorem CsrsClosed.execStep {s : State} (hs : OnCsrs J s) (hW : NextWrites W s) :
    Triple (· = s) (execStep env) (fun _ ↦ OnCsrs J) fun _ ↦ OnCsrs J := by
  have hfront : Triple (· = s) (do fetch; decode)
      (fun _ s' ↦ (∃ word, Decoded s word s') ∧ OnCsrs J s') fun _ ↦ OnCsrs J := by
    have hkept : Triple (· = s) (do fetch; decode) (fun _ ↦ OnCsrs J) fun _ ↦ OnCsrs J :=
      Triple.pre (Keeps.bind onCsrs_fetch fun _ ↦ onCsrs_decode) fun _ h ↦ h ▸ hs
    exact ((triple_fetch_decode s).and hkept).conseq (fun _ h ↦ h) (fun _ _ h ↦ h) fun _ _ h ↦ h.2
  rw [execStep_eq_bind]
  refine Triple.bind hfront fun _ ↦ Triple.of_start fun d hd ↦ ?_
  obtain ⟨⟨word, hdecoded⟩, hJd⟩ := hd
  have hclassify : Triple (· = d) classifyOperands (fun _ s' ↦ s' = d) fun _ ↦ OnCsrs J :=
    (keeps_classifyOperands (I := (· = d))).conseq (fun _ h ↦ h) (fun _ _ h ↦ h)
      fun _ _ h ↦ h ▸ hJd
  refine Triple.bind hclassify fun _ ↦ Triple.bind (hJ.execute hJd ?_) fun _ ↦
    keeps_cover (fun _ _ h ↦ h) env _
  rw [hdecoded.op, hdecoded.instr, hdecoded.prv]
  exact hW word hdecoded.fetchedWord

theorem CsrsClosed.switchToTrapHandler (mode : Nat) :
    Keeps (OnCsrs J) (switchToTrapHandler mode) :=
  Keeps.bind (Keeps.update fun _ h ↦ h) fun _ ↦ Keeps.ite
    (Keeps.update fun _ h ↦ hJ.enter mode _ _ h)
    (Keeps.bind (Keeps.update fun _ h ↦ h) fun _ ↦ Keeps.raise _)

theorem CsrsClosed.takeTrap (e : Thrown) : Keeps (OnCsrs J) (takeTrap e) := by
  cases e with
  | trap reason mtval =>
    refine Keeps.bind ?_ fun _ ↦ hJ.switchToTrapHandler _
    refine Keeps.bind (Keeps.update fun _ h ↦ h) fun _ ↦ Keeps.read_bind fun s _ ↦
      Keeps.bind keeps_ensure fun _ ↦ Keeps.bind ?_ fun _ ↦ Keeps.ret _
    exact Keeps.bind (Keeps.update fun _ h ↦ hJ.setCause _ _ _ h) fun _ ↦
      Keeps.ite (Keeps.raise _) (Keeps.update fun _ h ↦ hJ.setTval _ _ h)
  | host error => exact Keeps.raise _

theorem CsrsClosed.takePendingInterrupt : Keeps (OnCsrs J) takePendingInterrupt := by
  refine Keeps.read_bind fun s _ ↦ ?_
  split
  · exact Keeps.ret _
  · refine Keeps.bind ?_ fun _ ↦ hJ.switchToTrapHandler _
    unfold prepareInterrupt
    split
    · exact Keeps.raise _
    · exact Keeps.ite (Keeps.update fun _ h ↦ hJ.setCause _ _ _ h) (Keeps.raise _)

/-- The property holds when the instruction of a step is done, before it is counted. -/
theorem CsrsClosed.runStep {s : State} (hs : OnCsrs J s) (hW : NextWrites W s.started) :
    Triple (· = s) (runStep env)
      (fun _ s' ↦ s' = { s with status := .HitBreakpoint } ∨
        ∃ s₁, OnCsrs J s₁ ∧ s' = s₁.finishStep.updatePerformance) fun _ _ ↦ True := by
  refine triple_stepWith (Triple.handle (F := fun _ ↦ OnCsrs J)
    (Triple.bind (hJ.execStep hs hW) fun _ ↦ hJ.takePendingInterrupt) fun e ↦ ?_)
  exact (hJ.takeTrap e).conseq (fun _ h ↦ h) (fun _ _ h ↦ h) fun _ _ _ ↦ trivial

end Closed

end Step

/-! ## Registers that traps leave alone -/

/-- The registers that the entry into a trap handler or the return from one writes. -/
def CsrReg.isTrapRegister : CsrReg → Bool
  | .mstatus | .mepc | .sepc | .uepc | .mcause | .scause | .ucause | .mtval | .stval | .utval => true
  | _ => false

section Untouched

variable {csrs : CsrTable} {r : CsrReg} (hr : r.isTrapRegister = false)

include hr

theorem ne_mstatus : r ≠ .mstatus := by
  rintro rfl
  cases hr

theorem returnMachine_of_untouched : csrs.returnMachine r = csrs r := by
  have hne := ne_mstatus hr
  rw [CsrTable.returnMachine, CsrTable.setMstatus_of_ne _ _ _ hne,
    CsrTable.setMstatus_of_ne _ _ _ hne, CsrTable.setMstatus_of_ne _ _ _ hne]

theorem setCause_of_untouched (mode : Nat) (interrupt : BitVec 1) (code : Nat) :
    csrs.setCause (CsrTable.causeReg mode) interrupt code r = csrs r := by
  apply CsrTable.set_of_ne
  rintro rfl
  revert hr
  unfold CsrTable.causeReg
  split_ifs <;> decide

theorem setTval_of_untouched (mode : Nat) (value : BitVec 32) :
    csrs.set (CsrTable.tvalReg mode) value r = csrs r := by
  apply CsrTable.set_of_ne
  rintro rfl
  revert hr
  unfold CsrTable.tvalReg
  split_ifs <;> decide

theorem enter_of_untouched (mode pp : Nat) (epc : BitVec 32) :
    csrs.enter mode pp epc r = csrs r := by
  have hne := ne_mstatus hr
  have hepc : csrs.set (CsrTable.epcReg mode) epc r = csrs r := by
    apply CsrTable.set_of_ne
    rintro rfl
    revert hr
    unfold CsrTable.epcReg
    split_ifs <;> decide
  unfold CsrTable.enter
  split_ifs
  · rw [CsrTable.enterMachine, CsrTable.setMstatus_of_ne _ _ _ hne,
      CsrTable.setMstatus_of_ne _ _ _ hne, CsrTable.setMstatus_of_ne _ _ _ hne, hepc]
  · rw [CsrTable.enterSupervisor, CsrTable.setMstatus_of_ne _ _ _ hne,
      CsrTable.setMstatus_of_ne _ _ _ hne, CsrTable.setMstatus_of_ne _ _ _ hne, hepc]
  · rw [CsrTable.enterUser, CsrTable.setMstatus_of_ne _ _ _ hne,
      CsrTable.setMstatus_of_ne _ _ _ hne, hepc]

end Untouched

/-- A property of registers that traps leave alone is kept if reads keep it and writes do not address
the registers. -/
theorem CsrsClosed.of_untouched {env : Env} {W : Nat → Prop} {J : CsrTable → Nat → Prop}
    {R : CsrReg → Prop} (hR : ∀ r, R r → r.isTrapRegister = false)
    (hJ : ∀ {csrs csrs' n}, (∀ r, R r → csrs' r = csrs r) → J csrs n → J csrs' n)
    (hread : ∀ addr, Keeps (OnCsrs J) (getCsrValue env addr))
    (hwrite : ∀ m addr r mask, W addr → csrReadonly addr = false →
      writable m addr = some (r, mask) → ¬ R r) : CsrsClosed env W J where
  read := hread
  write := by
    intro addr hW hro value
    refine keeps_setCsrValue (fun s r mask value hs hw ↦ ?_) value
    refine hJ (fun r' hr' ↦ ?_) hs
    apply CsrTable.set_of_ne
    rintro rfl
    exact hwrite _ _ _ _ hW hro hw hr'
  returnMachine := hJ fun _ hr ↦ returnMachine_of_untouched (hR _ hr)
  setCause := fun _ _ _ ↦ hJ fun _ hr ↦ setCause_of_untouched (hR _ hr) _ _ _
  setTval := fun _ _ ↦ hJ fun _ hr ↦ setTval_of_untouched (hR _ hr) _ _
  enter := fun _ _ _ ↦ hJ fun _ hr ↦ enter_of_untouched (hR _ hr) _ _ _

end CoverageVP.Iss
