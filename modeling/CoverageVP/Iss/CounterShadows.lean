import CoverageVP.Iss.CsrViews

/-!
# The counters of user mode

The counters of user mode shadow those of machine mode. A read in machine mode brings the register of
cycles up to date, while the read of its shadow returns the register as it is. The two agree as long
as no cycle is counted and the register is not written.
-/

namespace CoverageVP.Iss

open Lib Clover Instr Csr

/-! ## Agreement in a state -/

/-- The counters of user mode with the counters that they shadow. -/
def counterShadows : List (Nat × Nat) :=
  [(CYCLE_ADDR, MCYCLE_ADDR), (TIME_ADDR, MTIME_ADDR), (INSTRET_ADDR, MINSTRET_ADDR),
    (CYCLEH_ADDR, MCYCLEH_ADDR), (TIMEH_ADDR, MTIMEH_ADDR), (INSTRETH_ADDR, MINSTRETH_ADDR)]

/-- A permitted read of an address returns a value. -/
structure ReadsCsr (env : Env) (s : State) (addr : Nat) (value : BitVec 32) : Prop where
  access : result (isInvalidCsrAccess addr false) s = some false
  value : result (getCsrValue env addr) s = some value

/-- Where both can be read, a counter and its shadow have the same value. -/
def ShadowsAgree (env : Env) (s : State) : Prop :=
  ∀ p ∈ counterShadows, ∀ x y, ReadsCsr env s p.1 x → ReadsCsr env s p.2 y → x = y

/-- The register of cycles is up to date. -/
def CyclesCached (csrs : CsrTable) (n : Nat) : Prop :=
  csrs.get64 .cycle .cycleh = BitVec.ofNat 64 n

theorem get64_eq_iff (csrs : CsrTable) (low high : CsrReg) (value : BitVec 64) :
    csrs.get64 low high = value ↔
      csrs low = value.extractLsb' 0 32 ∧ csrs high = value.extractLsb' 32 32 := by
  have hbit : ∀ i, (csrs.get64 low high).getLsbD i =
      if i < 32 then (csrs low).getLsbD i else (csrs high).getLsbD (i - 32) :=
    fun i ↦ BitVec.getLsbD_append
  constructor
  · rintro rfl
    constructor
    · apply BitVec.eq_of_getLsbD_eq
      intro i hi
      rw [BitVec.getLsbD_extractLsb', hbit, Nat.zero_add, if_pos hi, decide_eq_true hi,
        Bool.true_and]
    · apply BitVec.eq_of_getLsbD_eq
      intro i hi
      rw [BitVec.getLsbD_extractLsb', hbit, if_neg (by omega), Nat.add_sub_cancel_left,
        decide_eq_true hi, Bool.true_and]
  · rintro ⟨hlow, hhigh⟩
    apply BitVec.eq_of_getLsbD_eq
    intro i hi
    rw [hbit, hlow, hhigh, BitVec.getLsbD_extractLsb', BitVec.getLsbD_extractLsb']
    by_cases hlt : i < 32
    · rw [if_pos hlt, decide_eq_true hlt, Bool.true_and, Nat.zero_add]
    · have hsub : i - 32 < 32 := by omega
      rw [if_neg hlt, decide_eq_true hsub, Bool.true_and, Nat.add_sub_cancel' (by omega)]

theorem cyclesCached_iff {csrs : CsrTable} {n : Nat} :
    CyclesCached csrs n ↔ csrs .cycle = (BitVec.ofNat 64 n).extractLsb' 0 32 ∧
      csrs .cycleh = (BitVec.ofNat 64 n).extractLsb' 32 32 :=
  get64_eq_iff csrs .cycle .cycleh _

theorem prv_of_readsCsr {env : Env} {s : State} {addr : Nat} {x : BitVec 32}
    (h : ReadsCsr env s addr x) : csrPrivilege addr ≤ s.prv :=
  csrPrivilege_le_of_valid
    ((triple_isInvalidCsrAccess s addr false).of_ok rfl (eq_ok_of_result h.access)).2.symm

/-- What the reads of a counter and its shadow return. -/
theorem ReadsCsr.value_eq {env : Env} {s : State} {addr : Nat} {x : BitVec 32} {src : CsrSource}
    (h : ReadsCsr env s addr x) (hsrc : readSource addr = some src) : x = src.value env s := by
  obtain ⟨src', hsrc', rfl⟩ := exists_source_of_result h.value
  rw [Option.some.inj (hsrc.symm.trans hsrc')]

/-- Machine mode accesses every register that is not one of supervisor mode or of the floating point
unit. -/
theorem isInvalidCsrAccess_machine {s : State} (hprv : s.prv = MachineMode)
    (huser : s.csrs.hasUserModeExtension = true) {addr : Nat} {isWrite : Bool}
    (hro : isWrite = true → csrReadonly addr = false) (hmode : csrPrivilege addr ≠ SupervisorMode)
    (hle : csrPrivilege addr ≤ MachineMode)
    (hfloat : ¬ (addr = FFLAGS_ADDR ∨ addr = FRM_ADDR ∨ addr = FCSR_ADDR)) :
    isInvalidCsrAccess addr isWrite s = .ok false s := by
  have hvalid : s.csrAccessInvalid addr isWrite = false := by
    cases isWrite with
    | false => simp [State.csrAccessInvalid, hprv, huser, hmode, hle]
    | true => simp [State.csrAccessInvalid, hprv, huser, hmode, hle, hro rfl]
  rw [isInvalidCsrAccess, get_bind, bind_of_ok
    (raiseIllegalInstructionIf_of_false (fun h ↦ hfloat h.1) s), hvalid]
  rfl

theorem readsCsr_machine {env : Env} {s : State} (hprv : s.prv = MachineMode)
    (huser : s.csrs.hasUserModeExtension = true) {addr : Nat} {src : CsrSource}
    (hsrc : readSource addr = some src) (hmode : csrPrivilege addr ≠ SupervisorMode)
    (hle : csrPrivilege addr ≤ MachineMode) (hsatp : addr ≠ SATP_ADDR)
    (hfloat : ¬ (addr = FFLAGS_ADDR ∨ addr = FRM_ADDR ∨ addr = FCSR_ADDR)) :
    ReadsCsr env s addr (src.value env s) := by
  classical
  constructor
  · rw [result, isInvalidCsrAccess_machine hprv huser Bool.noConfusion hmode hle hfloat]
  · have hshown : ¬ s.CsrHidden addr := by
      rintro (⟨-, h | h⟩ | h)
      · exact absurd (hprv.symm.trans h.1) (by decide)
      · exact absurd (hprv.symm.trans h.1) (by decide)
      · exact hsatp h.1
    rw [result_getCsrValue, if_neg hshown, hsrc]
    rfl

/-- The shadows agree where the register of cycles is up to date. The other modes cannot read both. -/
theorem shadowsAgree_iff_cyclesCached {env : Env} {s : State} (hs : Reachable env s) :
    ShadowsAgree env s ↔ (s.prv = MachineMode → CyclesCached s.csrs s.cycleCounter) := by
  have hinv := hs.stepInvariant.csrs
  have hregister := registerValue s env
  constructor
  · intro h hprv
    rw [cyclesCached_iff]
    constructor
    · have hcycle := h (CYCLE_ADDR, MCYCLE_ADDR) (by simp [counterShadows]) _ _
        (readsCsr_machine hprv hinv.userMode rfl (by decide) (by decide) (by decide) (by decide))
        (readsCsr_machine hprv hinv.userMode rfl (by decide) (by decide) (by decide) (by decide))
      rwa [hregister] at hcycle
    · have hcycleh := h (CYCLEH_ADDR, MCYCLEH_ADDR) (by simp [counterShadows]) _ _
        (readsCsr_machine hprv hinv.userMode rfl (by decide) (by decide) (by decide) (by decide))
        (readsCsr_machine hprv hinv.userMode rfl (by decide) (by decide) (by decide) (by decide))
      rwa [hregister] at hcycleh
  · intro h p hp x y hx hy
    have hprv : s.prv = MachineMode := by
      have hall : ∀ p ∈ counterShadows, csrPrivilege p.2 = MachineMode := by decide
      exact Nat.le_antisymm hinv.mode (hall p hp ▸ prv_of_readsCsr hy)
    obtain ⟨hlow, hhigh⟩ := cyclesCached_iff.mp (h hprv)
    simp only [counterShadows, List.mem_cons, List.not_mem_nil, or_false] at hp
    rcases hp with rfl | rfl | rfl | rfl | rfl | rfl
    · rw [hx.value_eq rfl, hy.value_eq rfl, hregister, hlow]
      rfl
    · rw [hx.value_eq rfl, hy.value_eq rfl]
    · rw [hx.value_eq rfl, hy.value_eq rfl]
    · rw [hx.value_eq rfl, hy.value_eq rfl, hregister, hhigh]
      rfl
    · rw [hx.value_eq rfl, hy.value_eq rfl]
    · rw [hx.value_eq rfl, hy.value_eq rfl]

/-! ## What a step can do to the register of cycles -/

def CsrTable.cyclesInhibited (csrs : CsrTable) : Bool := (csrs .mcountinhibit).getLsbD 0

/-- The register of cycles and the bit that inhibits them have addresses of their own. -/
theorem writable_cycles {m : BitVec 32} {addr : Nat} {r : CsrReg} {mask : BitVec 32}
    (hro : csrReadonly addr = false) (hw : writable m addr = some (r, mask)) :
    (r = .cycle → addr = MCYCLE_ADDR) ∧ (r = .cycleh → addr = MCYCLEH_ADDR) ∧
      (r = .mcountinhibit → addr = MCOUNTINHIBIT_ADDR) := by
  have hall : ∀ p ∈ registerMapping, csrReadonly p.1 = false →
      (p.2 = .cycle → p.1 = MCYCLE_ADDR) ∧ (p.2 = .cycleh → p.1 = MCYCLEH_ADDR) ∧
        (p.2 = .mcountinhibit → p.1 = MCOUNTINHIBIT_ADDR) := by
    decide +kernel
  unfold writable at hw
  split at hw
  case h_1 p hp =>
    cases hw
    unfold writeMask at hp
    split at hp <;> cases hp
    all_goals decide
  case h_2 =>
    split at hw
    case h_1 => cases hw
    case h_2 | h_3 | h_4 =>
      cases hw
      decide
    case h_5 =>
      split at hw
      · cases hw
      · obtain ⟨r', hr, heq⟩ := Option.map_eq_some_iff.mp hw
        cases heq
        obtain ⟨_, _, hsplit, -⟩ := List.lookup_eq_some_iff.mp hr
        exact hall (addr, r) (by simp [hsplit]) hro

/-- The registers of cycles are up to date with a count of `c`. -/
def CyclesCachedAt (c : Nat) (csrs : CsrTable) (n : Nat) : Prop := CyclesCached csrs c ∧ n = c

theorem csrsClosed_cyclesCachedAt (env : Env) (c : Nat) :
    CsrsClosed env (fun addr ↦ addr ≠ MCYCLE_ADDR ∧ addr ≠ MCYCLEH_ADDR) (CyclesCachedAt c) := by
  refine CsrsClosed.of_untouched (R := fun r ↦ r = .cycle ∨ r = .cycleh) ?_ ?_ ?_ ?_
  · rintro r (rfl | rfl) <;> rfl
  · rintro csrs csrs' n h ⟨hcached, hn⟩
    refine ⟨?_, hn⟩
    rw [cyclesCached_iff, h _ (.inl rfl), h _ (.inr rfl)]
    exact cyclesCached_iff.mp hcached
  · intro addr
    refine keeps_getCsrValue_of_updates (Keeps.update fun s hs ↦ ?_) (Keeps.update fun s hs ↦ ?_) addr
    · refine ⟨?_, hs.2⟩
      change CyclesCached (s.csrs.set64 .time .timeh _) c
      rw [cyclesCached_iff, CsrTable.set64, CsrTable.set_of_ne _ _ (by decide),
        CsrTable.set_of_ne _ _ (by decide), CsrTable.set_of_ne _ _ (by decide),
        CsrTable.set_of_ne _ _ (by decide)]
      exact cyclesCached_iff.mp hs.1
    · refine ⟨cyclesCached_iff.mpr ⟨?_, ?_⟩, hs.2⟩
      · rw [← hs.2]
        exact set64_low s.csrs _ (by decide : CsrReg.cycle ≠ .cycleh)
      · rw [← hs.2]
        exact set64_high s.csrs .cycle .cycleh _
  · rintro m addr r mask ⟨hmcycle, hmcycleh⟩ hro hw (hr | hr)
    · exact hmcycle ((writable_cycles hro hw).1 hr)
    · exact hmcycleh ((writable_cycles hro hw).2.1 hr)

theorem csrsClosed_cyclesInhibited (env : Env) :
    CsrsClosed env (fun addr ↦ addr ≠ MCOUNTINHIBIT_ADDR)
      fun csrs _ ↦ csrs.cyclesInhibited = true := by
  refine CsrsClosed.of_untouched (R := fun r ↦ r = .mcountinhibit) ?_ ?_ ?_ ?_
  · rintro r rfl
    rfl
  · intro csrs csrs' n h hcsrs
    rwa [CsrTable.cyclesInhibited, h _ rfl]
  · intro addr
    refine keeps_getCsrValue (fun s csrs n h hs ↦ ?_) env addr
    change csrs.cyclesInhibited = true
    rwa [CsrTable.cyclesInhibited, h .mcountinhibit rfl]
  · intro m addr r mask hne hro hw hr
    exact hne ((writable_cycles hro hw).2.2 hr)

/-! ## A step that inhibits the counter -/

/-- The operand of a CSR instruction. -/
def State.csrOperand (s : State) (op : Opcode) (instr : Instruction) : BitVec 32 :=
  match op with
  | .CSRRW | .CSRRS | .CSRRC => getValue (s.regs (instr.rs1.setWidth 5))
  | _ => instr.zimm

/-- The bit that a CSR instruction makes of an old one. -/
def writtenBit (op : Opcode) (operand old : Bool) : Bool :=
  match op with
  | .CSRRW | .CSRRWI => operand
  | .CSRRS | .CSRRSI => old || operand
  | .CSRRC | .CSRRCI => old && !operand
  | _ => old

/-- The next step does not count its cycles: they are inhibited by what its instruction leaves in
`mcountinhibit`, which only machine mode can write. -/
def State.inhibitsNext (s : State) : Bool :=
  match s.fetchedWord with
  | some word =>
    if s.prv = MachineMode ∧ (decodeWord word).2.csr.toNat = MCOUNTINHIBIT_ADDR then
      writtenBit (decodeWord word).1
        ((s.csrOperand (decodeWord word).1 (decodeWord word).2).getLsbD 0) s.csrs.cyclesInhibited
    else s.csrs.cyclesInhibited
  | none => s.csrs.cyclesInhibited

theorem getCsrValue_mcountinhibit (env : Env) (s : State) :
    getCsrValue env MCOUNTINHIBIT_ADDR s = .ok (s.csrs .mcountinhibit) s := by
  have hvalidate : validateCsrCounterReadAccessRights MCOUNTINHIBIT_ADDR s = .ok () s := by
    rw [validateCsrCounterReadAccessRights, get_bind]
    exact raiseIllegalInstructionIf_of_false (fun h ↦ absurd h.1 (by decide)) s
  unfold getCsrValue
  rw [bind_of_ok hvalidate]
  rfl

theorem cyclesInhibited_setCsrValue (value : BitVec 32) :
    Triple (fun _ ↦ True) (setCsrValue MCOUNTINHIBIT_ADDR value)
      (fun _ s' ↦ s'.csrs.cyclesInhibited = value.getLsbD 0) fun _ _ ↦ False := by
  refine Triple.read_bind fun s _ ↦ ?_
  change Triple _ (writeCsr .mcountinhibit MCOUNTINHIBIT_MASK value) _ _
  refine Triple.update fun s' _ ↦ ?_
  have hstored : (s'.setCsr .mcountinhibit (maskedWrite (s'.csrs .mcountinhibit)
      MCOUNTINHIBIT_MASK value)).csrs .mcountinhibit =
        maskedWrite (s'.csrs .mcountinhibit) MCOUNTINHIBIT_MASK value :=
    CsrTable.set_self s'.csrs .mcountinhibit _
  rw [CsrTable.cyclesInhibited, hstored, maskedWrite, BitVec.getLsbD_or, BitVec.getLsbD_and,
    BitVec.getLsbD_and, BitVec.getLsbD_not]
  simp [MCOUNTINHIBIT_MASK]

theorem modified_or {write : Bool} {old v : BitVec 32} (h : write = false → v.getLsbD 0 = false) :
    (if write then (old ||| v).getLsbD 0 else old.getLsbD 0) =
      (old.getLsbD 0 || v.getLsbD 0) := by
  cases write with
  | true => exact BitVec.getLsbD_or
  | false => rw [if_neg Bool.false_ne_true, h rfl, Bool.or_false]

theorem modified_and_not {write : Bool} {old v : BitVec 32}
    (h : write = false → v.getLsbD 0 = false) :
    (if write then (old &&& ~~~v).getLsbD 0 else old.getLsbD 0) =
      (old.getLsbD 0 && !v.getLsbD 0) := by
  cases write with
  | true =>
    rw [if_pos rfl, BitVec.getLsbD_and, BitVec.getLsbD_not]
    rfl
  | false => rw [if_neg Bool.false_ne_true, h rfl, Bool.not_false, Bool.and_true]

section Inhibit

variable (env : Env) {s : State} (hprv : s.prv = MachineMode)
  (huser : s.csrs.hasUserModeExtension = true) (haddr : s.instr.csr.toNat = MCOUNTINHIBIT_ADDR)

include hprv huser haddr

theorem triple_csrReadWrite_mcountinhibit (value : BitVec 32) :
    Triple (· = s) (csrReadWrite env value)
      (fun _ s' ↦ s'.csrs.cyclesInhibited = value.getLsbD 0) fun _ _ ↦ False := by
  refine Triple.read_bind fun s' hs' ↦ ?_
  rw [hs', haddr]
  have hvalid : isInvalidCsrAccess MCOUNTINHIBIT_ADDR true s = .ok false s :=
    isInvalidCsrAccess_machine hprv huser (fun _ ↦ by decide) (by decide) (by decide) (by decide)
  refine Triple.bind (Q := fun invalid s' ↦ invalid = false) ?_ fun invalid ↦
    Triple.of_start fun s₁ h₁ ↦ ?_
  · rintro _ rfl
    rw [hvalid]
  · rw [h₁, if_neg Bool.false_ne_true]
    refine Triple.ite (fun _ ↦ ?_) fun _ ↦ Triple.pre (cyclesInhibited_setCsrValue value)
      fun _ _ ↦ trivial
    refine Triple.bind (Q := fun _ _ ↦ True) ?_ fun old ↦ Triple.bind (Q := fun _ _ ↦ True) ?_
      fun _ ↦ cyclesInhibited_setCsrValue value
    · rintro _ rfl
      rw [getCsrValue_mcountinhibit]
      trivial
    · exact Triple.read_bind fun _ _ ↦ Triple.ite (fun _ ↦ Triple.update fun _ _ ↦ trivial)
        fun _ ↦ Triple.ret fun _ _ ↦ trivial

theorem triple_csrReadModify_mcountinhibit (write : Bool) (update : BitVec 32 → BitVec 32) :
    Triple (· = s) (csrReadModify env write update)
      (fun _ s' ↦ s'.csrs.cyclesInhibited =
        if write then (update (s.csrs .mcountinhibit)).getLsbD 0 else s.csrs.cyclesInhibited)
      fun _ _ ↦ False := by
  refine Triple.read_bind fun s' hs' ↦ ?_
  rw [hs', haddr]
  have hvalid : isInvalidCsrAccess MCOUNTINHIBIT_ADDR write s = .ok false s :=
    isInvalidCsrAccess_machine hprv huser (fun _ ↦ by decide) (by decide) (by decide) (by decide)
  refine Triple.bind (Q := fun invalid s' ↦ invalid = false ∧ s' = s) ?_ fun invalid ↦
    Triple.of_start fun s₁ h₁ ↦ ?_
  · rintro _ rfl
    rw [hvalid]
    exact ⟨rfl, rfl⟩
  · obtain ⟨rfl, rfl⟩ := h₁
    rw [if_neg Bool.false_ne_true]
    refine Triple.bind (Q := fun old s' ↦ old = s₁.csrs .mcountinhibit ∧ s' = s₁) ?_ fun old ↦
      Triple.of_start fun s₂ h₂ ↦ ?_
    · rintro _ rfl
      rw [getCsrValue_mcountinhibit]
      exact ⟨rfl, rfl⟩
    · obtain ⟨rfl, rfl⟩ := h₂
      refine Triple.bind (Q := fun _ s' ↦ s'.csrs = s₂.csrs) ?_ fun _ ↦
        Triple.ite (fun hwrite ↦ ?_) fun hwrite ↦ Triple.ret fun s' h ↦ ?_
      · refine Triple.read_bind fun s' hs' ↦ ?_
        rw [hs']
        exact Triple.ite (fun _ ↦ Triple.update fun s'' h ↦ h ▸ rfl) fun _ ↦
          Triple.ret fun s'' h ↦ h ▸ rfl
      · rw [if_pos hwrite]
        exact Triple.pre (cyclesInhibited_setCsrValue _) fun _ _ ↦ trivial
      · rw [if_neg hwrite, h]

/-- A CSR instruction of machine mode leaves the bit that it writes. -/
theorem triple_execCsr_mcountinhibit {op : Opcode} (hop : isCsr op = true)
    (hzero : getValue (s.regs RegFile.zero) = 0#32) :
    Triple (· = s) (execCsr env op)
      (fun _ s' ↦ s'.csrs.cyclesInhibited =
        writtenBit op ((s.csrOperand op s.instr).getLsbD 0) s.csrs.cyclesInhibited)
      fun _ _ ↦ False := by
  refine Triple.read_bind fun s' hs' ↦ ?_
  rw [hs']
  have hmodify := triple_csrReadModify_mcountinhibit env hprv huser haddr
  have hrs1 : decide (s.rs1 ≠ RegFile.zero) = false →
      (getValue (s.regs s.rs1)).getLsbD 0 = false := by
    intro h
    rw [of_not_not (of_decide_eq_false h), hzero]
    rfl
  have hzimm : decide (s.instr.zimm ≠ 0#32) = false → s.instr.zimm.getLsbD 0 = false := by
    intro h
    rw [of_not_not (of_decide_eq_false h)]
    rfl
  cases op with
  | CSRRW | CSRRWI => exact triple_csrReadWrite_mcountinhibit env hprv huser haddr _
  | CSRRS => exact (hmodify _ _).post fun _ _ h ↦ h.trans (modified_or hrs1)
  | CSRRC => exact (hmodify _ _).post fun _ _ h ↦ h.trans (modified_and_not hrs1)
  | CSRRSI => exact (hmodify _ _).post fun _ _ h ↦ h.trans (modified_or hzimm)
  | CSRRCI => exact (hmodify _ _).post fun _ _ h ↦ h.trans (modified_and_not hzimm)
  | _ => cases hop

end Inhibit

theorem csrOperand_congr {s s' : State} (h : s'.regs = s.regs) (op : Opcode)
    (instr : Instruction) : s'.csrOperand op instr = s.csrOperand op instr := by
  unfold State.csrOperand
  rw [h]

theorem execute_of_isCsr (env : Env) {s : State} (hop : isCsr s.op = true) :
    execute env s = (do execCsr env s.op; return false : IssM Bool) s := by
  rw [execute, get_bind]
  cases h : s.op <;> rw [h] at hop <;> first
    | rfl
    | cases hop

/-- A CSR instruction of machine mode that writes `mcountinhibit` does not trap. -/
theorem triple_execStep_mcountinhibit (env : Env) {s : State} {word : BitVec 32}
    (hprv : s.prv = MachineMode) (huser : s.csrs.hasUserModeExtension = true)
    (hcompressed : s.csrs.hasCExtension = true) (hzero : getValue (s.regs RegFile.zero) = 0#32)
    (hword : s.fetchedWord = some word) (hop : isCsr (decodeWord word).1 = true)
    (haddr : (decodeWord word).2.csr.toNat = MCOUNTINHIBIT_ADDR) :
    Triple (· = s) (execStep env)
      (fun _ s' ↦ s'.csrs.cyclesInhibited = writtenBit (decodeWord word).1
        ((s.csrOperand (decodeWord word).1 (decodeWord word).2).getLsbD 0) s.csrs.cyclesInhibited)
      fun e _ ↦ isHost e := by
  rw [execStep_eq_bind]
  refine Triple.bind (triple_fetch_decode_of_word hcompressed hword) fun _ ↦
    Triple.of_start fun d hd ↦ Triple.bind (triple_classifyOperands d) fun flags ↦ ?_
  have hcsr := triple_execCsr_mcountinhibit env (hd.prv.trans hprv)
    (hd.csrs ▸ huser) (hd.instr ▸ haddr) (hd.op ▸ hop) (hd.regs ▸ hzero)
  rw [hd.op, hd.instr, csrOperand_congr hd.regs, hd.csrs] at hcsr
  refine Triple.bind (Q := fun _ s' ↦ s'.csrs.cyclesInhibited = writtenBit (decodeWord word).1
    ((s.csrOperand (decodeWord word).1 (decodeWord word).2).getLsbD 0) s.csrs.cyclesInhibited) ?_
    fun init ↦ Triple.of_start fun s' hs' ↦ ?_
  · rintro _ rfl
    rw [execute_of_isCsr env (hd.op ▸ hop), hd.op]
    exact Triple.bind (hcsr.conseq (fun _ h ↦ h) (fun _ _ h ↦ h) fun _ _ h ↦ h.elim)
      (fun _ ↦ Triple.ret fun _ h ↦ h) _ rfl
  · refine (triple_cover env _ s').conseq (fun _ h ↦ h) ?_ fun _ _ h ↦ h
    rintro - _ ⟨cov, rfl⟩
    exact hs'

theorem updatePerformance_mcountinhibit (s : State) :
    s.updatePerformance.csrs.cyclesInhibited = s.csrs.cyclesInhibited := by
  have hcsrs := State.updatePerformance_csrs s .mcountinhibit rfl
  rw [CsrTable.cyclesInhibited, hcsrs]
  rfl

theorem cyclesCached_updatePerformance {s : State} {c : Nat} (h : CyclesCached s.csrs c) :
    CyclesCached s.updatePerformance.csrs c := by
  rw [cyclesCached_iff] at h ⊢
  unfold State.updatePerformance
  dsimp only
  split
  · exact h
  · rw [CsrTable.set64, CsrTable.set_of_ne _ _ (by decide), CsrTable.set_of_ne _ _ (by decide),
      CsrTable.set_of_ne _ _ (by decide), CsrTable.set_of_ne _ _ (by decide)]
    exact h

theorem isCsr_of_writesCsr {op : Opcode} {instr : Instruction} (h : writesCsr op instr = true) :
    isCsr op = true := by
  cases op <;> first
    | rfl
    | cases h

theorem writtenBit_of_not_isCsr {op : Opcode} (h : isCsr op = false) (operand old : Bool) :
    writtenBit op operand old = old := by
  cases op <;> first
    | rfl
    | cases h

/-- The cycles are inhibited at the end of a step that inhibits them. -/
theorem triple_runStep_inhibits (env : Env) {s : State} (hinv : StepInvariant MachineInvariant 1#32 s)
    (hzero : getValue (s.regs RegFile.zero) = 0#32) (h : s.started.inhibitsNext = true) :
    Triple (· = s) (runStep env)
      (fun _ s' ↦ s' = { s with status := .HitBreakpoint } ∨
        ∃ s₁ : State, s₁.csrs.cyclesInhibited = true ∧ s' = s₁.finishStep.updatePerformance)
      fun _ _ ↦ True := by
  have hclosed := csrsClosed_cyclesInhibited env
  by_cases hwrites : ∃ word, s.started.fetchedWord = some word ∧ s.started.prv = MachineMode ∧
      (decodeWord word).2.csr.toNat = MCOUNTINHIBIT_ADDR ∧ isCsr (decodeWord word).1 = true
  · obtain ⟨word, hword, hprv, haddr, hop⟩ := hwrites
    have hstep := triple_execStep_mcountinhibit env hprv hinv.csrs.userMode hinv.csrs.compressed
      hzero hword hop haddr
    rw [State.inhibitsNext, hword] at h
    dsimp only at h
    rw [if_pos ⟨hprv, haddr⟩] at h
    rw [h] at hstep
    refine triple_stepWith (Triple.handle (F := fun e s' ↦ isHost e ∨
      s'.csrs.cyclesInhibited = true) (Triple.bind (hstep.conseq (fun _ h ↦ h) (fun _ _ h ↦ h)
        fun _ _ h ↦ .inl h) fun _ ↦ hclosed.takePendingInterrupt.conseq (fun _ h ↦ h)
          (fun _ _ h ↦ h) fun _ _ h ↦ .inr h) fun e ↦ Triple.of_start fun s' hs' ↦ ?_)
    rcases hs' with hhost | hs'
    · obtain ⟨error, rfl⟩ := exists_host_of_isHost hhost
      exact Triple.raise fun _ _ ↦ trivial
    · exact (hclosed.takeTrap e).conseq (fun _ h ↦ h ▸ hs') (fun _ _ h ↦ h) fun _ _ _ ↦ trivial
  · have hbit : s.csrs.cyclesInhibited = true := by
      rw [State.inhibitsNext] at h
      cases hword : s.started.fetchedWord with
      | none => rwa [hword] at h
      | some word =>
        rw [hword] at h
        dsimp only at h
        split at h
        case isTrue hcond =>
          rw [writtenBit_of_not_isCsr] at h
          · exact h
          · rw [← Bool.not_eq_true]
            intro hop
            exact hwrites ⟨word, hword, hcond.1, hcond.2, hop⟩
        case isFalse => exact h
    refine hclosed.runStep hbit ?_
    intro word hword hop hle heq
    rw [heq] at hle
    exact hwrites ⟨word, hword, Nat.le_antisymm hinv.csrs.mode hle, heq, isCsr_of_writesCsr hop⟩

/-! ## Runs -/

/-- The condition of a step: its cycles are not counted, and it does not write the register of
cycles. -/
def State.KeepsCycles (s : State) : Prop :=
  s.started.inhibitsNext = true ∧
    NextWrites (fun addr ↦ addr ≠ MCYCLE_ADDR ∧ addr ≠ MCYCLEH_ADDR) s.started

theorem cyclesCached_of_runStep {env : Env} {s s' : State}
    (hinv : StepInvariant MachineInvariant 1#32 s) (hzero : getValue (s.regs RegFile.zero) = 0#32)
    (hcached : CyclesCached s.csrs s.cycleCounter) (hkeeps : s.KeepsCycles)
    (hstep : runStep env s = .ok () s') : CyclesCached s'.csrs s'.cycleCounter := by
  have hcount := ((csrsClosed_cyclesCachedAt env s.cycleCounter).runStep ⟨hcached, rfl⟩
    hkeeps.2).of_ok rfl hstep
  have hinhibit := (triple_runStep_inhibits env hinv hzero hkeeps.1).of_ok rfl hstep
  rcases hcount with rfl | ⟨s₁, ⟨hs₁, hcounter⟩, rfl⟩
  · exact hcached
  rcases hinhibit with heq | ⟨s₂, hs₂, heq⟩
  · rw [heq]
    exact hcached
  · have hbit : s₁.csrs.cyclesInhibited = true := by
      calc s₁.csrs.cyclesInhibited
          = s₁.finishStep.updatePerformance.csrs.cyclesInhibited :=
            (updatePerformance_mcountinhibit s₁.finishStep).symm
        _ = s₂.finishStep.updatePerformance.csrs.cyclesInhibited := by rw [heq]
        _ = s₂.csrs.cyclesInhibited := updatePerformance_mcountinhibit s₂.finishStep
        _ = true := hs₂
    have hsame : s₁.finishStep.updatePerformance.cycleCounter = s.cycleCounter :=
      (if_pos hbit).trans hcounter
    rw [hsame]
    exact cyclesCached_updatePerformance hs₁

theorem Reaches.mono {env : Env} {start start' ok ok' : State → Prop}
    (hstart : ∀ s, start s → start' s) (hok : ∀ s, ok s → ok' s) {s : State}
    (h : Reaches env start ok s) : Reaches env start' ok' s := by
  induction h with
  | init hinit => exact .init (hstart _ hinit)
  | step _ hs hstep ih => exact .step ih (hok _ hs) hstep
  | irq irq _ ih => exact .irq irq ih

theorem Reaches.reachable {env : Env} {ok : State → Prop} {s : State}
    (h : Reaches env State.Initial ok s) : Reachable env s := by
  induction h with
  | init hinit => exact .init hinit
  | step _ _ hstep ih => exact .step ih hstep
  | irq irq _ ih => exact .irq irq ih

theorem interrupt_cycles (s : State) (irq : Irq) :
    (s.interrupt irq).csrs .cycle = s.csrs .cycle ∧
      (s.interrupt irq).csrs .cycleh = s.csrs .cycleh ∧
      (s.interrupt irq).cycleCounter = s.cycleCounter := by
  have hset : ∀ {r : CsrReg} value, r ≠ .mip → (s.setCsr .mip value).csrs r = s.csrs r :=
    fun _ hne ↦ CsrTable.set_of_ne s.csrs _ hne
  unfold State.interrupt
  split
  · exact ⟨hset _ (by decide), hset _ (by decide), rfl⟩
  · exact ⟨rfl, rfl, rfl⟩

/-- A core out of reset that has not counted a cycle. -/
def State.Fresh (s : State) : Prop := s.Initial ∧ s.cycleCounter = 0

theorem Reaches.cyclesCached {env : Env} {s : State}
    (h : Reaches env State.Fresh State.KeepsCycles s) : CyclesCached s.csrs s.cycleCounter := by
  induction h with
  | init hinit =>
    obtain ⟨hartId, useEBaseIsa, hcsrs⟩ := hinit.1.csrs
    rw [cyclesCached_iff, hcsrs, hinit.2]
    exact ⟨rfl, rfl⟩
  | step hs hkeeps hstep ih =>
    have hreachable := (hs.mono (fun _ h ↦ h.1) fun _ h ↦ h).reachable
    have hzero := hs.zero fun _ h ↦ h.1.zero
    exact cyclesCached_of_runStep hreachable.stepInvariant (by rw [hzero]; rfl) ih hkeeps hstep
  | @irq s irq _ ih =>
    obtain ⟨hcycle, hcycleh, hcounter⟩ := interrupt_cycles s irq
    rw [cyclesCached_iff, hcycle, hcycleh, hcounter]
    exact cyclesCached_iff.mp ih

/-- The counters agree in every state of a run that does not count cycles. -/
theorem counters_shadowed {env : Env} {s : State}
    (h : Reaches env State.Fresh State.KeepsCycles s) : ShadowsAgree env s :=
  (shadowsAgree_iff_cyclesCached (h.mono (fun _ h ↦ h.1) fun _ h ↦ h).reachable).mpr
    fun _ ↦ h.cyclesCached

/-- `csrrwi x0, mcountinhibit, 1` -/
def inhibitProgram : List (BitVec 8) := assemble [0x3200D073#32]

theorem counters_shadowed_inhibited :
    ∃ s, runStep bootEnv (bootState inhibitProgram) = .ok () s ∧ ShadowsAgree bootEnv s := by
  have hstep := eq_ok_of_returns (m := runStep bootEnv) (s := bootState inhibitProgram)
    (by decide +kernel)
  have hword : (bootState inhibitProgram).started.fetchedWord = some 0x3200D073#32 := by
    decide +kernel
  refine ⟨_, hstep, counters_shadowed (.step (.init ⟨bootState_initial _, rfl⟩) ⟨?_, ?_⟩ hstep)⟩
  · decide +kernel
  · intro word hfetched
    obtain rfl := Option.some.inj (hfetched.symm.trans hword)
    decide +kernel

/-- After one instruction, `cycle` reads zero and `mcycle` reads one. -/
theorem not_shadowsAgree_nop :
    ∃ s, Reachable bootEnv s ∧ ReadsCsr bootEnv s CYCLE_ADDR 0#32 ∧
      ReadsCsr bootEnv s MCYCLE_ADDR 1#32 ∧ ¬ ShadowsAgree bootEnv s := by
  have hstep := eq_ok_of_returns (m := runStep bootEnv) (s := bootState (assemble [0x13#32]))
    (by decide +kernel)
  have hcycle : ReadsCsr bootEnv (stateAfter (runStep bootEnv) (bootState (assemble [0x13#32])))
      CYCLE_ADDR 0#32 := ⟨by decide +kernel, by decide +kernel⟩
  have hmcycle : ReadsCsr bootEnv (stateAfter (runStep bootEnv) (bootState (assemble [0x13#32])))
      MCYCLE_ADDR 1#32 := ⟨by decide +kernel, by decide +kernel⟩
  refine ⟨_, .step (.init (bootState_initial _)) hstep, hcycle, hmcycle, fun h ↦ ?_⟩
  have heq := h (CYCLE_ADDR, MCYCLE_ADDR) (by simp [counterShadows]) _ _ hcycle hmcycle
  exact absurd heq (by decide)

end CoverageVP.Iss
