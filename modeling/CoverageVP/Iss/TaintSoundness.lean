import CoverageVP.Iss.CoupledSteps
import CoverageVP.Iss.GivenLoads

/-!
# Soundness of the taint flags

Two runs that execute the same instructions with the same addresses, and differ in what loads from
symbolic addresses return, agree on every value that is untainted in both. The flag follows the data
through registers and memory. It is lost where the core uses the concrete part of a value for
something other than data: a page walk stores an entry back without its flag, and an interrupt saves
the address that a branch on a tainted condition would have continued at.
-/

namespace CoverageVP.Iss

open Lib Clover Instr

/-! ## Untainted values agree -/

/-- Values of the same width of which one is tainted or whose concrete parts are the same. -/
def Agree (a b : ConcolicValue) : Prop :=
  a.getWidth = b.getWidth ∧ (a.tainted = true ∨ b.tainted = true ∨ a.concrete = b.concrete)

theorem Agree.unaryOperator {a b : ConcolicValue} (h : Agree a b) {f : BV → BV} {g : Expr → Expr}
    {width : Nat} (hf : ∀ bv, (f bv).width = width) :
    Agree (a.unaryOperator f g) (b.unaryOperator f g) := by
  refine ⟨(hf _).trans (hf _).symm, ?_⟩
  rcases h.2 with ha | hb | hab
  · exact .inl ha
  · exact .inr (.inl hb)
  · exact .inr (.inr (congrArg f hab))

theorem Agree.binaryOperator (op : BinOp) {a b a' b' : ConcolicValue} (h : Agree a b)
    (h' : Agree a' b') : Agree (a.binaryOperator op a') (b.binaryOperator op b') := by
  refine ⟨BinOp.width_eval_congr op h.1 h'.1, ?_⟩
  change (a.tainted || a'.tainted) = true ∨ (b.tainted || b'.tainted) = true ∨
    op.eval a.concrete a'.concrete = op.eval b.concrete b'.concrete
  rcases h.2 with ha | hb | hab
  · exact .inl (by rw [ha, Bool.true_or])
  · exact .inr (.inl (by rw [hb, Bool.true_or]))
  rcases h'.2 with ha' | hb' | hab'
  · exact .inl (by rw [ha', Bool.or_true])
  · exact .inr (.inl (by rw [hb', Bool.or_true]))
  · exact .inr (.inr (by rw [hab, hab']))

def taintCoupling : Coupling where
  value := Agree
  clean₁ := fun a ↦ a.tainted = false
  clean₂ := fun b ↦ b.tainted = false
  log := fun _ _ ↦ True
  width := fun h ↦ h.1
  concrete := by
    intro a b h ha hb
    rcases h.2 with ha' | hb' | hab
    · exact absurd (ha.symm.trans ha') (by decide)
    · exact absurd (hb.symm.trans hb') (by decide)
    · exact hab
  constant := fun _ ↦ ⟨rfl, .inr (.inr rfl)⟩
  binaryOperator := Agree.binaryOperator
  extract := fun offset width h ↦ h.unaryOperator (f := (·.extract offset width)) fun _ ↦ rfl
  sext := fun width h ↦ h.unaryOperator (f := (·.sext width)) fun _ ↦ rfl
  zext := fun width h ↦ h.unaryOperator (f := (·.zext width)) fun _ ↦ rfl

/-- Coupled states that may continue at different addresses. -/
def Apart (s t : State) : Prop :=
  ∃ d pc, t = { s.withData d with pc := pc } ∧ taintCoupling.Related s.data d

section Apart

variable {s t : State}

theorem apart_of_coupled (h : taintCoupling.Coupled s t) : Apart s t := by
  obtain ⟨d, rfl, hd⟩ := h
  exact ⟨d, s.pc, rfl, hd⟩

theorem Apart.coupled (h : Apart s t) (hpc : t.pc = s.pc) : taintCoupling.Coupled s t := by
  obtain ⟨d, pc, rfl, hd⟩ := h
  obtain rfl : pc = s.pc := hpc
  exact ⟨d, rfl, hd⟩

theorem Apart.finishStep (h : Apart s t) :
    Apart s.finishStep.updatePerformance t.finishStep.updatePerformance := by
  obtain ⟨d, pc, rfl, hd⟩ := h
  exact ⟨_, pc, rfl, hd.write RegFile.zero (taintCoupling.value_constant _)⟩

theorem Apart.interrupt (h : Apart s t) (irq : Irq) : Apart (s.interrupt irq) (t.interrupt irq) := by
  obtain ⟨d, pc, rfl, hd⟩ := h
  unfold State.interrupt
  split
  · exact ⟨d, pc, rfl, hd⟩
  · exact ⟨d, pc, rfl, hd⟩

/-- What is untainted on both sides is the same. -/
theorem Apart.untainted_eq (h : Apart s t) :
    (∀ i, (s.regs i).tainted = false → (t.regs i).tainted = false →
      (s.regs i).concrete = (t.regs i).concrete) ∧
    ∀ a, (s.mem.byteAt a).tainted = false → (t.mem.byteAt a).tainted = false →
      (s.mem.byteAt a).concrete = (t.mem.byteAt a).concrete := by
  obtain ⟨d, pc, rfl, hd⟩ := h
  exact ⟨fun i ↦ taintCoupling.concrete (hd.regs i), fun a ↦ taintCoupling.concrete (hd.mem a)⟩

end Apart

/-! ## Instructions -/

/-- The decoded instruction is a CSR instruction with a write access. -/
def State.csrWrite (s : State) : Bool :=
  match s.op with
  | .CSRRW | .CSRRWI => true
  | .CSRRS | .CSRRC => s.rs1 ≠ RegFile.zero
  | .CSRRSI | .CSRRCI => s.instr.zimm ≠ 0#32
  | _ => false

/-- The decoded instruction neither writes a control and status register nor is it intercepted as a
system call. -/
structure State.Quiet (env : Env) (s : State) : Prop where
  csr : s.csrWrite = true → returns (execCsr env s.op) s = false
  sys : s.op = .ECALL → s.NotIntercepted

section Jumps

variable {s : State} (hC : s.csrs.hasCExtension = true)

include hC

theorem triple_jump (target : BitVec 32) :
    Triple (· = s) (jump target) (fun _ s' ↦ s' = { s with pc := target }) fun e _ ↦ isHost e := by
  refine Triple.bind (Q := fun _ s' ↦ s' = { s with pc := target })
    (Triple.update fun s' h ↦ by rw [h]) fun _ ↦ Triple.read_bind fun s' h ↦ ?_
  refine Triple.bind (Q := fun _ s'' ↦ s'' = s') (triple_ensure (fun _ h _ ↦ h)
    fun _ _ _ ↦ trivial) fun _ ↦ triple_raiseTrapIf (fun _ h' _ ↦ h'.trans h) fun _ _ hno ↦ ?_
  rw [h] at hno
  exact absurd (hC.symm.trans hno.2) (by decide)

theorem triple_jumpAndLink (target : BitVec 32) :
    Triple (· = s) (jumpAndLink target)
      (fun _ s' ↦ s' = { s with pc := target }.writeReg s.rd (constant s.pc))
      fun e _ ↦ isHost e := by
  refine Triple.read_bind fun s' h ↦ ?_
  rw [h]
  exact Triple.bind (triple_jump hC target) fun _ ↦ Triple.update fun s' h ↦ by rw [h]

theorem triple_execBranch (res : ConcolicValue) :
    Triple (· = s) (execBranch res)
      (fun _ s' ↦ ∃ pc tracer, s' = { s with pc := pc, tracer := tracer })
      fun e _ ↦ isHost e := by
  refine Triple.read_bind fun s' h ↦ ?_
  rw [h]
  refine Triple.bind (Q := fun _ s' ↦ ∃ pc, s' = { s with pc := pc })
    (Triple.ite (fun _ ↦ ?_) fun _ ↦ Triple.ret fun s' h ↦ ⟨s.pc, h⟩) fun _ ↦ ?_
  · exact (triple_jump hC _).post fun _ _ h ↦ ⟨_, h⟩
  · unfold trackAndTraceBranch
    split
    · refine Triple.update fun s' h ↦ ?_
      obtain ⟨pc, rfl⟩ := h
      exact ⟨pc, _, rfl⟩
    · refine Triple.ret fun s' h ↦ ?_
      obtain ⟨pc, rfl⟩ := h
      exact ⟨pc, _, rfl⟩

end Jumps

/-- The value that a load leaves in its destination. -/
def loadedValue (addr value : ConcolicValue) : ConcolicValue :=
  if addr.symbolic.isSome then value.taint else value

/-- A load changes its destination only. -/
theorem triple_writeLoaded {s : State} (addr : ConcolicValue) {value : ConcolicValue}
    (hwidth : value.getWidth = 32) :
    Triple (· = s) (do modify (·.writeReg s.rd value); taintLoaded addr)
      (fun _ s' ↦ ∃ regs : RegFile, s' = { s with regs := regs } ∧
        ∀ i, regs i = if i = s.rd then loadedValue addr value else s.regs i)
      fun _ _ ↦ False := by
  have hwrite : s.regs.write s.rd value = s.regs.set s.rd value hwidth := by
    rw [RegFile.write, if_neg (by omega), dif_pos hwidth]
  refine Triple.bind (Q := fun _ s' ↦ s' = { s with regs := s.regs.set s.rd value hwidth })
    (Triple.update fun s' h ↦ by rw [h, State.writeReg, hwrite]) fun _ ↦ ?_
  refine Triple.ite (fun hsym ↦ ?_) fun hsym ↦ Triple.ret fun s' h ↦ ⟨_, h, fun i ↦ ?_⟩
  · refine Triple.bind (Triple.update fun s' h ↦ ?_) fun _ ↦ Triple.ret fun _ h ↦ h
    rw [h]
    refine ⟨_, rfl, fun i ↦ ?_⟩
    by_cases hi : i = s.rd
    · rw [hi, if_pos rfl, loadedValue, if_pos hsym]
      exact (RegFile.set_self _ _ _).trans
        (congrArg ConcolicValue.taint (RegFile.set_self _ _ hwidth))
    · rw [if_neg hi]
      exact (RegFile.set_of_ne _ _ hi).trans (RegFile.set_of_ne _ hwidth hi)
  · rw [loadedValue, if_neg hsym]
    rfl

/-- A load fills a register. -/
theorem triple_loadOf {op : Opcode} {alignment : Nat} {load : ConcolicValue → IssM ConcolicValue}
    (h : loadOf op = some (alignment, load)) (addr : ConcolicValue) :
    Triple (fun _ ↦ True) (load addr) (fun value _ ↦ value.getWidth = 32) fun _ _ ↦ True := by
  rcases loadOf_cases h with ⟨n, -, rfl⟩ | ⟨n, hn, hn4, rfl⟩
  · exact Triple.bind (Triple.true_true _) fun _ ↦ Triple.ret fun _ _ ↦ rfl
  · refine Triple.bind (Q := fun data _ ↦ data.getWidth = n * 8) ?_ fun data ↦
      Triple.ret fun _ hdata ↦ ?_
    · refine Triple.bind (Triple.true_true _) fun paddr ↦ Triple.of_start fun s _ ↦ ?_
      refine (triple_transportRead s paddr hn).conseq (fun _ h ↦ h) (fun data _ h ↦ ?_)
        fun _ _ _ ↦ trivial
      exact ConcolicMemory.getWidth_load h.2.2
    · split
      · rfl
      · omega

section Lockstep

variable {env : Env} {s t : State}

/-- The conditions under which a decoded instruction is executed alike in both runs. -/
structure SameInstr (env : Env) (s t : State) : Prop where
  addr : t.dataAddress = s.dataAddress
  walks : ∀ addr, s.dataAddress = some addr →
    taintCoupling.CleanWalks s t (addr.setWidth 64) .STORE
  left : s.Quiet env
  right : t.Quiet env

theorem agree_loadedValue {addr addr' a b : ConcolicValue} {given given' : Given} (h : Agree a b)
    (hwidth : a.getWidth = 32) :
    Agree (loadedValue addr (given.choose addr a)) (loadedValue addr' (given'.choose addr' b)) := by
  have hgiven : ∀ (given : Given) (addr : ConcolicValue) {v : ConcolicValue}, v.getWidth = 32 →
      (loadedValue addr (given.choose addr v)).getWidth = 32 := by
    intro given addr v hv
    unfold loadedValue
    split
    · exact given.getWidth_choose addr hv
    · exact given.getWidth_choose addr hv
  refine ⟨(hgiven given addr hwidth).trans (hgiven given' addr' (h.1 ▸ hwidth)).symm, ?_⟩
  by_cases hsym : addr.symbolic.isSome = true
  · exact .inl (by rw [loadedValue, if_pos hsym]; rfl)
  by_cases hsym' : addr'.symbolic.isSome = true
  · exact .inr (.inl (by rw [loadedValue, if_pos hsym']; rfl))
  have hnone : ∀ (given : Given) {addr v : ConcolicValue}, ¬ addr.symbolic.isSome = true →
      loadedValue addr (given.choose addr v) = v := by
    intro given addr v hsym
    rw [loadedValue, if_neg hsym]
    unfold Given.choose
    split
    · exact if_neg hsym
    · rfl
  rw [hnone given hsym, hnone given' hsym']
  exact h.2

theorem coupled_loadOf (h : taintCoupling.Coupled s t) {op : Opcode} {alignment : Nat}
    {load : ConcolicValue → IssM ConcolicValue} (hop : loadOf op = some (alignment, load))
    {addr addr' : ConcolicValue} (haddr : getValue addr' = getValue addr)
    (hclean : taintCoupling.CleanWalks s t ((getValue addr).setWidth 64) .STORE) :
    Lockstep isHost (fun s' t' ↦ s' = s ∧ t' = t) (load addr) (load addr')
      (fun a b s t ↦ Agree a b ∧ taintCoupling.Coupled s t) taintCoupling.Same := by
  rcases loadOf_cases hop with ⟨n, hn, rfl⟩ | ⟨n, hn, -, rfl⟩
  · exact Coupling.coupled_loadSigned isHost h haddr hclean hn
  · exact Coupling.coupled_loadUnsigned isHost h haddr hclean hn

theorem coupled_execLoad (h : taintCoupling.Coupled s t) {op : Opcode} {alignment : Nat}
    {load : ConcolicValue → IssM ConcolicValue} (hop : loadOf op = some (alignment, load))
    (given given' : Given)
    (haddr : getValue ((t.regs t.rs1).add t.iImm) = getValue ((s.regs s.rs1).add s.iImm))
    (hclean : taintCoupling.CleanWalks s t ((getValue ((s.regs s.rs1).add s.iImm)).setWidth 64)
      .STORE) :
    Lockstep isHost (fun s' t' ↦ s' = s ∧ t' = t) (execLoad alignment (loadGiven given load))
      (execLoad alignment (loadGiven given' load)) (fun _ _ ↦ taintCoupling.Coupled)
      taintCoupling.Same := by
  refine Lockstep.read_bind fun s' t' hst ↦ ?_
  obtain ⟨rfl, rfl⟩ := hst
  have hrd : t'.rd = s'.rd := h.same State.rd fun _ _ ↦ rfl
  refine Lockstep.bind (Q := fun _ _ s t ↦ s = s' ∧ t = t') ?_ fun _ _ ↦ ?_
  · unfold trapCheckAddrAlignment
    rw [haddr]
    exact Lockstep.ite Iff.rfl (fun _ ↦ Lockstep.raise_at ⟨rfl, h⟩) fun _ ↦
      Lockstep.ret_at ⟨rfl, rfl⟩
  have hkeep : KeptByMarks fun s ↦ s.rd = s'.rd := ⟨fun _ _ _ h ↦ h, fun _ _ h _ ↦ h⟩
  refine Lockstep.bind (Q := fun value value' s₁ t₁ ↦ taintCoupling.Coupled s₁ t₁ ∧
    s₁.rd = s'.rd ∧ ∃ a b, Agree a b ∧ a.getWidth = 32 ∧
      value = given.choose ((s'.regs s'.rs1).add s'.iImm) a ∧
      value' = given'.choose ((t'.regs t'.rs1).add t'.iImm) b)
    (Lockstep.bind (Lockstep.remember (coupled_loadOf h hop haddr hclean)) fun a b ↦
      Lockstep.ret fun s₁ t₁ hload ↦ ?_) fun value value' ↦ Lockstep.of_start fun s₁ t₁ hload ↦ ?_
  · refine ⟨hload.1.2, ?_, a, b, hload.1.1, (triple_loadOf hop _).of_ok trivial hload.2.1, rfl, rfl⟩
    have hkeeps := keeps_loadGiven hkeep hop none ((s'.regs s'.rs1).add s'.iImm)
    rw [loadGiven_none] at hkeeps
    exact hkeeps.of_ok rfl hload.2.1
  · obtain ⟨hst, hrd₁, a, b, hab, hwidth, rfl, rfl⟩ := hload
    have hwidth' : b.getWidth = 32 := hab.1 ▸ hwidth
    rw [hrd, ← hrd₁]
    have hright := triple_writeLoaded (s := t₁) ((t'.regs t'.rs1).add t'.iImm)
      (given'.getWidth_choose ((t'.regs t'.rs1).add t'.iImm) hwidth')
    rw [hst.same State.rd fun _ _ ↦ rfl] at hright
    refine Lockstep.of_triples (triple_writeLoaded _ (given.getWidth_choose _ hwidth)) hright ?_
      (fun _ _ _ _ hfalse ↦ hfalse.elim) (fun _ _ _ _ _ hfalse ↦ hfalse.elim)
      fun _ _ _ _ hfalse ↦ hfalse.elim
    rintro _ _ _ _ ⟨regs, rfl, hregs⟩ ⟨regs', rfl, hregs'⟩
    refine hst.setRegs fun i ↦ ?_
    rw [hregs, hregs']
    split
    · exact agree_loadedValue hab hwidth
    · exact hst.regs i

/-- A call that is not intercepted raises a trap. -/
theorem execEcall_of_notIntercepted (h : s.NotIntercepted) (env : Env) :
    execEcall env s = raiseEcall s := by
  rw [execEcall, Lib.get_bind]
  cases hsys : s.sys with
  | none => rfl
  | some sys =>
    have ha7 : getValue (s.regs RegFile.a7) = 0#32 :=
      h.resolve_left fun hnone ↦ Option.some_ne_none sys (hsys.symm.trans hnone)
    dsimp only
    rw [if_neg (not_not_intro ha7)]

/-- A program that does not look at the data, followed by a result. -/
theorem apart_of_blind (h : taintCoupling.Coupled s t) {m : IssM Unit} (hm : Blind m) (b : Bool) :
    Lockstep isHost (fun s' t' ↦ s' = s ∧ t' = t) (do m; return b) (do m; return b)
      (fun _ _ ↦ Apart) taintCoupling.Same :=
  Lockstep.bind ((hm.coupled taintCoupling isHost).at_start h) fun _ _ ↦
    Lockstep.ret fun _ _ h ↦ apart_of_coupled h.2

/-- Two jumps may go to different addresses. -/
theorem apart_jumpAndLink (h : taintCoupling.Coupled s t) (hC : s.csrs.hasCExtension = true)
    (target target' : BitVec 32) :
    Lockstep isHost (fun s' t' ↦ s' = s ∧ t' = t) (do jumpAndLink target; return false)
      (do jumpAndLink target'; return false) (fun _ _ ↦ Apart) taintCoupling.Same := by
  have hC' : t.csrs.hasCExtension = true := (h.same (·.csrs.hasCExtension) fun _ _ ↦ rfl).trans hC
  refine Lockstep.bind (Q := fun _ _ ↦ Apart) (Lockstep.of_stopping (triple_jumpAndLink hC target)
    (triple_jumpAndLink hC' target') ?_) fun _ _ ↦ Lockstep.ret fun _ _ h ↦ h
  rintro _ _ _ _ rfl rfl
  obtain ⟨d, rfl, hd⟩ := h
  exact ⟨_, target', rfl, hd.write _ (taintCoupling.value_constant _)⟩

/-- Two branches may have different outcomes. -/
theorem apart_execBranch (h : taintCoupling.Coupled s t) (hC : s.csrs.hasCExtension = true)
    (res res' : ConcolicValue) :
    Lockstep isHost (fun s' t' ↦ s' = s ∧ t' = t) (do execBranch res; return false)
      (do execBranch res'; return false) (fun _ _ ↦ Apart) taintCoupling.Same := by
  have hC' : t.csrs.hasCExtension = true := (h.same (·.csrs.hasCExtension) fun _ _ ↦ rfl).trans hC
  refine Lockstep.bind (Q := fun _ _ ↦ Apart) (Lockstep.of_stopping (triple_execBranch hC res)
    (triple_execBranch hC' res') ?_) fun _ _ ↦ Lockstep.ret fun _ _ h ↦ h
  rintro _ _ _ _ ⟨pc, tracer, rfl⟩ ⟨pc', tracer', rfl⟩
  obtain ⟨d, rfl, hd⟩ := h
  exact ⟨{ d with log := { d.log with tracer := tracer' } }, pc', rfl, hd.regs, hd.mem, trivial⟩

/-- A CSR instruction that returns does not write, so its operand does not matter. -/
theorem csrSource_eq_none (h : s.csrWrite = false) : s.csrSource s.op = none := by
  unfold State.csrWrite at h
  unfold State.csrSource
  split
  case h_1 hop =>
    rw [hop] at h
    cases h
  case h_2 hop | h_3 hop =>
    rw [hop] at h
    exact if_neg (of_decide_eq_false h)
  case h_4 => rfl

theorem apart_execCsr (h : taintCoupling.Coupled s t) (hs : s.Quiet env) :
    Lockstep isHost (fun s' t' ↦ s' = s ∧ t' = t) (do execCsr env s.op; return false)
      (do execCsr env s.op; return false) (fun _ _ ↦ Apart) taintCoupling.Same := by
  refine Lockstep.bind (Lockstep.remember (Coupling.coupled_execCsr isHost h env s.op)) fun _ _ ↦
    Lockstep.ret fun s' t' hrun ↦ apart_of_coupled (hrun.1 ?_)
  have hwrite : s.csrWrite = false := by
    cases hcsr : s.csrWrite with
    | false => rfl
    | true =>
      have hreturns := hs.csr hcsr
      rw [returns, hrun.2.1] at hreturns
      cases hreturns
  have hwrite' : t.csrWrite = false := (h.same State.csrWrite fun _ _ ↦ rfl).trans hwrite
  have hop : t.op = s.op := h.same State.op fun _ _ ↦ rfl
  rw [csrSource_eq_none hwrite, ← hop, csrSource_eq_none hwrite']

theorem apart_execStore (h : taintCoupling.Coupled s t) (hsame : SameInstr env s t)
    (hop : s.dataAddress = some (getValue ((s.regs s.rs1).add s.sImm)))
    (hop' : t.dataAddress = some (getValue ((t.regs t.rs1).add t.sImm))) (alignment n : Nat) :
    Lockstep isHost (fun s' t' ↦ s' = s ∧ t' = t)
      (do execStore alignment fun addr value ↦ symbolicStoreData addr (some value) n; return false)
      (do execStore alignment fun addr value ↦ symbolicStoreData addr (some value) n; return false)
      (fun _ _ ↦ Apart) taintCoupling.Same := by
  have haddr := hsame.addr
  rw [hop, hop'] at haddr
  exact Lockstep.bind (Coupling.coupled_execStore isHost h alignment n (Option.some.inj haddr)
    (hsame.walks _ hop)) fun _ _ ↦ Lockstep.ret fun _ _ h ↦ apart_of_coupled h.2

theorem apart_executeOther (h : taintCoupling.Coupled s t) (hC : s.csrs.hasCExtension = true)
    (hsame : SameInstr env s t) (hload : loadOf s.op = none) :
    Lockstep isHost (fun s' t' ↦ s' = s ∧ t' = t) (executeOther env s.op) (executeOther env s.op)
      (fun _ _ ↦ Apart) taintCoupling.Same := by
  have hop' : t.op = s.op := h.same State.op fun _ _ ↦ rfl
  have hstore : s.op = .SB ∨ s.op = .SH ∨ s.op = .SW → ∀ alignment n,
      Lockstep isHost (fun s' t' ↦ s' = s ∧ t' = t)
        (do execStore alignment fun addr value ↦ symbolicStoreData addr (some value) n; return false)
        (do execStore alignment fun addr value ↦ symbolicStoreData addr (some value) n; return false)
        (fun _ _ ↦ Apart) taintCoupling.Same := by
    intro hop
    refine apart_execStore h hsame ?_ ?_
    · rcases hop with hop | hop | hop <;> rw [State.dataAddress, hop]
    · rcases hop with hop | hop | hop <;> rw [State.dataAddress, hop', hop]
  have hjump : ∀ f : State → BitVec 32, Lockstep isHost (fun s' t' ↦ s' = s ∧ t' = t)
      (do let s ← get; jumpAndLink (f s); return false)
      (do let s ← get; jumpAndLink (f s); return false) (fun _ _ ↦ Apart) taintCoupling.Same := by
    intro f
    refine Lockstep.read_bind fun s' t' hst ↦ ?_
    obtain ⟨rfl, rfl⟩ := hst
    exact apart_jumpAndLink h hC _ _
  have hcsr := apart_execCsr h hsame.left
  unfold executeOther
  generalize hop : s.op = op at hload hstore hcsr ⊢
  split
  case h_1 =>
    exact ((blind_raiseIllegalInstruction.coupled taintCoupling isHost).at_start h).post
      fun _ _ _ _ h ↦ apart_of_coupled h.2
  case h_2 => exact hjump fun s ↦ s.lastPc + s.instr.jImm
  case h_3 => exact hjump fun s ↦ (getValue (s.regs s.rs1) + s.instr.iImm) &&& ~~~1#32
  case h_4 => exact hstore (.inl rfl) 1 1
  case h_5 => exact hstore (.inr (.inl rfl)) 2 2
  case h_6 => exact hstore (.inr (.inr rfl)) 4 4
  case h_7 | h_8 | h_9 | h_10 | h_11 => cases hload
  case h_12 | h_13 => exact Lockstep.ret_at (apart_of_coupled h)
  case h_14 =>
    refine Lockstep.bind (Q := fun _ _ ↦ taintCoupling.Coupled) ?_ fun _ _ ↦
      Lockstep.ret fun _ _ h ↦ apart_of_coupled h
    rintro _ _ ⟨rfl, rfl⟩
    rw [execEcall_of_notIntercepted (hsame.left.sys hop) env,
      execEcall_of_notIntercepted (hsame.right.sys (hop'.trans hop)) env]
    exact (((blind_raiseEcall.coupled taintCoupling isHost).at_start h).post
      fun _ _ _ _ h ↦ h.2) _ _ ⟨rfl, rfl⟩
  case h_15 => exact apart_of_blind h blind_execEbreak false
  case h_16 | h_17 | h_18 | h_19 | h_20 | h_21 => exact hcsr
  case h_22 => exact apart_of_blind h blind_execWfi false
  case h_23 => exact apart_of_blind h (blind_returnFromTrapHandler _) false
  case h_24 => exact Lockstep.raise_stop trivial

theorem State.dataAddress_of_loadOf {s : State}
    {load : Nat × (ConcolicValue → IssM ConcolicValue)} (h : loadOf s.op = some load) :
    s.dataAddress = some (getValue ((s.regs s.rs1).add s.iImm)) := by
  unfold State.dataAddress
  generalize s.op = op at h ⊢
  unfold loadOf at h
  split at h
  case h_1 | h_2 | h_3 | h_4 | h_5 => rfl
  case h_6 => cases h

/-- Instructions that are executed alike lead to states that agree on untainted values. -/
theorem apart_executeGiven (h : taintCoupling.Coupled s t) (hC : s.csrs.hasCExtension = true)
    (hsame : SameInstr env s t) (given given' : Given) :
    Lockstep isHost (fun s' t' ↦ s' = s ∧ t' = t) (executeGiven env given)
      (executeGiven env given') (fun _ _ ↦ Apart) taintCoupling.Same := by
  have hop' : t.op = s.op := h.same State.op fun _ _ ↦ rfl
  refine Lockstep.read_bind fun s' t' hst ↦ ?_
  obtain ⟨rfl, rfl⟩ := hst
  rw [hop']
  cases hload : loadOf s'.op with
  | some load =>
    obtain ⟨alignment, load⟩ := load
    have haddress := State.dataAddress_of_loadOf hload
    have hload' : loadOf t'.op = some (alignment, load) := hop' ▸ hload
    have haddr := hsame.addr
    rw [haddress, State.dataAddress_of_loadOf hload'] at haddr
    exact (coupled_execLoad h hload given given' (Option.some.inj haddr)
      (hsame.walks _ haddress)).post fun _ _ _ _ h ↦ apart_of_coupled h
  | none =>
    refine Lockstep.read_bind fun s t hst ↦ ?_
    obtain ⟨rfl, rfl⟩ := hst
    rw [hop']
    have hregister := h.registerResult s.op
    have hbranch := h.branchResult s.op
    generalize hx : s.registerResult s.op = x, hy : t.registerResult s.op = y at hregister ⊢
    cases hregister with
    | some hab =>
      refine Lockstep.bind (Q := fun _ _ ↦ taintCoupling.Coupled) (Lockstep.update ?_) fun _ _ ↦
        Lockstep.ret fun _ _ h ↦ apart_of_coupled h
      rintro _ _ ⟨rfl, rfl⟩
      rw [h.same State.rd fun _ _ ↦ rfl]
      exact h.writeReg _ hab
    | none =>
      generalize s.branchResult s.op = x, t.branchResult s.op = y at hbranch ⊢
      cases hbranch with
      | some _ => exact apart_execBranch h hC _ _
      | none => exact apart_executeOther h hC hsame hload

end Lockstep

/-! ## Steps -/

/-- The instruction that a step executes: its address, the operation and its operands with the
length, and the address that it accesses. -/
structure Observation where
  pc : BitVec 32
  decoded : Option ((Opcode × Instruction) × BitVec 32)
  addr : Option (BitVec 32)
  deriving DecidableEq

def State.observe (s : State) : Observation where
  pc := s.pc
  decoded := s.started.fetchedWord.map fun word ↦ (decodeWord word, instrLength word)
  addr := s.frontEnd.bind State.dataAddress

/-- The steps execute the same instruction with the same address, neither writes a control and
status register, and neither is a system call. -/
structure SamePath (env : Env) (s t : State) : Prop where
  observe : t.observe = s.observe
  left : ∀ d, s.frontEnd = some d → d.Quiet env
  right : ∀ d, t.frontEnd = some d → d.Quiet env

/-- The page walks of a step read untainted bytes only. -/
structure State.WalksUntainted (s : State) : Prop where
  fetch : ∀ a ∈ s.started.walkReads (s.pc.setWidth 64) .FETCH, (s.mem.byteAt a).tainted = false
  data : ∀ d addr, s.frontEnd = some d → d.dataAddress = some addr →
    ∀ a ∈ d.walkReads (addr.setWidth 64) .STORE, (d.mem.byteAt a).tainted = false

/-- The address at which a step is interrupted after its instruction. -/
def State.interruptedAt (env : Env) (given : Given) (s : State) : Option (BitVec 32) :=
  match execStepGiven env given s.started with
  | .ok _ s' => if s'.computePendingInterrupts = none then none else some s'.pc
  | .error _ _ => none

section Steps

variable {env : Env} {s t : State}

theorem apart_execStepGiven (h : taintCoupling.Coupled s t) (hC : s.csrs.hasCExtension = true)
    (hpath : SamePath env s t) (hleft : s.WalksUntainted) (hright : t.WalksUntainted)
    (given given' : Given) :
    Lockstep isHost (fun s' t' ↦ s' = s.started ∧ t' = t.started) (execStepGiven env given)
      (execStepGiven env given') (fun _ _ ↦ Apart) taintCoupling.Same := by
  have hstarted : taintCoupling.Coupled s.started t.started := by
    obtain ⟨d, rfl, hd⟩ := h
    exact ⟨d, rfl, hd⟩
  have hdecoded := congrArg Observation.decoded hpath.observe
  have haddr := congrArg Observation.addr hpath.observe
  have hpc : t.pc = s.pc := congrArg Observation.pc hpath.observe
  have hsame : ∀ word word', s.started.fetchedWord = some word →
      t.started.fetchedWord = some word' →
      decodeWord word' = decodeWord word ∧ instrLength word' = instrLength word := by
    intro word word' hword hword'
    change t.started.fetchedWord.map (fun word ↦ (decodeWord word, instrLength word)) =
      s.started.fetchedWord.map (fun word ↦ (decodeWord word, instrLength word)) at hdecoded
    rw [hword, hword'] at hdecoded
    exact Prod.mk.inj (Option.some.inj hdecoded)
  rw [execStepGiven_eq_bind, execStepGiven_eq_bind]
  refine Lockstep.bind (Lockstep.remember (Coupling.coupled_fetch_decode isHost hstarted hC
    ⟨hleft.fetch, hpc ▸ hright.fetch⟩ hsame)) fun _ _ ↦ Lockstep.of_start fun d d' hrun ↦ ?_
  obtain ⟨⟨-, hd⟩, hs, ht⟩ := hrun
  have hfront : s.frontEnd = some d := by rw [State.frontEnd, hs]
  have hfront' : t.frontEnd = some d' := by rw [State.frontEnd, ht]
  change t.frontEnd.bind State.dataAddress = s.frontEnd.bind State.dataAddress at haddr
  rw [hfront, hfront'] at haddr
  have hdata : d'.dataAddress = d.dataAddress := haddr
  obtain ⟨word, hfetched⟩ := (triple_fetch_decode s.started).of_ok rfl hs
  have hCd : d.csrs.hasCExtension = true := by
    rw [hfetched.csrs]
    exact hC
  have hinstr : SameInstr env d d' := by
    refine ⟨hdata, fun addr hd ↦ ⟨hleft.data d addr hfront hd, ?_⟩, hpath.left d hfront,
      hpath.right d' hfront'⟩
    exact hright.data d' addr hfront' (hdata.trans hd)
  refine Lockstep.bind (Q := fun _ _ s' t' ↦ s' = d ∧ t' = d') (Lockstep.of_stopping
    (triple_classifyOperands d) (triple_classifyOperands d') fun _ _ _ _ h h' ↦ ⟨h, h'⟩)
    fun flags flags' ↦ ?_
  refine Lockstep.bind (apart_executeGiven hd hCd hinstr given given') fun init init' ↦
    Lockstep.of_start fun s₁ t₁ hst ↦ ?_
  refine Lockstep.of_stopping (triple_cover env _ s₁) (triple_cover env _ t₁) ?_
  rintro _ _ _ _ ⟨cov, rfl⟩ ⟨cov', rfl⟩
  obtain ⟨d, pc, rfl, hd⟩ := hst
  exact ⟨{ d with log := { d.log with coverage := cov' } }, pc, rfl, hd.regs, hd.mem, trivial⟩

theorem Apart.computePendingInterrupts (h : Apart s t) :
    t.computePendingInterrupts = s.computePendingInterrupts := by
  obtain ⟨d, pc, rfl, -⟩ := h
  rfl

theorem apart_takePendingInterrupt (h : Apart s t)
    (hpc : s.computePendingInterrupts ≠ none → t.pc = s.pc) :
    Lockstep isHost (fun s' t' ↦ s' = s ∧ t' = t) takePendingInterrupt takePendingInterrupt
      (fun _ _ ↦ Apart) taintCoupling.Same := by
  by_cases hnone : s.computePendingInterrupts = none
  · refine Lockstep.read_bind fun s' t' hst ↦ ?_
    obtain ⟨rfl, rfl⟩ := hst
    rw [h.computePendingInterrupts, hnone]
    exact Lockstep.ret_at h
  · have htake := blind_takePendingInterrupt.coupled taintCoupling isHost
    exact (htake.at_start (h.coupled (hpc hnone))).post fun _ _ _ _ h ↦ apart_of_coupled h.2

/-- Steps along the same path lead to states that agree on untainted values. -/
theorem apart_runStepGiven (h : taintCoupling.Coupled s t) (hC : s.csrs.hasCExtension = true)
    (hpath : SamePath env s t) (hleft : s.WalksUntainted) (hright : t.WalksUntainted)
    {given given' : Given} (hinterrupt : t.interruptedAt env given' = s.interruptedAt env given)
    {s' t' : State} (hs : runStepGiven env given s = .ok () s')
    (ht : runStepGiven env given' t = .ok () t') : Apart s' t' := by
  have hzero : getValue (t.regs RegFile.zero) = getValue (s.regs RegFile.zero) :=
    (Coupling.zero_of_stepWith ht).trans (Coupling.zero_of_stepWith hs).symm
  have hstop : ∀ e s', isHost e → ∃ e' s'', takeTrap e s' = .error e' s'' ∧ isHost e' := by
    intro e s' he
    cases e with
    | trap reason mtval => exact he.elim
    | host error => exact ⟨.host error, s', rfl, trivial⟩
  have hexec := Lockstep.remember (apart_execStepGiven h hC hpath hleft hright given given')
  refine (Coupling.coupled_stepWith h hzero hstop (fun _ _ ↦ apart_of_coupled)
    (fun _ _ ↦ Apart.finishStep) fun _ ↦ (Lockstep.bind hexec fun _ _ ↦ Lockstep.of_start
      fun s₁ t₁ hrun ↦ apart_takePendingInterrupt hrun.1 fun hne ↦ ?_)).of_ok ⟨rfl, rfl⟩ hs ht
  obtain ⟨hst, hs₁, ht₁⟩ := hrun
  rw [State.interruptedAt, State.interruptedAt, hs₁, ht₁] at hinterrupt
  dsimp only at hinterrupt
  rw [hst.computePendingInterrupts, if_neg hne, if_neg hne] at hinterrupt
  exact Option.some.inj hinterrupt

end Steps

/-- A pair of runs from one state. In each step the values that loads from symbolic addresses return
are given, for each run on its own, and the steps meet a condition. Interrupt lines change in both
runs alike. -/
inductive Twin (env : Env) (cond : Given → Given → State → State → Prop) (s₀ : State) :
    State → State → Prop
  | start : Twin env cond s₀ s₀ s₀
  | step {s t s' t' : State} (given given' : Given) : Twin env cond s₀ s t →
      cond given given' s t → runStepGiven env given s = .ok () s' →
      runStepGiven env given' t = .ok () t' → Twin env cond s₀ s' t'
  | irq {s t : State} (irq : Irq) : Twin env cond s₀ s t →
      Twin env cond s₀ (s.interrupt irq) (t.interrupt irq)

/-- The steps take the same path, no page walk reads a tainted byte, and an interrupt is taken only
where both runs would continue at the same address. -/
structure Undisturbed (env : Env) (given given' : Given) (s t : State) : Prop
    extends SamePath env s t where
  walks : s.WalksUntainted
  walks' : t.WalksUntainted
  interrupt : t.interruptedAt env given' = s.interruptedAt env given

theorem Apart.refl (s : State) : Apart s s :=
  ⟨s.data, s.pc, rfl, fun _ ↦ ⟨rfl, .inr (.inr rfl)⟩, fun _ ↦ ⟨rfl, .inr (.inr rfl)⟩, trivial⟩

theorem apart_of_twin {env : Env} {s₀ s t : State} (h₀ : Reachable env s₀)
    (h : Twin env (Undisturbed env) s₀ s t) :
    Apart s t ∧ StepInvariant MachineInvariant 1#32 s := by
  induction h with
  | start => exact ⟨Apart.refl s₀, h₀.stepInvariant⟩
  | step given given' _ hcond hs ht ih =>
    have hpc := congrArg Observation.pc hcond.observe
    have hinvariant := (MachineInvariant.runClosed.runStepGiven env given).of_ok ih.2 hs
    exact ⟨apart_runStepGiven (ih.1.coupled hpc) ih.2.csrs.compressed hcond.toSamePath hcond.walks
      hcond.walks' hcond.interrupt hs ht, hinvariant⟩
  | irq irq _ ih =>
    have hclosed : RunClosed (fun _ ↦ True) MachineInvariant 1#32 := MachineInvariant.runClosed
    exact ⟨ih.1.interrupt irq, hclosed.interrupt ih.2 irq⟩

instance (s : State) : Decidable s.NotIntercepted := inferInstanceAs (Decidable (_ ∨ _))

instance (env : Env) (s : State) : Decidable (s.Quiet env) :=
  decidable_of_iff ((s.csrWrite = true → returns (execCsr env s.op) s = false) ∧
    (s.op = .ECALL → s.NotIntercepted)) ⟨fun h ↦ ⟨h.1, h.2⟩, fun h ↦ ⟨h.csr, h.sys⟩⟩

instance (env : Env) (s t : State) : Decidable (SamePath env s t) :=
  decidable_of_iff (t.observe = s.observe ∧ (s.frontEnd.all fun d ↦ d.Quiet env) = true ∧
    (t.frontEnd.all fun d ↦ d.Quiet env) = true) (by
      simp only [Option.all_eq_true, decide_eq_true_eq]
      exact ⟨fun h ↦ ⟨h.1, h.2.1, h.2.2⟩, fun h ↦ ⟨h.observe, h.left, h.right⟩⟩)

/-- Without an MMU nothing is walked. -/
theorem State.walksUntainted_of_no_mmu {s : State} (h : s.mmu = none) : s.WalksUntainted := by
  have hreads : ∀ {s : State} {vaddr type}, s.mmu = none → s.walkReads vaddr type = [] := by
    intro s vaddr type h
    rw [State.walkReads, h]
  refine ⟨fun a ha ↦ ?_, fun d addr hd _ a ha ↦ ?_⟩
  · rw [hreads (s := s.started) h] at ha
    cases ha
  · obtain ⟨word, hdecoded⟩ := State.decoded_of_frontEnd hd
    rw [hreads (hdecoded.mmu h)] at ha
    cases ha

/-- A constant that a load from a symbolic address returns. -/
def givenWord (value : BitVec 32) : Given := some ⟨constant value, rfl⟩

/-- `li a7, 95; li a0, 5; ecall; li x28, 48; csrw mtvec, x28; li x28, 128; csrw mie, x28;
csrsi mstatus, 8` make `x5` symbolic and enable the timer interrupt. Then `lw x6, 0(x5);
beq x6, x0, 8` load from a symbolic address and branch on the value, and the handler starts with
`csrr x7, mepc`. -/
def branchOnLoad : List Instruction :=
  [0x05f00893#32, 0x00500513#32, 0x00000073#32, 0x03000e13#32, 0x305e1073#32, 0x08000e13#32,
    0x304e1073#32, 0x30046073#32, 0x0002a303#32, 0x00030463#32, 0x00000013#32, 0x00000013#32,
    0x341023f3#32]

def branchOnLoadStart : State := stateAfter (runSteps bootEnv 8) (bootSystem (assemble branchOnLoad))

theorem branchOnLoadStart_reachable : Reachable bootEnv branchOnLoadStart :=
  (Reachable.init (bootSystem_initial _)).run (eq_ok_of_returns (by decide +kernel))

/-- The state after the load. -/
def branchOnLoadLoaded (value : BitVec 32) : State :=
  stateAfter (runStepGiven bootEnv (givenWord value)) branchOnLoadStart

/-- The state after the load, the branch, which is interrupted by the timer, and the first
instruction of the handler. -/
def branchOnLoadHandled (value : BitVec 32) : State :=
  stateAfter (runStepGiven bootEnv none) (stateAfter (runStepGiven bootEnv none)
    ((branchOnLoadLoaded value).interrupt (.timer true)))

/-- `li a7, 95; li a0, 5; ecall` make `x5` symbolic. `lui x28, 1; li x29, 0xcf; sw x29, 0(x28);
lui x29, 0x80000; addi x29, x29, 1; csrw satp, x29; lui x29, 0x21; addi x29, x29, -2048;
lui x30, 0x400; csrw mstatus, x29` map the first four megabytes to themselves and translate the
accesses of machine mode as those of supervisor mode. Then `lw x6, 0(x5); sw x6, 4(x28);
lw x7, 0(x30)` make a value from a symbolic address the second page table entry, and use it. -/
def entryFromLoad : List Instruction :=
  [0x05f00893#32, 0x00500513#32, 0x00000073#32, 0x00001e37#32, 0x0cf00e93#32, 0x01de2023#32,
    0x80000eb7#32, 0x001e8e93#32, 0x180e9073#32, 0x00021eb7#32, 0x800e8e93#32, 0x00400f37#32,
    0x300e9073#32, 0x0002a303#32, 0x006e2223#32, 0x000f2383#32]

def entryFromLoadBoot : State :=
  { bootSystem (assemble entryFromLoad) with
    memSize := 8192
    mmu := some (Mmu.flush ⟨false, fun _ _ _ ↦ ⟨0#64, 0#64⟩⟩) }

theorem entryFromLoadBoot_initial : entryFromLoadBoot.Initial :=
  { bootSystem_initial (assemble entryFromLoad) with
    mmu := by
      intro mmu h
      obtain rfl := Option.some.inj h
      rfl }

def entryFromLoadStart : State := stateAfter (runSteps bootEnv 13) entryFromLoadBoot

theorem entryFromLoadStart_reachable : Reachable bootEnv entryFromLoadStart :=
  (Reachable.init entryFromLoadBoot_initial).run (eq_ok_of_returns (by decide +kernel))

/-- The state after a number of steps of which the first one loads the value. -/
def entryFromLoadAfter (value : BitVec 32) : Nat → State
  | 0 => stateAfter (runStepGiven bootEnv (givenWord value)) entryFromLoadStart
  | n + 1 => stateAfter (runStepGiven bootEnv none) (entryFromLoadAfter value n)

end CoverageVP.Iss
