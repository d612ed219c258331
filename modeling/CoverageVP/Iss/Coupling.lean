import CoverageVP.Iss.Control
import CoverageVP.Lib.Lockstep

/-!
# Coupled states

Two runs of a core are compared by a relation between the values they compute with. A coupling is
such a relation that the operations preserve. States are coupled if their registers and the bytes of
their memories are, and everything else, apart from what is logged, is the same. The parts of a step
that look neither at registers nor at the memory do the same in coupled states.
-/

namespace CoverageVP.Iss

open Lib Clover Instr

/-! ## Couplings -/

/-- What a run leaves behind and never reads to compute. -/
structure Log where
  coverage : Option Coverage
  tracer : List (Bool × Expr)

/-- A relation between values of two runs that the operations preserve. Values that are clean on
their sides have the same concrete part. -/
structure Coupling where
  value : ConcolicValue → ConcolicValue → Prop
  clean₁ : ConcolicValue → Prop
  clean₂ : ConcolicValue → Prop
  log : Log → Log → Prop
  width : ∀ {a b}, value a b → a.getWidth = b.getWidth
  concrete : ∀ {a b}, value a b → clean₁ a → clean₂ b → a.concrete = b.concrete
  constant : ∀ bv, value ⟨bv, none, false⟩ ⟨bv, none, false⟩
  binaryOperator : ∀ op {a b a' b'}, value a b → value a' b' →
    value (a.binaryOperator op a') (b.binaryOperator op b')
  extract : ∀ {a b} offset width, value a b → value (a.extract offset width) (b.extract offset width)
  sext : ∀ {a b} width, value a b → value (a.sext width) (b.sext width)
  zext : ∀ {a b} width, value a b → value (a.zext width) (b.zext width)

/-- The part of a state that two coupled runs may differ in. -/
structure Data where
  regs : RegFile
  mem : ConcolicMemory
  log : Log

def State.data (s : State) : Data := ⟨s.regs, s.mem, s.coverage, s.tracer⟩

def State.withData (s : State) (d : Data) : State :=
  { s with regs := d.regs, mem := d.mem, coverage := d.log.coverage, tracer := d.log.tracer }

namespace Coupling

variable (K : Coupling)

structure Related (d d' : Data) : Prop where
  regs : ∀ i, K.value (d.regs i) (d'.regs i)
  mem : ∀ a, K.value (d.mem.byteAt a) (d'.mem.byteAt a)
  log : K.log d.log d'.log

/-- The states are the same but for their data, and the data is related. -/
def Coupled (s t : State) : Prop := ∃ d, t = s.withData d ∧ K.Related s.data d

/-- The same result, or the same exception, in coupled states. -/
def Same {α : Type} (a b : α) (s t : State) : Prop := a = b ∧ K.Coupled s t

/-- A word of a register file that is constant on both sides. -/
theorem value_constant (value : BitVec 32) : K.value (Iss.constant value) (Iss.constant value) := by
  rw [constant_eq]
  exact K.constant ⟨32, value⟩

theorem value_zextIf {a b : ConcolicValue} (h : K.value a b) (width : Nat) :
    K.value (if a.getWidth < width then a.zext width else a)
      (if b.getWidth < width then b.zext width else b) := by
  rw [K.width h]
  split
  · exact K.zext width h
  · exact h

/-! ## Registers -/

section Registers

variable {K}

theorem Related.set {d d' : Data} (h : K.Related d d') {index : BitVec 5} {a b : ConcolicValue}
    (hab : K.value a b) (ha : a.getWidth = 32) (hb : b.getWidth = 32) :
    K.Related { d with regs := d.regs.set index a ha } { d' with regs := d'.regs.set index b hb } where
  regs := by
    intro i
    by_cases hi : i = index
    · rw [hi, RegFile.set_self, RegFile.set_self]
      exact hab
    · rw [RegFile.set_of_ne _ _ hi, RegFile.set_of_ne _ _ hi]
      exact h.regs i
  mem := h.mem
  log := h.log

theorem Related.write {d d' : Data} (h : K.Related d d') (index : BitVec 5) {a b : ConcolicValue}
    (hab : K.value a b) :
    K.Related { d with regs := d.regs.write index a } { d' with regs := d'.regs.write index b } := by
  have hwidth := K.width hab
  by_cases hlt : a.getWidth < 32
  · rw [RegFile.write, RegFile.write, if_pos hlt, if_pos (hwidth ▸ hlt)]
    exact h.set (K.zext 32 hab) _ _
  by_cases heq : a.getWidth = 32
  · have hb : b.getWidth = 32 := hwidth ▸ heq
    rw [RegFile.write, RegFile.write, if_neg hlt, if_neg (hwidth ▸ hlt), dif_pos heq, dif_pos hb]
    exact h.set hab _ _
  · rw [RegFile.write, RegFile.write, if_neg hlt, if_neg (hwidth ▸ hlt), dif_neg heq,
      dif_neg (hwidth ▸ heq)]
    exact h

theorem Coupled.writeReg {s t : State} (h : K.Coupled s t) (index : BitVec 5) {a b : ConcolicValue}
    (hab : K.value a b) : K.Coupled (s.writeReg index a) (t.writeReg index b) := by
  obtain ⟨d, rfl, hd⟩ := h
  exact ⟨_, rfl, hd.write index hab⟩

theorem Coupled.setRegs {s t : State} (h : K.Coupled s t) {regs regs' : RegFile}
    (hregs : ∀ i, K.value (regs i) (regs' i)) :
    K.Coupled { s with regs := regs } { t with regs := regs' } := by
  obtain ⟨d, rfl, hd⟩ := h
  exact ⟨{ d with regs := regs' }, rfl, hregs, hd.mem, hd.log⟩

/-- What does not depend on the data is the same. -/
theorem Coupled.same {α : Type} {s t : State} (h : K.Coupled s t) (f : State → α)
    (hf : ∀ s d, f (s.withData d) = f s) : f t = f s := by
  obtain ⟨d, rfl, -⟩ := h
  exact hf s d

theorem Coupled.regs {s t : State} (h : K.Coupled s t) (i : BitVec 5) :
    K.value (s.regs i) (t.regs i) := by
  obtain ⟨d, rfl, hd⟩ := h
  exact hd.regs i

theorem Coupled.mem {s t : State} (h : K.Coupled s t) (a : BitVec 32) :
    K.value (s.mem.byteAt a) (t.mem.byteAt a) := by
  obtain ⟨d, rfl, hd⟩ := h
  exact hd.mem a

end Registers

theorem value_concatByte {result result' : Option ConcolicValue} {byte byte' : ConcolicValue}
    (h : Option.Rel K.value result result') (hbyte : K.value byte byte') :
    Option.Rel K.value (Solver.concatByte result byte) (Solver.concatByte result' byte') := by
  cases h with
  | none => exact .some hbyte
  | some hab => exact .some (K.binaryOperator _ hbyte hab)

theorem value_load {m m' : ConcolicMemory} (h : ∀ a, K.value (m.byteAt a) (m'.byteAt a))
    (addr : BitVec 32) (n : Nat) : Option.Rel K.value (m.load addr n) (m'.load addr n) := by
  have hfold : ∀ (offs : List Nat) (r r' : Option ConcolicValue), Option.Rel K.value r r' →
      Option.Rel K.value
        (offs.foldl (fun r off ↦ Solver.concatByte r (m.byteAt (addr + BitVec.ofNat 32 off))) r)
        (offs.foldl (fun r off ↦ Solver.concatByte r (m'.byteAt (addr + BitVec.ofNat 32 off))) r') := by
    intro offs
    induction offs with
    | nil => exact fun _ _ hr ↦ hr
    | cons off offs ih => exact fun r r' hr ↦ ih _ _ (K.value_concatByte hr (h _))
  exact hfold _ none none .none

theorem value_setPart {m m' : ConcolicMemory} (h : ∀ a, K.value (m.byteAt a) (m'.byteAt a))
    (addr : BitVec 32) {v v' : ConcolicValue} (hv : K.value v v') (off : Nat) (a : BitVec 32) :
    K.value ((m.setPart addr v off).byteAt a) ((m'.setPart addr v' off).byteAt a) := by
  rw [ConcolicMemory.setPart, ConcolicMemory.setPart, ConcolicMemory.byteAt_set,
    ConcolicMemory.byteAt_set]
  split
  · exact K.extract _ _ hv
  · exact h a

theorem value_store {m m' : ConcolicMemory} (h : ∀ a, K.value (m.byteAt a) (m'.byteAt a))
    (addr : BitVec 32) {v v' : ConcolicValue} (hv : K.value v v') (n : Nat) (a : BitVec 32) :
    K.value ((m.store addr v n).byteAt a) ((m'.store addr v' n).byteAt a) := by
  have hfold : ∀ (offs : List Nat) {w w' : ConcolicValue}, K.value w w' →
      ∀ (m m' : ConcolicMemory), (∀ a, K.value (m.byteAt a) (m'.byteAt a)) →
      ∀ a, K.value ((offs.foldl (fun m off ↦ m.setPart addr w off) m).byteAt a)
        ((offs.foldl (fun m off ↦ m.setPart addr w' off) m').byteAt a) := by
    intro offs w w' hw
    induction offs with
    | nil => exact fun _ _ hm ↦ hm
    | cons off offs ih => exact fun m m' hm ↦ ih _ _ (K.value_setPart hm addr hw off)
  exact hfold _ (K.value_zextIf hv (n * 8)) m m' h a

/-- Clean bytes are the same on both sides. -/
theorem concreteByte_eq {m m' : ConcolicMemory} {a : BitVec 32}
    (h : K.value (m.byteAt a) (m'.byteAt a)) (h₁ : K.clean₁ (m.byteAt a))
    (h₂ : K.clean₂ (m'.byteAt a)) : m.concreteByte a = m'.concreteByte a := by
  rw [ConcolicMemory.concreteByte, ConcolicMemory.concreteByte, K.concrete h h₁ h₂]

end Coupling

/-! ## Programs that do not look at the data -/

/-- The program neither reads nor changes registers, memory and what is logged. -/
def Blind {α : Type} (m : IssM α) : Prop := ∀ d, Commutes (·.withData d) m

namespace Blind

variable {α β : Type} {m : IssM α}

theorem ret (a : α) : Blind (pure a : IssM α) := fun _ ↦ Commutes.ret a

theorem raise (e : Thrown) : Blind (throw e : IssM α) := fun _ ↦ Commutes.raise e

theorem ite {c : Prop} [Decidable c] {m' : IssM α} (hm : Blind m) (hm' : Blind m') :
    Blind (if c then m else m') :=
  fun d ↦ Commutes.ite (hm d) (hm' d)

theorem bind {g : α → IssM β} (hm : Blind m) (hg : ∀ a, Blind (g a)) : Blind (m >>= g) :=
  fun d ↦ Commutes.bind (hm d) fun a ↦ hg a d

theorem read_bind {g : State → IssM β} (hread : ∀ s d, g (s.withData d) = g s)
    (hg : ∀ s, Blind (g s)) : Blind (get >>= g) :=
  fun d ↦ Commutes.read_bind (fun s ↦ hread s d) fun s ↦ hg s d

theorem update {g : State → State} (h : ∀ s d, g (s.withData d) = (g s).withData d) :
    Blind (modify g : IssM PUnit) :=
  fun d ↦ Commutes.update fun s ↦ h s d

/-- The data of the final state is that of the initial one. -/
theorem data_eq (hm : Blind m) (s : State) :
    (∀ a s', m s = .ok a s' → s'.data = s.data) ∧
      ∀ e s', m s = .error e s' → s'.data = s.data := by
  have hself : m s = onState (·.withData s.data) (m s) := hm s.data s
  constructor
  · intro a s' hrun
    rw [hrun] at hself
    have hs' : s' = s'.withData s.data := (EStateM.Result.ok.inj hself).2
    exact (congrArg State.data hs').trans rfl
  · intro e s' hrun
    rw [hrun] at hself
    have hs' : s' = s'.withData s.data := (EStateM.Result.error.inj hself).2
    exact (congrArg State.data hs').trans rfl

/-- A property of the data is kept. -/
theorem keeps (hm : Blind m) {I : State → Prop} (hI : ∀ s s', s'.data = s.data → I s → I s') :
    Keeps I m := by
  intro s hs
  have hdata := hm.data_eq s
  cases hrun : m s with
  | ok a s' => exact hI s s' (hdata.1 a s' hrun) hs
  | error e s' => exact hI s s' (hdata.2 e s' hrun) hs

/-- A program that does not look at the data does the same in coupled states. -/
theorem coupled (hm : Blind m) (K : Coupling) (stop : Thrown → Prop) :
    Lockstep stop K.Coupled m m K.Same K.Same := by
  rintro s _ ⟨d, rfl, hd⟩
  have hdata := hm.data_eq s
  rw [show m (s.withData d) = onState (·.withData d) (m s) from hm d s]
  cases hrun : m s with
  | ok a s' => exact ⟨rfl, d, rfl, hdata.1 a s' hrun ▸ hd⟩
  | error e s' => exact .inr (.inr ⟨rfl, d, rfl, hdata.2 e s' hrun ▸ hd⟩)

end Blind

section Control

variable {c : Prop} [Decidable c]

theorem blind_ensure {what : Assertion} : Blind (ensure what c) :=
  Blind.ite (Blind.ret _) (Blind.raise _)

theorem blind_raiseTrapIf (reason : ExceptionCode) (mtval : BitVec 64) :
    Blind (raiseTrapIf c reason mtval) :=
  Blind.ite (Blind.raise _) (Blind.ret _)

theorem blind_raiseIllegalInstruction {α : Type} : Blind (raiseIllegalInstruction : IssM α) :=
  Blind.read_bind (fun _ _ ↦ rfl) fun _ ↦ Blind.raise _

theorem blind_raiseIllegalInstructionIf : Blind (raiseIllegalInstructionIf c) :=
  Blind.ite blind_raiseIllegalInstruction (Blind.ret _)

theorem blind_decode : Blind decode := by
  refine Blind.read_bind (fun _ _ ↦ rfl) fun s ↦ Blind.ite ?_ (Blind.update fun _ _ ↦ rfl)
  split
  · exact Blind.bind (Blind.update fun _ _ ↦ rfl) fun _ ↦
      Blind.read_bind (fun _ _ ↦ rfl) fun _ ↦ blind_raiseIllegalInstructionIf
  · exact Blind.raise _

theorem blind_jump (target : BitVec 32) : Blind (jump target) :=
  Blind.bind (Blind.update fun _ _ ↦ rfl) fun _ ↦ Blind.read_bind (fun _ _ ↦ rfl) fun _ ↦
    Blind.bind blind_ensure fun _ ↦ blind_raiseTrapIf _ _

theorem blind_raiseEcall : Blind raiseEcall :=
  Blind.read_bind (fun _ _ ↦ rfl) fun _ ↦ Blind.ite (Blind.raise _) (Blind.ite (Blind.raise _)
    (Blind.ite (Blind.raise _) (Blind.raise _)))

theorem blind_execEbreak : Blind execEbreak := Blind.update fun _ _ ↦ rfl

theorem blind_execWfi : Blind execWfi :=
  Blind.bind (Blind.update fun _ _ ↦ rfl) fun _ ↦ Blind.read_bind (fun _ _ ↦ rfl) fun _ ↦
    Blind.bind blind_raiseIllegalInstructionIf fun _ ↦ blind_raiseIllegalInstructionIf

theorem blind_returnFromTrapHandler (mode : Nat) : Blind (returnFromTrapHandler mode) :=
  Blind.ite (Blind.update fun _ _ ↦ rfl) (Blind.ite (Blind.update fun _ _ ↦ rfl)
    (Blind.ite (Blind.update fun _ _ ↦ rfl) (Blind.raise _)))

theorem blind_isInvalidCsrAccess (addr : Nat) (isWrite : Bool) :
    Blind (isInvalidCsrAccess addr isWrite) :=
  Blind.read_bind (fun _ _ ↦ rfl) fun _ ↦
    Blind.bind blind_raiseIllegalInstructionIf fun _ ↦ Blind.ret _

theorem blind_readCsr (r : CsrReg) : Blind (readCsr r) :=
  Blind.read_bind (fun _ _ ↦ rfl) fun _ ↦ Blind.ret _

theorem blind_defaultRead32 (addr : Nat) : Blind (defaultRead32 addr) := by
  unfold defaultRead32
  split
  · exact Blind.read_bind (fun _ _ ↦ rfl) fun _ ↦ Blind.ret _
  · exact blind_raiseIllegalInstruction

theorem blind_defaultWrite32 (addr : Nat) (value : BitVec 32) :
    Blind (defaultWrite32 addr value) := by
  unfold defaultWrite32
  split
  · exact Blind.update fun _ _ ↦ rfl
  · exact blind_raiseIllegalInstruction

theorem blind_getCsrValue (env : Env) (addr : Nat) : Blind (getCsrValue env addr) := by
  have htime : ∀ r, Blind (updateTime env >>= fun _ ↦ readCsr r) := fun r ↦
    Blind.bind (Blind.update fun _ _ ↦ rfl) fun _ ↦ blind_readCsr r
  have hcycle : ∀ r, Blind (updateCycle >>= fun _ ↦ readCsr r) := fun r ↦
    Blind.bind (Blind.update fun _ _ ↦ rfl) fun _ ↦ blind_readCsr r
  refine Blind.bind (Blind.read_bind (fun _ _ ↦ rfl) fun _ ↦ blind_raiseIllegalInstructionIf)
    fun _ ↦ ?_
  split
  · exact Blind.bind (blind_readCsr _) fun _ ↦ Blind.ret _
  split
  case h_1 | h_2 | h_3 | h_4 => exact htime _
  case h_5 | h_6 => exact hcycle _
  case h_7 | h_8 => exact blind_readCsr _
  case h_9 =>
    exact Blind.read_bind (fun _ _ ↦ rfl) fun _ ↦
      Blind.bind blind_raiseIllegalInstructionIf fun _ ↦ blind_defaultRead32 _
  case h_10 | h_11 => exact Blind.read_bind (fun _ _ ↦ rfl) fun _ ↦ Blind.ret _
  case h_12 => exact Blind.ret _
  case h_13 => exact Blind.ite (Blind.ret _) (blind_defaultRead32 _)

theorem blind_setCsrValue (addr : Nat) (value : BitVec 32) : Blind (setCsrValue addr value) := by
  refine Blind.read_bind (fun _ _ ↦ rfl) fun s ↦ ?_
  split
  · exact Blind.update fun _ _ ↦ rfl
  split
  case h_1 => exact Blind.ret _
  case h_2 =>
    exact Blind.bind blind_raiseIllegalInstructionIf fun _ ↦ Blind.update fun _ _ ↦ rfl
  case h_3 | h_4 => exact Blind.update fun _ _ ↦ rfl
  case h_5 => exact Blind.ite (Blind.ret _) (blind_defaultWrite32 _ _)

theorem blind_switchToTrapHandler (mode : Nat) : Blind (switchToTrapHandler mode) :=
  Blind.bind (Blind.update fun _ _ ↦ rfl) fun _ ↦ Blind.ite (Blind.update fun _ _ ↦ rfl)
    (Blind.bind (Blind.update fun _ _ ↦ rfl) fun _ ↦ Blind.raise _)

theorem blind_prepareTrap (reason : ExceptionCode) (mtval : BitVec 64) :
    Blind (prepareTrap reason mtval) := by
  refine Blind.bind (Blind.update fun _ _ ↦ rfl) fun _ ↦ Blind.read_bind (fun _ _ ↦ rfl) fun s ↦
    Blind.bind blind_ensure fun _ ↦ Blind.bind ?_ fun _ ↦ Blind.ret _
  exact Blind.bind (Blind.update fun _ _ ↦ rfl) fun _ ↦
    Blind.ite (Blind.raise _) (Blind.update fun _ _ ↦ rfl)

theorem blind_takeTrap (e : Thrown) : Blind (takeTrap e) := by
  cases e with
  | trap reason mtval =>
    exact Blind.bind (blind_prepareTrap reason mtval) fun _ ↦ blind_switchToTrapHandler _
  | host error => exact Blind.raise _

theorem blind_takePendingInterrupt : Blind takePendingInterrupt := by
  refine Blind.read_bind (fun _ _ ↦ rfl) fun s ↦ ?_
  split
  · exact Blind.ret _
  · refine Blind.bind ?_ fun _ ↦ blind_switchToTrapHandler _
    unfold prepareInterrupt
    split
    · exact Blind.raise _
    · exact Blind.ite (Blind.update fun _ _ ↦ rfl) (Blind.raise _)

theorem blind_decodeVmInfo (prv : Nat) : Blind (decodeVmInfo prv) :=
  Blind.bind blind_ensure fun _ ↦ Blind.read_bind (fun _ _ ↦ rfl) fun _ ↦
    Blind.ite (Blind.ret _) (Blind.raise _)

end Control

end CoverageVP.Iss
