import CoverageVP.Iss.Run

/-!
# Rules for the parts of a step

Rules for the exceptions that the simulator throws, and the parts of a step that keep every property
of what they do not change. The rules hold for every outcome, so they also say what a trap leaves
behind.
-/

namespace CoverageVP.Iss

open Lib Clover Instr

/-! ## Exceptions -/

section Raise

variable {P : State → Prop} {E : Thrown → State → Prop} {c : Prop} [Decidable c]

theorem triple_ensure {what : Assertion} {Q : Unit → State → Prop} (hok : ∀ s, P s → c → Q () s)
    (herr : ∀ s, P s → ¬ c → E (.host (.assertion what)) s) : Triple P (ensure what c) Q E := by
  unfold ensure
  split
  · exact Triple.ret fun s hs ↦ hok s hs ‹c›
  · exact Triple.raise fun s hs ↦ herr s hs ‹¬ c›

theorem triple_raiseTrapIf {Q : Unit → State → Prop} {reason : ExceptionCode} {mtval : BitVec 64}
    (hok : ∀ s, P s → ¬ c → Q () s) (herr : ∀ s, P s → c → E (.trap reason mtval) s) :
    Triple P (raiseTrapIf c reason mtval) Q E := by
  unfold raiseTrapIf
  split
  · exact Triple.raise fun s hs ↦ herr s hs ‹c›
  · exact Triple.ret fun s hs ↦ hok s hs ‹¬ c›

theorem triple_raiseIllegalInstruction {α : Type} {Q : α → State → Prop}
    (herr : ∀ s, P s → E (.trap .ILLEGAL_INSTR (s.instr.setWidth 64)) s) :
    Triple P raiseIllegalInstruction Q E :=
  Triple.read_bind fun s hs ↦ Triple.raise fun _ h ↦ h ▸ herr s hs

theorem triple_raiseIllegalInstructionIf {Q : Unit → State → Prop}
    (hok : ∀ s, P s → ¬ c → Q () s)
    (herr : ∀ s, P s → c → E (.trap .ILLEGAL_INSTR (s.instr.setWidth 64)) s) :
    Triple P (raiseIllegalInstructionIf c) Q E := by
  unfold raiseIllegalInstructionIf
  split
  · exact triple_raiseIllegalInstruction fun s hs ↦ herr s hs ‹c›
  · exact Triple.ret fun s hs ↦ hok s hs ‹¬ c›

variable {I : State → Prop}

theorem keeps_ensure {what : Assertion} : Keeps I (ensure what c) :=
  triple_ensure (fun _ h _ ↦ h) fun _ h _ ↦ h

theorem keeps_raiseTrapIf (reason : ExceptionCode) (mtval : BitVec 64) :
    Keeps I (raiseTrapIf c reason mtval) :=
  triple_raiseTrapIf (fun _ h _ ↦ h) fun _ h _ ↦ h

theorem keeps_raiseIllegalInstruction {α : Type} :
    Keeps I (raiseIllegalInstruction : IssM α) :=
  triple_raiseIllegalInstruction fun _ h ↦ h

theorem keeps_raiseIllegalInstructionIf : Keeps I (raiseIllegalInstructionIf c) :=
  triple_raiseIllegalInstructionIf (fun _ h _ ↦ h) fun _ h _ ↦ h

end Raise

/-! ## The rest of a step -/

section Step

variable {I : State → Prop}

theorem keeps_classifyOperands : Keeps I classifyOperands := by
  refine Keeps.read_bind fun s _ ↦ ?_
  split
  · exact Keeps.ret _
  · exact Keeps.ite (Keeps.raise _) (Keeps.ret _)

theorem keeps_lexicalCastInt (value : Int) : Keeps I (lexicalCastInt value) := by
  unfold lexicalCastInt
  exact Keeps.ite (Keeps.ret _) (Keeps.raise _)

/-- A property that system calls keep, apart from the inputs they introduce. -/
structure KeptByCalls (env : Env) (I : State → Prop) : Prop where
  sys : ∀ s sys, I s → I { s with sys := sys }
  hostCalls : ∀ s n, I s → I { s with hostCalls := n }
  shallExit : ∀ s b, I s → I { s with shallExit := b }
  result : ∀ s value, I s → I (s.writeReg RegFile.a0 (constant value))
  register : ∀ index, Keeps I (makeSymbolicRegister env index)
  memory : ∀ addr size, Keeps I (makeSymbolicMemory env addr size)

theorem KeptByCalls.callHost {env : Env} (hI : KeptByCalls env I) : Keeps I (callHost env) :=
  Keeps.read_bind fun _ _ ↦
    Keeps.bind (Keeps.update fun s h ↦ hI.hostCalls s _ h) fun _ ↦ Keeps.ret _

theorem KeptByCalls.sysBrk {env : Env} (hI : KeptByCalls env I) (sys : SyscallHandler)
    (addr : BitVec 32) : Keeps I (sysBrk sys addr) :=
  Keeps.ite (keeps_lexicalCastInt _) (Keeps.bind (Keeps.update fun s h ↦ hI.sys s _ h) fun _ ↦
    keeps_lexicalCastInt _)

theorem KeptByCalls.dispatchSyscall {env : Env} (hI : KeptByCalls env I) (sys : SyscallHandler)
    (n : Nat) (a0 a1 : BitVec 32) : Keeps I (dispatchSyscall env sys n a0 a1) := by
  refine Keeps.ite ?fstat (Keeps.ite (hI.sysBrk sys a0) (Keeps.ite ?time (Keeps.ite ?pointer
    (Keeps.ite ?lseek (Keeps.ite ?close (Keeps.ite ?symReg (Keeps.ite ?symMem
    (Keeps.ite ?error (Keeps.ite ?exit ?unsupported)))))))))
  case fstat => exact Keeps.bind hI.callHost fun _ ↦ Keeps.ite (Keeps.raise _) (Keeps.ret _)
  case time =>
    exact Keeps.bind hI.callHost fun _ ↦ Keeps.bind (keeps_lexicalCastInt _) fun _ ↦
      Keeps.ite (Keeps.raise _) (Keeps.ret _)
  case pointer => exact Keeps.raise _
  case lseek => exact Keeps.bind hI.callHost fun _ ↦ Keeps.ret _
  case close => exact Keeps.ite (Keeps.ret _) hI.callHost
  case symReg => exact Keeps.ite (Keeps.ret _) (Keeps.bind (hI.register _) fun _ ↦ Keeps.ret _)
  case symMem => exact Keeps.bind (hI.memory _ _) fun _ ↦ Keeps.ret _
  case error => exact Keeps.raise _
  case exit => exact Keeps.bind (Keeps.update fun s h ↦ hI.sys s _ h) fun _ ↦ Keeps.ret _
  case unsupported => exact Keeps.raise _

theorem KeptByCalls.executeSyscall {env : Env} (hI : KeptByCalls env I) (sys : SyscallHandler) :
    Keeps I (executeSyscall env sys) := by
  refine Keeps.read_bind fun _ _ ↦ Keeps.bind (hI.dispatchSyscall sys _ _ _) fun _ ↦ ?_
  refine Keeps.bind (Keeps.bind keeps_ensure fun _ ↦ Keeps.update fun s h ↦ hI.result s _ h) ?_
  exact fun _ ↦ Keeps.update fun s h ↦ hI.shallExit s _ h

theorem keeps_raiseEcall : Keeps I raiseEcall :=
  Keeps.read_bind fun _ _ ↦ Keeps.ite (Keeps.raise _) (Keeps.ite (Keeps.raise _)
    (Keeps.ite (Keeps.raise _) (Keeps.raise _)))

/-- No system call is intercepted in the state. -/
def State.NotIntercepted (s : State) : Prop :=
  s.sys = none ∨ getValue (s.regs RegFile.a7) = 0#32

/-- A call that is not intercepted raises a trap. -/
theorem triple_execEcall {Q : Unit → State → Prop} {E : Thrown → State → Prop} {s : State}
    (hs : s.NotIntercepted) (h : Triple (· = s) raiseEcall Q E) (env : Env) :
    Triple (· = s) (execEcall env) Q E := by
  refine Triple.read_bind fun s' hs' ↦ ?_
  rw [hs']
  split
  case h_1 sys hsys =>
    refine Triple.ite (fun hne ↦ absurd (hs.resolve_left fun hnone ↦ ?_) hne) fun _ ↦ h
    rw [hsys] at hnone
    cases hnone
  case h_2 => exact h

theorem KeptByCalls.execEcall {env : Env} (hI : KeptByCalls env I) : Keeps I (execEcall env) := by
  refine Keeps.read_bind fun s _ ↦ ?_
  split
  case h_1 sys _ => exact Keeps.ite (hI.executeSyscall sys) keeps_raiseEcall
  case h_2 => exact keeps_raiseEcall

theorem keeps_cover (hI : ∀ s cov, I s → I { s with coverage := cov }) (env : Env)
    (flags : OperandFlags) : Keeps I (cover env flags) := by
  intro s h
  unfold cover
  cases s.coverage with
  | none => exact h
  | some cov =>
    dsimp only
    cases Coverage.coverSources (s.lastPc.setWidth 64) flags (env.getSources (s.lastPc.setWidth 64))
      cov with
    | ok _ _ => exact hI s _ h
    | error _ _ => exact hI s _ h

end Step

end CoverageVP.Iss
