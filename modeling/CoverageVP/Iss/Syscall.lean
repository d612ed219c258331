import CoverageVP.Clover.Context
import CoverageVP.Iss.Mem

/-!
# Intercepted system calls

The system calls that the handler implements. On this platform it has no pointer to the guest's
memory, so that every call which reads or writes a buffer fails an assertion. Two calls introduce
symbolic inputs, with the values the environment gives to their names.
-/

namespace CoverageVP.Iss

open Clover

/-! ## Symbolic inputs -/

/-- The value of the input `name` of type `T`. -/
def Env.input (env : Env) (T : IntType) (name : String) : IntValue :=
  T.cast (env.inputs ⟨name, T.byteSize⟩).toNat

def Env.getSymbolicWord (env : Env) (name : String) : ConcolicValue :=
  Solver.BVC (some name) (env.input .uint32 name)

def Env.getSymbolicByte (env : Env) (name : String) : ConcolicValue :=
  Solver.BVC (some name) (env.input .uint8 name)

def Env.getSymbolicBytes (env : Env) (name : String) (size : Nat) : Option ConcolicValue :=
  (List.range size).foldl
    (fun result i ↦ Solver.concatByte result (env.getSymbolicByte (byteName name i))) none

/-- The name of a symbolic register. -/
def registerName (index : Nat) : String := "x" ++ toString index

/-- The name of a symbolic range of memory. -/
def memoryName (addr : Nat) : String := "memory<" ++ toString addr ++ ">"

def makeSymbolicRegister (env : Env) (index : BitVec 5) : IssM Unit :=
  modify (·.writeReg index (env.getSymbolicWord (registerName index.toNat)))

def makeSymbolicMemory (env : Env) (addr : BitVec 32) (size : Nat) : IssM Unit :=
  symbolicStoreData (constant addr) (env.getSymbolicBytes (memoryName addr.toNat) size) size

/-! ## The calls -/

def SYS_host_error : Nat := 1
def SYS_host_test_pass : Nat := 2
def SYS_host_test_fail : Nat := 3
def SYS_close : Nat := 57
def SYS_lseek : Nat := 62
def SYS_read : Nat := 63
def SYS_write : Nat := 64
def SYS_fstat : Nat := 80
def SYS_exit : Nat := 93
def SYS_sym_reg : Nat := 95
def SYS_sym_mem : Nat := 96
def SYS_gettimeofday : Nat := 169
def SYS_brk : Nat := 214
def SYS_open : Nat := 1024
def SYS_time : Nat := 1062

/-- The result of a host function. -/
def callHost (env : Env) : IssM Int := do
  let s ← get
  modify fun s ↦ { s with hostCalls := s.hostCalls + 1 }
  return env.hostResult s.hostCalls

/-- A conversion to a 32-bit integer that checks the range. -/
@[irreducible]
def lexicalCastInt (value : Int) : IssM Int :=
  if -(2 : Int) ^ 31 ≤ value ∧ value < 2 ^ 31 then pure value else hostError .badLexicalCast

/-- There is no host memory to point into. -/
def guestToHostPointer {α : Type} : IssM α := hostError (.assertion .hostPointer)

def sysFstat (env : Env) : IssM Int := do
  let ans ← callHost env
  if ans = 0 then guestToHostPointer else return ans

def sysTime (env : Env) (tloc : BitVec 32) : IssM Int := do
  let ans ← callHost env
  let ans ← lexicalCastInt ans
  if tloc ≠ 0#32 then guestToHostPointer else return ans

def SyscallHandler.setHeap (sys : SyscallHandler) (hp : BitVec 64) : SyscallHandler :=
  { sys with hp := hp, maxHeap := if sys.maxHeap < hp then hp else sys.maxHeap }

/-- Address zero asks for the current end of the heap. -/
def sysBrk (sys : SyscallHandler) (addr : BitVec 32) : IssM Int :=
  if addr = 0#32 then lexicalCastInt sys.hp.toNat
  else do
    modify fun s ↦ { s with sys := some (sys.setHeap (addr.setWidth 64)) }
    lexicalCastInt addr.toNat

def sysClose (env : Env) (fd : BitVec 32) : IssM Int :=
  if fd.toNat ≤ 2 then pure 0 else callHost env

/-- The result of the host is cut to an `int`. -/
def sysLseek (env : Env) : IssM Int := do
  let ans ← callHost env
  return (BitVec.ofInt 32 ans).toInt

def sysSymReg (env : Env) (index : BitVec 32) : IssM Int :=
  if 32 ≤ index.toNat then pure (-1)
  else do
    makeSymbolicRegister env (index.setWidth 5)
    return 0

def sysSymMem (env : Env) (addr size : BitVec 32) : IssM Int := do
  makeSymbolicMemory env addr size.toNat
  return 0

def sysExit (sys : SyscallHandler) : IssM Int := do
  modify fun s ↦ { s with sys := some { sys with shallExit := true } }
  return 0

def unsupportedSyscall (n : Nat) : HostError :=
  .runtimeError ("unsupported syscall '" ++ toString n ++ "'")

def dispatchSyscall (env : Env) (sys : SyscallHandler) (n : Nat) (a0 a1 : BitVec 32) : IssM Int :=
  if n = SYS_fstat then sysFstat env
  else if n = SYS_brk then sysBrk sys a0
  else if n = SYS_time then sysTime env a0
  else if n = SYS_gettimeofday ∨ n = SYS_write ∨ n = SYS_read ∨ n = SYS_open then
    guestToHostPointer
  else if n = SYS_lseek then sysLseek env
  else if n = SYS_close then sysClose env a0
  else if n = SYS_sym_reg then sysSymReg env a0
  else if n = SYS_sym_mem then sysSymMem env a0 a1
  else if n = SYS_host_error then hostError (.report "SYS_host_error")
  else if n = SYS_exit ∨ n = SYS_host_test_pass ∨ n = SYS_host_test_fail then sysExit sys
  else hostError (unsupportedSyscall n)

def State.syscallRegisterIndex (s : State) : BitVec 5 :=
  if s.csrs.hasEBaseIsa then RegFile.a5 else RegFile.a7

/-- The result is passed as an unsigned 64-bit integer, so that a negative one fails the
assertion. -/
def writeResult (ans : Int) : IssM Unit := do
  ensure .sysResult (0 ≤ ans)
  modify (·.writeReg RegFile.a0 (constant (BitVec.ofInt 32 ans)))

/-- A call that asks the simulation to stop is passed on to the core. -/
def passExit : IssM Unit :=
  modify fun s ↦ { s with shallExit := s.shallExit || s.sys.any (·.shallExit) }

def executeSyscall (env : Env) (sys : SyscallHandler) : IssM Unit := do
  let s ← get
  let ans ← dispatchSyscall env sys (getValue (s.regs s.syscallRegisterIndex)).toNat
    (getValue (s.regs RegFile.a0)) (getValue (s.regs RegFile.a1))
  writeResult ans
  passExit

end CoverageVP.Iss
