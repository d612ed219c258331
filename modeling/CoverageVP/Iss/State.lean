import CoverageVP.Clover.Concolic
import CoverageVP.Instr.Compressed
import CoverageVP.Instr.Decode
import CoverageVP.Iss.Csr
import CoverageVP.Lib.Program

/-!
# The state of the instruction set simulator

The state of a core of the symbolic platform together with what it is connected to: the symbolic
memory, which is the only target of the bus that can be reached, an optional MMU, an optional
handler for intercepted system calls, and optional coverage. What comes from outside the simulator
is collected in an environment.

An instruction either retires, raises a trap of the guest, or ends with an exception of the host.
-/

namespace CoverageVP.Iss

open Clover Instr

/-! ## Exceptions -/

/-- The traps of the guest. -/
inductive ExceptionCode
  | INSTR_ADDR_MISALIGNED | INSTR_ACCESS_FAULT | ILLEGAL_INSTR | BREAKPOINT
  | LOAD_ADDR_MISALIGNED | LOAD_ACCESS_FAULT | STORE_AMO_ADDR_MISALIGNED | STORE_AMO_ACCESS_FAULT
  | ECALL_U_MODE | ECALL_S_MODE | ECALL_M_MODE
  | INSTR_PAGE_FAULT | LOAD_PAGE_FAULT | STORE_AMO_PAGE_FAULT
  deriving DecidableEq, Repr

def ExceptionCode.toNat : ExceptionCode → Nat
  | INSTR_ADDR_MISALIGNED => 0
  | INSTR_ACCESS_FAULT => 1
  | ILLEGAL_INSTR => 2
  | BREAKPOINT => 3
  | LOAD_ADDR_MISALIGNED => 4
  | LOAD_ACCESS_FAULT => 5
  | STORE_AMO_ADDR_MISALIGNED => 6
  | STORE_AMO_ACCESS_FAULT => 7
  | ECALL_U_MODE => 8
  | ECALL_S_MODE => 9
  | ECALL_M_MODE => 11
  | INSTR_PAGE_FAULT => 12
  | LOAD_PAGE_FAULT => 13
  | STORE_AMO_PAGE_FAULT => 15

/-- The assertions of the source: the pc is aligned when an instruction is fetched, a jump goes to an
even address, `x0` is zero, a trap of user mode is taken in user mode, an access is translated in
user or supervisor mode, in the MMU and in the page walk, there is host memory to point into, and
the result of a system call is not negative. -/
inductive Assertion
  | alignedFetch | evenTarget | zeroRegister | userTrap | translationMode | walkMode
  | hostPointer | sysResult
  deriving DecidableEq, Repr

/-- The ways in which the host program fails. -/
inductive HostError
  | assertion (what : Assertion)
  | runtimeError (what : String)
  | string (what : String)
  | outOfRange
  | badLexicalCast
  | nullPointer
  | report (what : String)
  deriving DecidableEq, Repr

inductive Thrown
  | trap (reason : ExceptionCode) (mtval : BitVec 64)
  | host (error : HostError)
  deriving DecidableEq, Repr

/-! ## Components -/

structure BasicBlock where
  start : BitVec 64
  stop : BitVec 64
  visited : Bool

structure Location where
  line : Int
  column : Int

/-- The blocks of a function are positions in the list of all blocks. -/
structure Function where
  name : String
  definition : Location × Location
  blocks : List Nat
  firstInstr : BitVec 64
  execCount : Nat

structure SourceLine where
  funcName : String
  definition : Location
  blocks : List Nat
  firstInstr : BitVec 64
  execCount : Nat
  symbolicOnce : Bool
  taintedOnce : Bool
  initialConc : Bool

structure SourceFile where
  name : String
  lines : Std.ExtTreeMap Int SourceLine compare
  funcs : Std.ExtTreeMap String Function compare

structure Coverage where
  blocks : List BasicBlock
  files : Std.ExtTreeMap String SourceFile compare

/-- One of the source lines an address belongs to. -/
structure SourceInfo where
  symbolName : String
  sourcePath : String
  line : Int
  column : Int
  deriving DecidableEq, Repr

inductive MemoryAccessType
  | FETCH | LOAD | STORE
  deriving DecidableEq, Repr

structure TlbEntry where
  ppn : BitVec 64
  vpn : BitVec 64

structure Mmu where
  pageFaultOnAD : Bool
  tlb : Nat → MemoryAccessType → Nat → TlbEntry

/-- The handler of intercepted system calls. It has no pointer to the guest's memory on this
platform. -/
structure SyscallHandler where
  hp : BitVec 64
  maxHeap : BitVec 64
  shallExit : Bool

inductive CoreExecStatus
  | Runnable | HitBreakpoint | Terminated
  deriving DecidableEq, Repr

/-- The registers hold values of 32 bits. -/
structure RegFile where
  value : BitVec 5 → ConcolicValue
  width_value : ∀ i, (value i).getWidth = 32

instance : CoeFun RegFile fun _ ↦ BitVec 5 → ConcolicValue := ⟨RegFile.value⟩

structure State where
  regs : RegFile
  pc : BitVec 32
  lastPc : BitVec 32
  csrs : CsrTable
  prv : Nat
  instr : Instruction
  op : Opcode
  status : CoreExecStatus
  shallExit : Bool
  lrScCounter : Nat
  debugMode : Bool
  breakpoints : BitVec 32 → Bool
  /-- The time spent, in cycles. -/
  cycleCounter : Nat
  mem : ConcolicMemory
  memSize : Nat
  mmu : Option Mmu
  sys : Option SyscallHandler
  coverage : Option Coverage
  /-- The branch conditions recorded so far with the outcomes taken, the latest one last. -/
  tracer : List (Bool × Expr)
  /-- How often the clock was read, and how often a host function was called. -/
  mtimeReads : Nat
  hostCalls : Nat

/-- What comes from outside: the values of the symbolic inputs, the clock and the results of host
functions at each call, and the debug information of the program. -/
structure Env where
  inputs : Assignment
  mtime : Nat → BitVec 64
  hostResult : Nat → Int
  getSources : BitVec 64 → List SourceInfo

abbrev IssM := EStateM Thrown State

def raiseTrap {α : Type} (reason : ExceptionCode) (mtval : BitVec 64) : IssM α :=
  throw (.trap reason mtval)

def hostError {α : Type} (error : HostError) : IssM α := throw (.host error)

/-- An assertion of the source. -/
def ensure (what : Assertion) (condition : Prop) [Decidable condition] : IssM Unit :=
  if condition then pure () else hostError (.assertion what)

def raiseTrapIf (condition : Prop) [Decidable condition] (reason : ExceptionCode)
    (mtval : BitVec 64) : IssM Unit :=
  if condition then raiseTrap reason mtval else pure ()

/-- An illegal instruction reports the instruction word. -/
def raiseIllegalInstruction {α : Type} : IssM α := do
  let s ← get
  raiseTrap .ILLEGAL_INSTR (s.instr.setWidth 64)

def raiseIllegalInstructionIf (condition : Prop) [Decidable condition] : IssM Unit :=
  if condition then raiseIllegalInstruction else pure ()

/-! ## Registers -/

namespace RegFile

def set (regs : RegFile) (index : BitVec 5) (value : ConcolicValue)
    (hwidth : value.getWidth = 32) : RegFile where
  value := fun i ↦ if i = index then value else regs i
  width_value := by
    intro i
    split
    · exact hwidth
    · exact regs.width_value i

@[simp]
theorem set_self (regs : RegFile) (index : BitVec 5) {value : ConcolicValue}
    (hwidth : value.getWidth = 32) : regs.set index value hwidth index = value :=
  if_pos rfl

theorem set_of_ne (regs : RegFile) {index i : BitVec 5} {value : ConcolicValue}
    (hwidth : value.getWidth = 32) (h : i ≠ index) : regs.set index value hwidth i = regs i :=
  if_neg h

/-- A narrower value is extended; a wider one is ignored, as the source's assertion on it always
holds. -/
def write (regs : RegFile) (index : BitVec 5) (value : ConcolicValue) : RegFile :=
  if value.getWidth < 32 then regs.set index (value.zext 32) (value.getWidth_zext 32)
  else if h : value.getWidth = 32 then regs.set index value h
  else regs

theorem write_of_ne (regs : RegFile) {index i : BitVec 5} (value : ConcolicValue) (h : i ≠ index) :
    regs.write index value i = regs i := by
  unfold write
  split
  · exact regs.set_of_ne _ h
  split
  · exact regs.set_of_ne _ h
  · rfl

def taint (regs : RegFile) (index : BitVec 5) : RegFile :=
  regs.set index (regs index).taint (regs.width_value index)

def shamt (regs : RegFile) (index : BitVec 5) : ConcolicValue :=
  ((regs index).extract 0 5).zext 32

def zero : BitVec 5 := 0#5
def sp : BitVec 5 := 2#5
def a0 : BitVec 5 := 10#5
def a1 : BitVec 5 := 11#5
def a2 : BitVec 5 := 12#5
def a3 : BitVec 5 := 13#5
def a5 : BitVec 5 := 15#5
def a7 : BitVec 5 := 17#5

end RegFile

/-- A constant register value. -/
def constant (value : BitVec 32) : ConcolicValue := Solver.BVC none (.uint32 value)

theorem constant_eq (value : BitVec 32) : constant value = ⟨⟨32, value⟩, none, false⟩ := by
  rw [constant, Solver.BVC, IntValue.toBV_uint32]
  rfl

/-- The concrete part of a value as a word. -/
def getValue (value : ConcolicValue) : BitVec 32 := BitVec.ofNat 32 value.concrete.toNat

namespace State

def rd (s : State) : BitVec 5 := s.instr.rd.setWidth 5
def rs1 (s : State) : BitVec 5 := s.instr.rs1.setWidth 5
def rs2 (s : State) : BitVec 5 := s.instr.rs2.setWidth 5

def writeReg (s : State) (index : BitVec 5) (value : ConcolicValue) : State :=
  { s with regs := s.regs.write index value }

def setCsr (s : State) (r : CsrReg) (value : BitVec 32) : State :=
  { s with csrs := s.csrs.set r value }

def pcAlignmentMask (s : State) : BitVec 32 := s.csrs.pcAlignmentMask

end State

end CoverageVP.Iss
