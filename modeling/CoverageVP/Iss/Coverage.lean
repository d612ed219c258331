import CoverageVP.Iss.State

/-!
# Coverage of an executed instruction

An executed address is counted for the functions and lines that the debug information maps it to.
A file that was not seen at initialisation is an assembler file and skipped; a function or line that
was not seen ends with an exception.
-/

namespace CoverageVP.Iss

/-- The first block that contains an address is marked. -/
def visit (addr : BitVec 64) : List BasicBlock → List BasicBlock
  | [] => []
  | block :: blocks =>
    if block.start ≤ addr ∧ addr < block.stop then { block with visited := true } :: blocks
    else block :: visit addr blocks

/-- What is known about the operands of an executed instruction. -/
structure OperandFlags where
  tainted : Bool
  symbolic : Bool
  init : Bool
  deriving DecidableEq, Repr

def Function.count (func : Function) (addr : BitVec 64) : Function :=
  if addr = func.firstInstr then { func with execCount := func.execCount + 1 } else func

def SourceLine.count (sl : SourceLine) (addr : BitVec 64) (flags : OperandFlags) : SourceLine :=
  { sl with
    execCount := if addr = sl.firstInstr then sl.execCount + 1 else sl.execCount
    symbolicOnce := flags.symbolic || sl.symbolicOnce
    taintedOnce := flags.tainted || sl.taintedOnce
    initialConc := flags.init || sl.initialConc }

namespace Coverage

def coverSource (addr : BitVec 64) (flags : OperandFlags) (source : SourceInfo) :
    EStateM HostError Coverage Unit := fun cov ↦
  match cov.files[source.sourcePath]? with
  | none => .ok () cov
  | some f =>
    match f.funcs[source.symbolName]? with
    | none => .error .outOfRange cov
    | some func =>
      let f := { f with funcs := f.funcs.insert source.symbolName (func.count addr) }
      let blocks := visit addr cov.blocks
      match f.lines[source.line]? with
      | none => .error .outOfRange ⟨blocks, cov.files.insert source.sourcePath f⟩
      | some sl =>
        let f := { f with lines := f.lines.insert source.line (sl.count addr flags) }
        .ok () ⟨blocks, cov.files.insert source.sourcePath f⟩

def coverSources (addr : BitVec 64) (flags : OperandFlags) :
    List SourceInfo → EStateM HostError Coverage Unit
  | [] => pure ()
  | source :: sources => do
    coverSource addr flags source
    coverSources addr flags sources

end Coverage

/-- The coverage is used without a test for the null pointer. -/
def cover (env : Env) (flags : OperandFlags) : IssM Unit := fun s ↦
  match s.coverage with
  | none => .error (.host .nullPointer) s
  | some cov =>
    let addr := s.lastPc.setWidth 64
    match Coverage.coverSources addr flags (env.getSources addr) cov with
    | .ok _ cov => .ok () { s with coverage := some cov }
    | .error e cov => .error (.host e) { s with coverage := some cov }

end CoverageVP.Iss
