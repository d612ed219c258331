import CoverageVP.Iss.Coverage

/-!
# Initialisation and report of the coverage

Before the first run the coverage visits the instructions of all functions twice: first to find the
leaders of basic blocks, then to enter the files, functions and lines that the debug information maps
the instructions to. Where a block ends it is added once for each location of its last instruction.
After the last run, lines and functions are reported.
-/

namespace CoverageVP.Iss

open Instr

namespace Coverage

/-! ## The program -/

/-- The code of a function. It ends before the end of the address space. -/
structure FuncRange where
  lopc : BitVec 64
  hipc : BitVec 64
  fits : hipc.toNat + 4 ≤ 2 ^ 64

/-- Small functions at the start of the memory. -/
def eightBytes : FuncRange := ⟨0#64, 8#64, by decide⟩

def twelveBytes : FuncRange := ⟨0#64, 12#64, by decide⟩

/-- What is known of a program: its memory, its functions in the order of the debug information, and
the locations of its instructions. -/
structure Image where
  loadInstr : BitVec 64 → Except Thrown (BitVec 32)
  functions : List FuncRange
  getSources : BitVec 64 → List SourceInfo

/-- The ways in which the initialisation fails: a location without a name, a missing entry, and a
load that raises an exception. -/
inductive InitError
  | assertion | outOfRange | load (e : Thrown)

def Image.fetch (image : Image) (addr : BitVec 64) : Except InitError Instruction :=
  (image.loadInstr addr).mapError .load

def instrSize (instr : Instruction) : BitVec 64 := if instr.isCompressed then 2#64 else 4#64

def isJump (instr : Instruction) : Bool :=
  instr.opcode.toNat = OP_BEQ || instr.opcode.toNat = OP_JAL || instr.opcode.toNat = OP_JALR

/-- An indirect jump is assumed to leave the function. -/
def jumpTarget (addr : BitVec 64) (instr : Instruction) : Option (BitVec 64) :=
  if instr.opcode.toNat = OP_BEQ then some (addr + instr.bImm.signExtend 64)
  else if instr.opcode.toNat = OP_JAL then some (addr + instr.jImm.signExtend 64)
  else none

/-- The instructions from an address on; a function has at most as many as it has bytes. -/
def initBasicBlocksFrom (image : Image) (range : FuncRange) :
    Nat → BitVec 64 → Bool → List (BitVec 64) → Except InitError (List (BitVec 64))
  | 0, _, _, leaders => .ok leaders
  | fuel + 1, addr, prevWasJump, leaders =>
    if addr < range.hipc then do
      let leaders := if prevWasJump then addr :: leaders else leaders
      let instr ← image.fetch addr
      let leaders :=
        match jumpTarget addr instr with
        | some dest => if range.lopc ≤ dest ∧ dest < range.hipc then dest :: leaders else leaders
        | none => leaders
      initBasicBlocksFrom image range fuel (addr + instrSize instr) (isJump instr) leaders
    else .ok leaders

/-- The first instruction is always a leader. -/
def initBasicBlocks (image : Image) (leaders : List (BitVec 64)) (range : FuncRange) :
    Except InitError (List (BitVec 64)) :=
  initBasicBlocksFrom image range (range.hipc.toNat - range.lopc.toNat) range.lopc false
    (range.lopc :: leaders)

/-! ## Functions -/

/-- Addresses are looked up among the leaders one by one. -/
instance decidableMemLeaders (addr : BitVec 64) (leaders : List (BitVec 64)) :
    Decidable (addr ∈ leaders) := List.instDecidableMemOfLawfulBEq addr leaders

abbrev Files := Std.ExtTreeMap String SourceFile compare

def newFunction (s : SourceInfo) (addr : BitVec 64) : Function where
  name := s.symbolName
  definition := (⟨s.line, s.column⟩, ⟨0, 0⟩)
  blocks := []
  firstInstr := addr
  execCount := 0

def newLine (s : SourceInfo) (funcName : String) (addr : BitVec 64) : SourceLine where
  funcName := funcName
  definition := ⟨s.line, s.column⟩
  blocks := []
  firstInstr := addr
  execCount := 0
  symbolicOnce := false
  taintedOnce := false
  initialConc := false

/-- A function ends with the last of its lines. -/
def extendTo (f : Function) (definition : Location) : Function :=
  if f.definition.2.line < definition.line then
    { f with definition := (f.definition.1, definition) }
  else f

/-- The function and the line of a location are entered unless they are known. -/
def enter (sf : SourceFile) (s : SourceInfo) (addr : BitVec 64) : SourceFile :=
  let f := sf.funcs[s.symbolName]?.getD (newFunction s addr)
  if s.line ∈ sf.lines then { sf with funcs := sf.funcs.insert s.symbolName f }
  else
    { sf with
      funcs := sf.funcs.insert s.symbolName (extendTo f ⟨s.line, s.column⟩)
      lines := sf.lines.insert s.line (newLine s f.name addr) }

def addSource (addr : BitVec 64) (files : Files) (s : SourceInfo) : Except InitError Files :=
  if s.symbolName = "" ∨ s.sourcePath = "" then .error .assertion
  else .ok (files.insert s.sourcePath
    (enter (files[s.sourcePath]?.getD ⟨s.sourcePath, ∅, ∅⟩) s addr))

/-- A new block is attached to the function. The line it is attached to is a copy, so the lines in
the file have no blocks. -/
def addBlock (start stop : BitVec 64) (cov : Coverage) (s : SourceInfo) :
    Except InitError Coverage :=
  match cov.files[s.sourcePath]? with
  | none => .error .outOfRange
  | some sf =>
    match sf.funcs[s.symbolName]?, sf.lines[s.line]? with
    | some f, some _ =>
      let f := { f with blocks := f.blocks ++ [cov.blocks.length] }
      .ok ⟨cov.blocks ++ [⟨start, stop, false⟩],
        cov.files.insert s.sourcePath { sf with funcs := sf.funcs.insert s.symbolName f }⟩
    | _, _ => .error .outOfRange

def addFuncFrom (image : Image) (leaders : List (BitVec 64)) (range : FuncRange) :
    Nat → BitVec 64 → BitVec 64 → Coverage → Except InitError Coverage
  | 0, _, _, cov => .ok cov
  | fuel + 1, addr, blockPrev, cov =>
    if addr < range.hipc then do
      let sources := image.getSources addr
      let files ← sources.foldlM (addSource addr) cov.files
      let instr ← image.fetch addr
      let next := addr + instrSize instr
      if next ∈ leaders ∨ next = range.hipc then
        if blockPrev < next then do
          let cov ← sources.foldlM (addBlock blockPrev next) { cov with files := files }
          addFuncFrom image leaders range fuel next next cov
        else .error .assertion
      else addFuncFrom image leaders range fuel next blockPrev { cov with files := files }
    else .ok cov

def addFunc (image : Image) (leaders : List (BitVec 64)) (cov : Coverage) (range : FuncRange) :
    Except InitError Coverage :=
  addFuncFrom image leaders range (range.hipc.toNat - range.lopc.toNat) range.lopc range.lopc cov

def init (image : Image) : Except InitError Coverage := do
  let leaders ← image.functions.foldlM (initBasicBlocks image) []
  image.functions.foldlM (addFunc image leaders) ⟨[], ∅⟩

/-- An executed address and what is known about the operands there. -/
structure Executed where
  addr : BitVec 64
  flags : OperandFlags

/-- The executed instructions of all runs, one after the other. -/
def coverAll (image : Image) : List Executed → EStateM HostError Coverage Unit
  | [] => pure ()
  | e :: executed => do
    coverSources e.addr e.flags (image.getSources e.addr)
    coverAll image executed

/-! ## Report -/

structure LineReport where
  count : Nat
  lineNumber : Int
  unexecutedBlock : Bool
  functionName : String
  taintedOnce : Bool
  symbolicOnce : Bool
  initialConcretization : Bool

structure FunctionReport where
  blocks : Nat
  blocksExecuted : Nat
  demangledName : String
  endColumn : Int
  endLine : Int
  executionCount : Nat
  name : String
  startColumn : Int
  startLine : Int

/-- The blocks at the given positions. -/
def blocksAt (cov : Coverage) (positions : List Nat) : List BasicBlock :=
  positions.filterMap (cov.blocks[·]?)

end Coverage

open Coverage

def SourceLine.toJson (cov : Coverage) (sl : SourceLine) : LineReport where
  count := sl.execCount
  lineNumber := sl.definition.line
  unexecutedBlock := sl.execCount = 0 || (cov.blocksAt sl.blocks).any fun block ↦ !block.visited
  functionName := sl.funcName
  taintedOnce := sl.taintedOnce
  symbolicOnce := sl.symbolicOnce
  initialConcretization := sl.initialConc

def Function.toJson (cov : Coverage) (f : Function) : FunctionReport where
  blocks := f.blocks.length
  blocksExecuted := ((cov.blocksAt f.blocks).filter (·.visited)).length
  demangledName := f.name
  endColumn := f.definition.2.column
  endLine := f.definition.2.line
  executionCount := f.execCount
  name := f.name
  startColumn := f.definition.1.column
  startLine := f.definition.1.line

end CoverageVP.Iss
