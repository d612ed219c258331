import CoverageVP.Clover.Concolic
import CoverageVP.Lib.Checks
import Mathlib.Order.Bounds.Defs

/-!
# The loader of programs

A program is a file with a table of headers. The headers of segments that are to be loaded say where the
bytes of a segment are in the file and in memory. The heap starts behind the program.
-/

namespace CoverageVP.Iss

open Lib Clover

/-! ## Headers -/

/-- A header of the table, as far as it is used. -/
structure Phdr where
  pType : BitVec 32
  pOffset : BitVec 32
  pVaddr : BitVec 32
  pPaddr : BitVec 32
  pFilesz : BitVec 32
  pMemsz : BitVec 32
  deriving DecidableEq, Repr

def PT_LOAD : BitVec 32 := 1#32

/-- The bytes of the file, its headers, and what is read as the header before the first one. -/
structure ElfFile where
  data : Nat → BitVec 8
  phdrs : List Phdr
  before : Phdr

namespace ElfFile

variable (elf : ElfFile)

/-- The segments to be loaded. -/
def getLoadSections : List Phdr :=
  elf.phdrs.filter fun p ↦ p.pType = PT_LOAD ∧ ¬ (p.pFilesz = 0#32 ∧ p.pMemsz = 0#32)

/-! ## The heap -/

/-- The last header of the table, of whatever type. -/
def last : Phdr := elf.phdrs.getLast?.getD elf.before

def getMemoryEnd : BitVec 32 := elf.last.pVaddr + elf.last.pMemsz

def getHeapAddr : BitVec 32 := elf.getMemoryEnd + elf.getMemoryEnd % 8#32

/-- A multiple of eight that is behind every segment. -/
def BehindSegments (addr : Nat) : Prop :=
  8 ∣ addr ∧ ∀ p ∈ elf.getLoadSections, p.pVaddr.toNat + p.pMemsz.toNat ≤ addr

/-- The end of the segment that ends last. -/
def segmentsEnd : Nat :=
  (elf.getLoadSections.map fun p ↦ p.pVaddr.toNat + p.pMemsz.toNat).foldr max 0

end ElfFile

/-- The next multiple of eight. -/
def roundUp (n : Nat) : Nat := (n + 7) / 8 * 8

theorem foldr_max_le_iff {l : List Nat} {b : Nat} : l.foldr max 0 ≤ b ↔ ∀ x ∈ l, x ≤ b := by
  induction l with
  | nil => simp
  | cons x l ih => simp [ih]

theorem roundUp_le_iff {n addr : Nat} (h : 8 ∣ addr) : roundUp n ≤ addr ↔ n ≤ addr := by
  obtain ⟨k, rfl⟩ := h
  unfold roundUp
  omega

namespace ElfFile

variable (elf : ElfFile)

theorem behindSegments_iff {addr : Nat} :
    elf.BehindSegments addr ↔ 8 ∣ addr ∧ roundUp elf.segmentsEnd ≤ addr := by
  unfold BehindSegments
  refine and_congr_right fun h ↦ ?_
  rw [roundUp_le_iff h, segmentsEnd, foldr_max_le_iff, List.forall_mem_map]

/-- The least multiple of eight behind the segments is the end of the last one, rounded up. -/
theorem isLeast_iff {addr : Nat} :
    IsLeast { a | elf.BehindSegments a } addr ↔ addr = roundUp elf.segmentsEnd := by
  have hself : elf.BehindSegments (roundUp elf.segmentsEnd) :=
    elf.behindSegments_iff.mpr ⟨Nat.dvd_mul_left 8 _, le_rfl⟩
  constructor
  · rintro ⟨hmem, hleast⟩
    exact le_antisymm (hleast hself) (elf.behindSegments_iff.mp hmem).2
  · rintro rfl
    exact ⟨hself, fun a ha ↦ (elf.behindSegments_iff.mp ha).2⟩

/-- The end of the last header. -/
def lastEnd : Nat := elf.last.pVaddr.toNat + elf.last.pMemsz.toNat

theorem toNat_getHeapAddr : elf.getHeapAddr.toNat =
    (elf.lastEnd % 2 ^ 32 + elf.lastEnd % 2 ^ 32 % 8) % 2 ^ 32 := by
  rw [getHeapAddr, BitVec.toNat_add, BitVec.toNat_umod, getMemoryEnd, BitVec.toNat_add]
  rfl

/-- The last header ends at a multiple of four, and in the same eight bytes as the segments. -/
def EndsWithLast : Prop :=
  elf.lastEnd % 4 = 0 ∧ roundUp elf.segmentsEnd = roundUp elf.lastEnd % 2 ^ 32

/-- The heap starts at the least multiple of eight behind every segment if and only if the last header
ends there. -/
theorem heapAddr_isLeast_iff (elf : ElfFile) :
    IsLeast { a | elf.BehindSegments a } elf.getHeapAddr.toNat ↔ elf.EndsWithLast := by
  rw [isLeast_iff, toNat_getHeapAddr]
  unfold EndsWithLast roundUp
  omega

/-- A program of one segment whose end is one more than a multiple of eight. -/
def oneSegment : ElfFile where
  data := fun _ ↦ 0#8
  phdrs := [⟨PT_LOAD, 0#32, 0x1000#32, 0x1000#32, 9#32, 9#32⟩]
  before := ⟨0#32, 0#32, 0#32, 0#32, 0#32, 0#32⟩

/-- A program whose last header is not loaded. -/
def noteLast : ElfFile where
  data := fun _ ↦ 0#8
  phdrs := [⟨PT_LOAD, 0#32, 0x1000#32, 0x1000#32, 0x100#32, 0x100#32⟩,
    ⟨4#32, 0x100#32, 0#32, 0#32, 0x20#32, 0#32⟩]
  before := ⟨0#32, 0#32, 0#32, 0#32, 0#32, 0#32⟩

/-- The heap starts at an address that is not aligned, or before the program. -/
theorem not_isLeast : ¬ IsLeast { a | oneSegment.BehindSegments a } oneSegment.getHeapAddr.toNat ∧
    ¬ IsLeast { a | noteLast.BehindSegments a } noteLast.getHeapAddr.toNat := by
  constructor
  · rw [isLeast_iff]
    decide
  · rw [isLeast_iff]
    decide

end ElfFile

end CoverageVP.Iss
