import CoverageVP.Clover.StoreHistory
import CoverageVP.Iss.ElfLoader
import CoverageVP.Lib.Sequences

/-!
# The image of a program

The bytes of the segments are copied to memory, and the rest of a segment is set to zero. A segment has
to fit into memory, but its end is compared as a word that wraps around.
-/

namespace CoverageVP.Iss

open Lib Clover

/-- The assertions of the loader: a segment does not start before the memory, it fits, and it is not
longer in the file than in memory. -/
inductive ElfAssertion
  | overlaps | fits | sizes
  deriving DecidableEq, Repr

/-! ## Loading -/

/-- The memory, and the addresses that have been written. -/
structure Image where
  memory : ConcolicMemory
  written : List Nat

namespace Image

variable (im : Image)

/-- Bytes are stored one after another. -/
def storeBytes (bytes : Nat → BitVec 8) (dst n : Nat) : Image :=
  (List.range n).foldl (fun im i ↦
    { memory := im.memory.store (BitVec.ofNat 32 (dst + i)) (Solver.BVC none (.uint8 (bytes i))) 1
      written := im.written ++ [dst + i] }) im

def loadData (src : Nat → BitVec 8) (dst n : Nat) : Image := im.storeBytes src dst n

def loadZero (dst n : Nat) : Image := im.storeBytes (fun _ ↦ 0#8) dst n

end Image

namespace ElfFile

section Load

variable (elf : ElfFile) (size offset : BitVec 32) (useVaddr : Bool)

def address (p : Phdr) : BitVec 32 := if useVaddr then p.pVaddr else p.pPaddr

/-- A byte of a segment in the file. -/
def fileByte (p : Phdr) (i : Nat) : BitVec 8 := elf.data (p.pOffset.toNat + i)

def loadSection (im : Image) (p : Phdr) : Except ElfAssertion Image := do
  let addr := address useVaddr p
  require (offset ≤ addr) .overlaps
  require (addr + p.pMemsz < offset + size) .fits
  let idx := addr - offset
  let im := im.loadData (elf.fileByte p) idx.toNat p.pFilesz.toNat
  require (p.pFilesz ≤ p.pMemsz) .sizes
  let idx := idx + p.pFilesz
  return im.loadZero idx.toNat (p.pMemsz - p.pFilesz).toNat

def loadExecutableImage (m : ConcolicMemory) : Except ElfAssertion Image :=
  elf.getLoadSections.foldlM (elf.loadSection size offset useVaddr) ⟨m, []⟩

/-- The place of a segment in memory. -/
def start (p : Phdr) : Nat := (address useVaddr p).toNat - offset.toNat

/-- The byte of a segment at an address, if it is in the segment. -/
def sectionByte (p : Phdr) (a : Nat) : Option (BitVec 8) :=
  if start offset useVaddr p ≤ a ∧ a < start offset useVaddr p + p.pFilesz.toNat then
    some (elf.fileByte p (a - start offset useVaddr p))
  else if start offset useVaddr p ≤ a ∧ a < start offset useVaddr p + p.pMemsz.toNat then some 0#8
  else none

/-- The byte of the last segment that has one. -/
def overlay (a : Nat) : List Phdr → Option (BitVec 8)
  | [] => none
  | p :: ps => (overlay a ps).or (elf.sectionByte offset useVaddr p a)

/-- Memory holds the segments and is unchanged elsewhere. -/
def Holds (m m' : ConcolicMemory) (ps : List Phdr) : Prop :=
  ∀ a : BitVec 32, m'.byteAt a = match elf.overlay offset useVaddr a.toNat ps with
    | some byte => Solver.BVC none (.uint8 byte)
    | none => m.byteAt a

/-- The program is loaded into the memory. -/
structure Loaded (m : ConcolicMemory) (im : Image) : Prop where
  written : ∀ a ∈ im.written, a < size.toNat
  holds : elf.Holds offset useVaddr m im.memory elf.getLoadSections

/-- No segment ends behind the last address. -/
def NoWrap : Prop :=
  ∀ p ∈ elf.getLoadSections, (address useVaddr p).toNat + p.pMemsz.toNat < 2 ^ 32

end Load

end ElfFile

/-! ## Stored bytes -/

theorem extract_BVC (byte : BitVec 8) :
    (Solver.BVC none (.uint8 byte)).extract 0 8 = Solver.BVC none (.uint8 byte) := by
  have hself : (BV.mk 8 byte).extract 0 8 = ⟨8, byte⟩ := BV.extract_self ⟨8, byte⟩
  unfold Solver.BVC
  rw [IntValue.toBV_uint8]
  exact congrArg (ConcolicValue.mk · none false) hself

theorem byteAt_storeByte (m : ConcolicMemory) (addr a : BitVec 32) (byte : BitVec 8) :
    (m.store addr (Solver.BVC none (.uint8 byte)) 1).byteAt a =
      if a = addr then Solver.BVC none (.uint8 byte) else m.byteAt a := by
  have hwidth : ¬ (Solver.BVC none (.uint8 byte)).getWidth < 1 * 8 := by
    change ¬ (IntValue.uint8 byte).toBV.width < 1 * 8
    rw [IntValue.toBV_uint8]
    exact Nat.lt_irrefl 8
  have hiff := ConcolicMemory.eq_add_ofNat_iff a addr (n := 0) (by decide)
  rw [BitVec.add_zero] at hiff
  rw [ConcolicMemory.byteAt_store m addr a _ (by decide), if_neg hwidth]
  by_cases h : a = addr
  · have hzero := hiff.mp h
    rw [if_pos (by omega), if_pos h, hzero]
    exact extract_BVC byte
  · have hpos : (a - addr).toNat ≠ 0 := fun hzero ↦ h (hiff.mpr hzero)
    rw [if_neg (by omega), if_neg h]

namespace Image

variable (im : Image) (bytes : Nat → BitVec 8) (dst : Nat)

theorem storeBytes_succ (n : Nat) : im.storeBytes bytes dst (n + 1) =
    { memory := (im.storeBytes bytes dst n).memory.store (BitVec.ofNat 32 (dst + n))
        (Solver.BVC none (.uint8 (bytes n))) 1
      written := (im.storeBytes bytes dst n).written ++ [dst + n] } := by
  unfold storeBytes
  rw [List.range_succ, List.foldl_append]
  rfl

theorem written_storeBytes (n : Nat) :
    (im.storeBytes bytes dst n).written = im.written ++ (List.range n).map (dst + ·) := by
  induction n with
  | zero => exact (List.append_nil _).symm
  | succ n ih =>
    rw [storeBytes_succ]
    dsimp only
    rw [ih, List.range_succ, List.map_append, List.append_assoc]
    rfl

theorem byteAt_storeBytes {n : Nat} (hn : dst + n ≤ 2 ^ 32) (a : BitVec 32) :
    (im.storeBytes bytes dst n).memory.byteAt a =
      if dst ≤ a.toNat ∧ a.toNat < dst + n then Solver.BVC none (.uint8 (bytes (a.toNat - dst)))
      else im.memory.byteAt a := by
  induction n with
  | zero =>
    rw [if_neg (by omega)]
    rfl
  | succ n ih =>
    have haddr : a = BitVec.ofNat 32 (dst + n) ↔ a.toNat = dst + n := by
      rw [← BitVec.toNat_inj, BitVec.toNat_ofNat, Nat.mod_eq_of_lt (by omega)]
    rw [storeBytes_succ]
    dsimp only
    rw [byteAt_storeByte, ih (by omega)]
    by_cases h : a.toNat = dst + n
    · rw [if_pos (haddr.mpr h), if_pos (by omega), h, Nat.add_sub_cancel_left]
    · rw [if_neg (mt haddr.mp h)]
      by_cases hin : dst ≤ a.toNat ∧ a.toNat < dst + n
      · rw [if_pos hin, if_pos (by omega)]
      · rw [if_neg hin, if_neg (by omega)]

end Image

namespace ElfFile

variable {elf : ElfFile} {size offset : BitVec 32} {useVaddr : Bool} {im im' : Image} {p : Phdr}

/-- The assertions on a segment. -/
structure Passes (size offset : BitVec 32) (useVaddr : Bool) (p : Phdr) : Prop where
  overlaps : offset ≤ address useVaddr p
  fits : address useVaddr p + p.pMemsz < offset + size
  sizes : p.pFilesz ≤ p.pMemsz

/-- The addresses that are written for a segment: those of the bytes of the file and those of the
zeros. -/
def sectionWrites (offset : BitVec 32) (useVaddr : Bool) (p : Phdr) : List Nat :=
  (List.range p.pFilesz.toNat).map ((address useVaddr p - offset).toNat + ·) ++
    (List.range (p.pMemsz - p.pFilesz).toNat).map ((address useVaddr p - offset + p.pFilesz).toNat + ·)

theorem loadSection_eq_ok (h : elf.loadSection size offset useVaddr im p = .ok im') :
    Passes size offset useVaddr p ∧
      im' = (im.loadData (elf.fileByte p) (address useVaddr p - offset).toNat
        p.pFilesz.toNat).loadZero (address useVaddr p - offset + p.pFilesz).toNat
          (p.pMemsz - p.pFilesz).toNat := by
  unfold loadSection at h
  obtain ⟨hoverlaps, h⟩ := require_bind_eq_ok.mp h
  obtain ⟨hfits, h⟩ := require_bind_eq_ok.mp h
  obtain ⟨hsizes, h⟩ := require_bind_eq_ok.mp h
  cases h
  exact ⟨⟨hoverlaps, hfits, hsizes⟩, rfl⟩

theorem written_loadSection (h : elf.loadSection size offset useVaddr im p = .ok im') :
    im'.written = im.written ++ sectionWrites offset useVaddr p := by
  obtain ⟨-, rfl⟩ := loadSection_eq_ok h
  unfold Image.loadZero Image.loadData sectionWrites
  rw [Image.written_storeBytes, Image.written_storeBytes, List.append_assoc]

/-- The numbers of a segment that passes. -/
theorem Passes.toNat (hp : Passes size offset useVaddr p) :
    offset.toNat ≤ (address useVaddr p).toNat ∧
      ((address useVaddr p).toNat + p.pMemsz.toNat) % 2 ^ 32 <
        (offset.toNat + size.toNat) % 2 ^ 32 ∧
      p.pFilesz.toNat ≤ p.pMemsz.toNat ∧
      (address useVaddr p - offset).toNat = start offset useVaddr p ∧
      (p.pMemsz - p.pFilesz).toNat = p.pMemsz.toNat - p.pFilesz.toNat := by
  have hfits := BitVec.lt_def.mp hp.fits
  rw [BitVec.toNat_add, BitVec.toNat_add] at hfits
  exact ⟨BitVec.le_def.mp hp.overlaps, hfits, BitVec.le_def.mp hp.sizes,
    BitVec.toNat_sub_of_le hp.overlaps, BitVec.toNat_sub_of_le hp.sizes⟩

/-- A segment that passes is written within memory if and only if its end does not wrap around. -/
theorem sectionWrites_lt_iff (hsize : offset.toNat + size.toNat ≤ 2 ^ 32)
    (hp : Passes size offset useVaddr p) :
    (∀ a ∈ sectionWrites offset useVaddr p, a < size.toNat) ↔
      (address useVaddr p).toNat + p.pMemsz.toNat < 2 ^ 32 := by
  obtain ⟨hoffset, hfits, hsizes, hstart, hzeros⟩ := hp.toNat
  have haddress := (address useVaddr p).isLt
  have hmem : ∀ a, a ∈ sectionWrites offset useVaddr p ↔
      (∃ i < p.pFilesz.toNat, start offset useVaddr p + i = a) ∨
      ∃ i < p.pMemsz.toNat - p.pFilesz.toNat,
        (start offset useVaddr p + p.pFilesz.toNat) % 2 ^ 32 + i = a := by
    intro a
    unfold sectionWrites
    rw [BitVec.toNat_add, hstart, hzeros]
    simp only [List.mem_append, List.mem_map, List.mem_range]
  simp only [hmem]
  unfold start
  constructor
  · intro h
    by_contra hwrap
    by_cases hfile : p.pFilesz.toNat = p.pMemsz.toNat
    · have hlast := h _ (.inl ⟨p.pFilesz.toNat - 1, by omega, rfl⟩)
      omega
    · by_cases hzero : (address useVaddr p).toNat - offset.toNat + p.pFilesz.toNat < 2 ^ 32
      · have hlast := h _ (.inr ⟨p.pMemsz.toNat - p.pFilesz.toNat - 1, by omega, rfl⟩)
        omega
      · have hlast := h _ (.inl ⟨p.pFilesz.toNat - 1, by omega, rfl⟩)
        omega
  · rintro hlt a (⟨i, hi, rfl⟩ | ⟨i, hi, rfl⟩)
    · omega
    · omega

/-! ## Contents -/

/-- A segment that does not wrap around is in memory after it has been loaded. -/
theorem holds_loadSection (h : elf.loadSection size offset useVaddr im p = .ok im')
    (hwrap : (address useVaddr p).toNat + p.pMemsz.toNat < 2 ^ 32) :
    elf.Holds offset useVaddr im.memory im'.memory [p] := by
  obtain ⟨hp, rfl⟩ := loadSection_eq_ok h
  obtain ⟨hoffset, -, hsizes, hstart, hzeros⟩ := hp.toNat
  have hend : start offset useVaddr p + p.pMemsz.toNat < 2 ^ 32 := by
    unfold start
    omega
  have hmiddle : (address useVaddr p - offset + p.pFilesz).toNat =
      start offset useVaddr p + p.pFilesz.toNat := by
    rw [BitVec.toNat_add, hstart, Nat.mod_eq_of_lt (by omega)]
  intro a
  unfold Image.loadZero Image.loadData
  rw [hmiddle, hstart, hzeros, Image.byteAt_storeBytes _ _ _ (by omega),
    Image.byteAt_storeBytes _ _ _ (by omega)]
  change _ = match Option.or none (elf.sectionByte offset useVaddr p a.toNat) with
    | some byte => Solver.BVC none (.uint8 byte)
    | none => im.memory.byteAt a
  rw [Option.none_or]
  unfold sectionByte
  by_cases hfile : start offset useVaddr p ≤ a.toNat ∧
      a.toNat < start offset useVaddr p + p.pFilesz.toNat
  · rw [if_neg (by omega), if_pos hfile, if_pos hfile]
  · rw [if_neg hfile, if_neg hfile]
    by_cases hzero : start offset useVaddr p ≤ a.toNat ∧
        a.toNat < start offset useVaddr p + p.pMemsz.toNat
    · rw [if_pos (by omega), if_pos hzero]
    · rw [if_neg (by omega), if_neg hzero]

/-- Segments that are loaded later are over those before. -/
theorem holds_cons {m m₁ m' : ConcolicMemory} {ps : List Phdr}
    (hfirst : elf.Holds offset useVaddr m m₁ [p]) (hrest : elf.Holds offset useVaddr m₁ m' ps) :
    elf.Holds offset useVaddr m m' (p :: ps) := by
  intro a
  have hbyte := hfirst a
  rw [overlay, overlay, Option.none_or] at hbyte
  rw [hrest a, overlay]
  cases elf.overlay offset useVaddr a.toNat ps with
  | some byte => rfl
  | none =>
    rw [Option.none_or]
    exact hbyte

theorem passes_of_load {ps : List Phdr}
    (h : ps.foldlM (elf.loadSection size offset useVaddr) im = .ok im') :
    im'.written = im.written ++ ps.flatMap (sectionWrites offset useVaddr) ∧
      ∀ p ∈ ps, Passes size offset useVaddr p := by
  induction ps generalizing im with
  | nil =>
    cases h
    exact ⟨(List.append_nil _).symm, fun p hp ↦ absurd hp List.not_mem_nil⟩
  | cons p ps ih =>
    rw [List.foldlM_cons] at h
    obtain ⟨im₁, hfirst, h⟩ := bind_eq_ok.mp h
    obtain ⟨hwritten, hpasses⟩ := ih h
    refine ⟨?_, fun q hq ↦ ?_⟩
    · rw [hwritten, written_loadSection hfirst, List.flatMap_cons, List.append_assoc]
    · rcases List.mem_cons.mp hq with rfl | hq
      · exact (loadSection_eq_ok hfirst).1
      · exact hpasses q hq

theorem holds_of_load {ps : List Phdr}
    (hwrap : ∀ p ∈ ps, (address useVaddr p).toNat + p.pMemsz.toNat < 2 ^ 32)
    (h : ps.foldlM (elf.loadSection size offset useVaddr) im = .ok im') :
    elf.Holds offset useVaddr im.memory im'.memory ps := by
  induction ps generalizing im with
  | nil =>
    cases h
    exact fun a ↦ rfl
  | cons p ps ih =>
    rw [List.foldlM_cons] at h
    obtain ⟨im₁, hfirst, h⟩ := bind_eq_ok.mp h
    exact holds_cons (holds_loadSection hfirst (hwrap p List.mem_cons_self))
      (ih (fun q hq ↦ hwrap q (List.mem_cons_of_mem _ hq)) h)

section Program

variable {m : ConcolicMemory} (hsize : offset.toNat + size.toNat ≤ 2 ^ 32)
  (h : elf.loadExecutableImage size offset useVaddr m = .ok im)

include hsize h

/-- The addresses that are written are those of the segments. -/
theorem written_lt_iff_noWrap : (∀ a ∈ im.written, a < size.toNat) ↔ elf.NoWrap useVaddr := by
  obtain ⟨hwritten, hpasses⟩ := passes_of_load h
  have hmem : ∀ a, a ∈ im.written ↔
      ∃ p ∈ elf.getLoadSections, a ∈ sectionWrites offset useVaddr p := by
    intro a
    rw [hwritten, List.nil_append, List.mem_flatMap]
  constructor
  · intro hlt p hp
    refine (sectionWrites_lt_iff hsize (hpasses p hp)).mp fun a ha ↦ ?_
    exact hlt a ((hmem a).mpr ⟨p, hp, ha⟩)
  · intro hwrap a ha
    obtain ⟨p, hp, ha⟩ := (hmem a).mp ha
    exact (sectionWrites_lt_iff hsize (hpasses p hp)).mpr (hwrap p hp) a ha

/-- A program whose segments pass is written within memory, and memory holds its segments, if and only if
no segment ends behind the last address. -/
theorem loaded_iff_noWrap : elf.Loaded size offset useVaddr m im ↔ elf.NoWrap useVaddr := by
  constructor
  · intro hloaded
    exact (written_lt_iff_noWrap hsize h).mp hloaded.written
  · intro hwrap
    exact ⟨(written_lt_iff_noWrap hsize h).mpr hwrap, holds_of_load hwrap h⟩

end Program

/-- A program of one segment. -/
def segment (pFilesz pMemsz : BitVec 32) : ElfFile where
  data := fun _ ↦ 0xFF#8
  phdrs := [⟨PT_LOAD, 0x1000#32, 0x80000000#32, 0x80000000#32, pFilesz, pMemsz⟩]
  before := ⟨0#32, 0#32, 0#32, 0#32, 0#32, 0#32⟩

/-- The image of a segment in an empty memory of a page. -/
def segmentImage (pFilesz pMemsz : BitVec 32) : Except ElfAssertion Image :=
  (segment pFilesz pMemsz).loadExecutableImage 0x1000#32 0x80000000#32 true ConcolicMemory.empty

/-- A segment of two bytes and two zeros is loaded. -/
theorem loaded_small : ∃ im, segmentImage 2#32 4#32 = .ok im ∧
    (segment 2#32 4#32).Loaded 0x1000#32 0x80000000#32 true ConcolicMemory.empty im := by
  have hload := eq_ok_of_isOk (m := segmentImage 2#32 4#32) (by decide) ⟨ConcolicMemory.empty, []⟩
  exact ⟨_, hload, (loaded_iff_noWrap (by decide) hload).mpr (by unfold NoWrap; decide)⟩

/-- A segment that is much longer than the memory passes. -/
theorem not_loaded_long : ∃ im, segmentImage 0#32 0x90000000#32 = .ok im ∧
    ¬ (segment 0#32 0x90000000#32).Loaded 0x1000#32 0x80000000#32 true ConcolicMemory.empty im := by
  have hload := eq_ok_of_isOk (m := segmentImage 0#32 0x90000000#32) (by decide)
    ⟨ConcolicMemory.empty, []⟩
  refine ⟨_, hload, fun hloaded ↦ ?_⟩
  have hwrap := (written_lt_iff_noWrap (by decide) hload).mp hloaded.written
  exact absurd hwrap (by unfold NoWrap; decide)

end ElfFile

end CoverageVP.Iss
