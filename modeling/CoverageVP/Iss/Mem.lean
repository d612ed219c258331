import CoverageVP.Iss.State

/-!
# Memory accesses

Accesses are translated by the MMU and then carried out as transactions of the bus. Data accesses
exchange concolic values with the memory; instruction fetches and page table entries are read and
written as bytes, which drops symbolic parts. A transaction beyond the end of the memory is answered
with an error, which raises a trap.
-/

namespace CoverageVP.Iss

open Clover

/-! ## Transactions -/

/-- The answer of the memory to a read; there is no value of length zero. -/
def transportRead (addr : BitVec 64) (numBytes : Nat) : IssM ConcolicValue := do
  let s ← get
  raiseTrapIf (s.memSize < addr.toNat + numBytes) .LOAD_PAGE_FAULT addr
  match s.mem.load (addr.setWidth 32) numBytes with
  | some data => return data
  | none => hostError .nullPointer

def transportWrite (addr : BitVec 64) (data : ConcolicValue) (numBytes : Nat) : IssM Unit := do
  let s ← get
  raiseTrapIf (s.memSize < addr.toNat + numBytes) .STORE_AMO_PAGE_FAULT addr
  modify fun s ↦ { s with mem := s.mem.store (addr.setWidth 32) data numBytes }

/-- The integer that a buffer holds, least significant byte first. -/
def bytesToNat : List (BitVec 8) → Nat
  | [] => 0
  | b :: bytes => b.toNat + 256 * bytesToNat bytes

/-- Only the bytes of the answer are used. -/
def concreteLoadData (addr : BitVec 64) (numBytes : Nat) : IssM Nat := do
  let data ← transportRead addr numBytes
  return bytesToNat (Solver.BVCToBytes data numBytes)

def concreteStoreData (addr : BitVec 64) (value : BitVec 32) : IssM Unit :=
  match Solver.BVCOfBytes ((List.range 4).map fun i ↦ value.extractLsb' (8 * i) 8) with
  | some data => transportWrite addr data 4
  | none => hostError .nullPointer

/-! ## Address translation -/

def PGSHIFT : Nat := 12
def PTE_PPN_SHIFT : Nat := 10
def TLB_ENTRIES : Nat := 256

/-- The bits of a page table entry. -/
structure Pte where
  value : BitVec 64

namespace Pte

variable (pte : Pte)

def V : Bool := pte.value.getLsbD 0
def R : Bool := pte.value.getLsbD 1
def W : Bool := pte.value.getLsbD 2
def X : Bool := pte.value.getLsbD 3
def U : Bool := pte.value.getLsbD 4
def ppn : BitVec 64 := pte.value >>> PTE_PPN_SHIFT

end Pte

def PTE_A : BitVec 64 := 0x40#64
def PTE_D : BitVec 64 := 0x80#64

def mmuLoadPte32 (addr : BitVec 64) : IssM Pte := do
  let value ← concreteLoadData addr 4
  return ⟨BitVec.ofNat 64 value⟩

structure VmInfo where
  levels : Nat
  idxbits : Nat
  ptesize : Nat
  ptbase : BitVec 64

/-- The mode field has one bit on this architecture, so the wider modes do not occur. -/
def decodeVmInfo (prv : Nat) : IssM VmInfo := do
  ensure .walkMode (prv ≤ SupervisorMode)
  let s ← get
  if s.csrs.satpMode = 1#1 then return ⟨2, 10, 4, s.csrs.satpPpn.setWidth 64 <<< PGSHIFT⟩
  else hostError (.runtimeError "unknown Sv (satp) mode 0")

/-- The bits above the translated part of the address must all be equal. -/
def checkVaddrExtension (vaddr : BitVec 64) (vm : VmInfo) : Bool :=
  let highbit := vm.idxbits * vm.levels + PGSHIFT - 1
  let extMask : BitVec 64 := (1#64 <<< (32 - highbit)) - 1#64
  let bits := (vaddr >>> highbit) &&& extMask
  bits = 0#64 || bits = extMask

/-- The rights that a leaf entry lacks for an access. -/
def leafFault (pte : Pte) (type : MemoryAccessType) (sMode sum mxr : Bool) : Bool :=
  (type = .FETCH && !pte.X) ||
    (type = .LOAD && !pte.R && !(mxr && pte.X)) ||
    (type = .STORE && !(pte.R && pte.W)) ||
    (if pte.U then sMode && (type = .FETCH || !sum) else !sMode)

/-- The accessed bit, and for stores the dirty bit. -/
def adBits (type : MemoryAccessType) : BitVec 64 :=
  if type = .STORE then PTE_A ||| PTE_D else PTE_A

/-- The address of the entry for the given level. -/
def ptePaddr (vm : VmInfo) (vaddr base : BitVec 64) (level : Nat) : BitVec 64 :=
  base + ((vaddr >>> (PGSHIFT + level * vm.idxbits)) &&& ((1#64 <<< vm.idxbits) - 1#64)) *
    BitVec.ofNat 64 vm.ptesize

/-- The address that a leaf entry translates to. -/
def leafAddress (pte : Pte) (vaddr : BitVec 64) (ptshift : Nat) : BitVec 64 :=
  let mask := (1#64 <<< ptshift) - 1#64
  (((pte.ppn &&& ~~~mask) ||| ((vaddr >>> PGSHIFT) &&& mask)) <<< PGSHIFT) |||
    (vaddr &&& 0xfff#64)

/-- A leaf entry that allows the access is marked, unless marking is left to software. -/
def markLeaf (paddr : BitVec 64) (pte : Pte) (type : MemoryAccessType) (pageFaultOnAD : Bool) :
    IssM Bool :=
  if pte.value &&& adBits type = adBits type then pure true
  else if pageFaultOnAD then pure false
  else do
    concreteStoreData paddr ((pte.value ||| adBits type).setWidth 32)
    return true

/-- The levels of the page table below the given one; `none` is a page fault. -/
def walkLevels (vm : VmInfo) (vaddr : BitVec 64) (type : MemoryAccessType)
    (sMode sum mxr pageFaultOnAD : Bool) : Nat → BitVec 64 → IssM (Option (BitVec 64))
  | 0, _ => pure none
  | level + 1, base => do
    let pte ← mmuLoadPte32 (ptePaddr vm vaddr base level)
    if !pte.V || (!pte.R && pte.W) then pure none
    else if !pte.R && !pte.X then
      walkLevels vm vaddr type sMode sum mxr pageFaultOnAD level (pte.ppn <<< PGSHIFT)
    else if leafFault pte type sMode sum mxr then pure none
    else if pte.ppn &&& ((1#64 <<< (level * vm.idxbits)) - 1#64) ≠ 0#64 then pure none
    else do
      let marked ← markLeaf (ptePaddr vm vaddr base level) pte type pageFaultOnAD
      if marked then return some (leafAddress pte vaddr (level * vm.idxbits)) else return none

def pageFault : MemoryAccessType → ExceptionCode
  | .FETCH => .INSTR_PAGE_FAULT
  | .LOAD => .LOAD_PAGE_FAULT
  | .STORE => .STORE_AMO_PAGE_FAULT

def walk (pageFaultOnAD : Bool) (vaddr : BitVec 64) (type : MemoryAccessType) (mode : Nat) :
    IssM (BitVec 64) := do
  let s ← get
  let vm ← decodeVmInfo mode
  let levels := if checkVaddrExtension vaddr vm then vm.levels else 0
  let paddr ← walkLevels vm vaddr type (mode = SupervisorMode) (s.csrs.mstatusSum = 1#1)
    (s.csrs.mstatusMxr = 1#1) pageFaultOnAD levels vm.ptbase
  match paddr with
  | some paddr => return paddr
  | none => raiseTrap (pageFault type) vaddr

/-- The mode an access is made in. -/
def State.accessMode (s : State) (type : MemoryAccessType) : Nat :=
  if type ≠ .FETCH ∧ s.csrs.mstatusMprv = 1#1 then s.csrs.mstatusMpp.toNat else s.prv

def Mmu.setTlb (mmu : Mmu) (mode : Nat) (type : MemoryAccessType) (idx : Nat) (entry : TlbEntry) :
    Mmu :=
  { mmu with tlb := fun mode' type' idx' ↦
      if mode' = mode ∧ type' = type ∧ idx' = idx then entry else mmu.tlb mode' type' idx' }

/-- The page number that is cached is cut to 32 bits by the mask. -/
def translateVirtualToPhysicalAddr (mmu : Mmu) (vaddr : BitVec 64) (type : MemoryAccessType) :
    IssM (BitVec 64) := do
  let s ← get
  if s.csrs.satpMode = 0#1 then return vaddr
  else if s.accessMode type = MachineMode then return vaddr
  else do
    let mode := s.accessMode type
    ensure .translationMode (mode = 0 ∨ mode = 1)
    let vpn := vaddr >>> PGSHIFT
    let idx := vpn.toNat % TLB_ENTRIES
    if (mmu.tlb mode type idx).vpn = vpn then
      return (mmu.tlb mode type idx).ppn ||| (vaddr &&& 0xfff#64)
    else do
      let paddr ← walk mmu.pageFaultOnAD vaddr type mode
      modify fun s ↦
        { s with mmu := some (mmu.setTlb mode type idx ⟨paddr &&& 0xfffff000#64, vpn⟩) }
      return paddr

def v2p (vaddr : BitVec 64) (type : MemoryAccessType) : IssM (BitVec 64) := do
  let s ← get
  match s.mmu with
  | none => return vaddr
  | some mmu => translateVirtualToPhysicalAddr mmu vaddr type

/-! ## The interface of the core -/

/-- Loads are translated as stores, too. -/
def symbolicLoadData (addr : ConcolicValue) (numBytes : Nat) : IssM ConcolicValue := do
  let paddr ← v2p ((getValue addr).setWidth 64) .STORE
  transportRead paddr numBytes

/-- Data of length zero is a null pointer. -/
def symbolicStoreData (addr : ConcolicValue) (data : Option ConcolicValue) (numBytes : Nat) :
    IssM Unit := do
  let paddr ← v2p ((getValue addr).setWidth 64) .STORE
  match data with
  | some data => transportWrite paddr data numBytes
  | none => hostError .nullPointer

def loadInstr (addr : BitVec 32) : IssM (BitVec 32) := do
  let paddr ← v2p (addr.setWidth 64) .FETCH
  let word ← concreteLoadData paddr 4
  return BitVec.ofNat 32 word

/-- A load that extends the sign. -/
def loadSigned (addr : ConcolicValue) (numBytes : Nat) : IssM ConcolicValue := do
  let data ← symbolicLoadData addr numBytes
  return data.sext 32

/-- A load that extends with zeros. -/
def loadUnsigned (addr : ConcolicValue) (numBytes : Nat) : IssM ConcolicValue := do
  let data ← symbolicLoadData addr numBytes
  return if data.getWidth < 32 then data.zext 32 else data

def loadWord (addr : ConcolicValue) : IssM ConcolicValue := loadSigned addr 4
def loadHalf (addr : ConcolicValue) : IssM ConcolicValue := loadSigned addr 2
def loadByte (addr : ConcolicValue) : IssM ConcolicValue := loadSigned addr 1
def loadUhalf (addr : ConcolicValue) : IssM ConcolicValue := loadUnsigned addr 2
def loadUbyte (addr : ConcolicValue) : IssM ConcolicValue := loadUnsigned addr 1

def storeWord (addr value : ConcolicValue) : IssM Unit := symbolicStoreData addr (some value) 4
def storeHalf (addr value : ConcolicValue) : IssM Unit := symbolicStoreData addr (some value) 2
def storeByte (addr value : ConcolicValue) : IssM Unit := symbolicStoreData addr (some value) 1

end CoverageVP.Iss
