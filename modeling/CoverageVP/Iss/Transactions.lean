import CoverageVP.Iss.Translation

/-!
# Transactions of the bus

A transaction carries a buffer of bytes, and next to it may carry a concolic value. The memory
answers a read with both; the core uses the value for loads and the buffer for fetches and page table
entries, and the debugger uses the buffer. A write stores the value if there is one, and else the
buffer as a constant. Both paths read and write one memory of bytes.
-/

namespace CoverageVP.Iss

open Lib Clover

/-! ## The memory as a target -/

/-- A generic payload. The length of the buffer is the length of the data. -/
structure Payload where
  isWrite : Bool
  address : BitVec 64
  data : List (BitVec 8)
  extension : Option ConcolicValue
  responseError : Bool

/-- The value of the extension, or a constant made of the buffer. -/
def Payload.value (trans : Payload) : Option ConcolicValue :=
  match trans.extension with
  | some value => some value
  | none => Solver.BVCOfBytes trans.data

structure SymbolicMemory where
  memory : ConcolicMemory
  size : Nat

namespace SymbolicMemory

/-- There is no value of length zero. -/
def readData (m : SymbolicMemory) (trans : Payload) : Option Payload :=
  match m.memory.load (trans.address.setWidth 32) trans.data.length with
  | some data =>
    some { trans with
      data := Solver.BVCToBytes data trans.data.length
      extension := some data }
  | none => none

def writeData (m : SymbolicMemory) (trans : Payload) : Option SymbolicMemory :=
  match trans.value with
  | some value =>
    some { m with
      memory := m.memory.store (trans.address.setWidth 32) value trans.data.length }
  | none => none

/-- The end of the range is computed with 64 bits. -/
def transportDbg (m : SymbolicMemory) (trans : Payload) : Option (SymbolicMemory × Payload) :=
  if m.size < (trans.address + BitVec.ofNat 64 trans.data.length).toNat then
    some (m, { trans with responseError := true })
  else if trans.isWrite then (m.writeData trans).map fun m ↦ (m, trans)
  else (m.readData trans).map fun trans ↦ (m, trans)

end SymbolicMemory

/-- The accesses of the core and of the debugger, at physical addresses. -/
inductive Access
  | symbolicStoreData (addr : BitVec 64) (data : ConcolicValue) (numBytes : Nat)
  | symbolicLoadData (addr : BitVec 64) (numBytes : Nat)
  | concreteStoreData (addr : BitVec 64) (value : List (BitVec 8))
  | concreteLoadData (addr : BitVec 64) (numBytes : Nat)
  | debugRead (addr : BitVec 64) (numBytes : Nat)
  | debugWrite (addr : BitVec 64) (data : List (BitVec 8))

/-- What an access returns; a null pointer ends the simulation. -/
inductive Answer
  | done
  | value (data : ConcolicValue)
  | bytes (data : List (BitVec 8))
  | error
  | nullPointer
  deriving DecidableEq

def readPayload (addr : BitVec 64) (numBytes : Nat) : Payload :=
  ⟨false, addr, List.replicate numBytes 0#8, none, false⟩

def writePayload (addr : BitVec 64) (data : List (BitVec 8)) (extension : Option ConcolicValue) :
    Payload :=
  ⟨true, addr, data, extension, false⟩

/-- The value of the extension is preferred to the buffer. -/
def valueAnswer (trans : Payload) : Answer :=
  match trans.value with
  | some data => .value data
  | none => .nullPointer

namespace SymbolicMemory

def doTransaction (m : SymbolicMemory) (trans : Payload) (answer : Payload → Answer) :
    SymbolicMemory × Answer :=
  match m.transportDbg trans with
  | some (m, trans) => (m, if trans.responseError then .error else answer trans)
  | none => (m, .nullPointer)

def access (m : SymbolicMemory) : Access → SymbolicMemory × Answer
  | .symbolicStoreData addr data numBytes =>
    m.doTransaction (writePayload addr (Solver.BVCToBytes data numBytes) (some data)) fun _ ↦ .done
  | .symbolicLoadData addr numBytes => m.doTransaction (readPayload addr numBytes) valueAnswer
  | .concreteStoreData addr value | .debugWrite addr value =>
    m.doTransaction (writePayload addr value none) fun _ ↦ .done
  | .concreteLoadData addr numBytes | .debugRead addr numBytes =>
    m.doTransaction (readPayload addr numBytes) fun trans ↦ .bytes trans.data

/-- The memory after a sequence of accesses. -/
def accesses (m : SymbolicMemory) (history : List Access) : SymbolicMemory :=
  history.foldl (fun m access ↦ (m.access access).1) m

/-- An access of the length is answered. -/
def InRange (m : SymbolicMemory) (addr : BitVec 64) (numBytes : Nat) : Prop :=
  (addr + BitVec.ofNat 64 numBytes).toNat ≤ m.size

instance (m : SymbolicMemory) (addr : BitVec 64) (numBytes : Nat) :
    Decidable (m.InRange addr numBytes) :=
  inferInstanceAs (Decidable (_ ≤ _))

theorem doTransaction_of_not_inRange {m : SymbolicMemory} {trans : Payload}
    (h : ¬ m.InRange trans.address trans.data.length) (answer : Payload → Answer) :
    m.doTransaction trans answer = (m, .error) := by
  rw [doTransaction, transportDbg, if_pos (Nat.not_le.mp h)]
  rfl

theorem doTransaction_read {m : SymbolicMemory} {addr : BitVec 64} {n : Nat} {data : ConcolicValue}
    (h : m.InRange addr n) (hload : m.memory.load (addr.setWidth 32) n = some data)
    (answer : Payload → Answer) :
    m.doTransaction (readPayload addr n) answer =
      (m, answer ⟨false, addr, Solver.BVCToBytes data n, some data, false⟩) := by
  have hlength : (readPayload addr n).data.length = n := List.length_replicate
  have hnot : ¬ m.size < ((readPayload addr n).address +
      BitVec.ofNat 64 (readPayload addr n).data.length).toNat := by
    rw [hlength]
    exact Nat.not_lt.mpr h
  have hread : m.readData (readPayload addr n) =
      some ⟨false, addr, Solver.BVCToBytes data n, some data, false⟩ := by
    have haddr : (readPayload addr n).address = addr := rfl
    rw [readData, hlength, haddr, hload]
    rfl
  rw [doTransaction, transportDbg, if_neg hnot, if_neg (by exact Bool.false_ne_true), hread]
  rfl

theorem doTransaction_write {m : SymbolicMemory} {addr : BitVec 64} {data : List (BitVec 8)}
    {extension : Option ConcolicValue} {value : ConcolicValue} (h : m.InRange addr data.length)
    (hvalue : (writePayload addr data extension).value = some value) :
    m.doTransaction (writePayload addr data extension) (fun _ ↦ .done) =
      (⟨m.memory.store (addr.setWidth 32) value data.length, m.size⟩, .done) := by
  have hnot : ¬ m.size < ((writePayload addr data extension).address +
      BitVec.ofNat 64 (writePayload addr data extension).data.length).toNat := Nat.not_lt.mpr h
  rw [doTransaction, transportDbg, if_neg hnot, if_pos (by rfl), writeData, hvalue]
  rfl

theorem doTransaction_of_value_none {m : SymbolicMemory} {addr : BitVec 64}
    {data : List (BitVec 8)} {extension : Option ConcolicValue} (h : m.InRange addr data.length)
    (hvalue : (writePayload addr data extension).value = none) (answer : Payload → Answer) :
    m.doTransaction (writePayload addr data extension) answer = (m, .nullPointer) := by
  have hnot : ¬ m.size < ((writePayload addr data extension).address +
      BitVec.ofNat 64 (writePayload addr data extension).data.length).toNat := Nat.not_lt.mpr h
  rw [doTransaction, transportDbg, if_neg hnot, if_pos (by rfl), writeData, hvalue]
  rfl

end SymbolicMemory

/-! ## Values and buffers -/

/-- A value without a symbolic part that is not tainted. -/
structure Plain (value : ConcolicValue) : Prop where
  symbolic : value.symbolic = none
  tainted : value.tainted = false

theorem plain_byte (b : BitVec 8) : Plain (Solver.BVC none (.uint8 b)) := ⟨rfl, rfl⟩

theorem Plain.concat {a b : ConcolicValue} (ha : Plain a) (hb : Plain b) : Plain (a.concat b) where
  symbolic := by
    rw [ConcolicValue.concat, ConcolicValue.binaryOperator, ha.symbolic, hb.symbolic]
    rfl
  tainted := by
    rw [ConcolicValue.concat, ConcolicValue.binaryOperator, ha.tainted, hb.tainted]
    rfl

theorem plain_foldl_concatByte {bytes : List ConcolicValue} (hbytes : ∀ b ∈ bytes, Plain b)
    {result : Option ConcolicValue} (hresult : ∀ v ∈ result, Plain v) {value : ConcolicValue}
    (h : bytes.foldl Solver.concatByte result = some value) : Plain value := by
  induction bytes generalizing result with
  | nil => exact hresult value h
  | cons b bytes ih =>
    refine ih (fun b' hb' ↦ hbytes b' (List.mem_cons_of_mem _ hb')) ?_ h
    have hb := hbytes b List.mem_cons_self
    intro v hv
    cases result with
    | none =>
      obtain rfl := Option.some.inj hv
      exact hb
    | some r =>
      obtain rfl := Option.some.inj hv
      exact hb.concat (hresult r rfl)

/-- The bytes of a bit vector, the least significant one first. -/
def littleEndian (value : BV) (n : Nat) : List (BitVec 8) :=
  (List.range n).map fun i ↦ value.bits.extractLsb' (i * 8) 8

theorem BVCToBytes_eq_littleEndian {value : ConcolicValue} {n : Nat}
    (hwidth : n * 8 ≤ value.getWidth) :
    Solver.BVCToBytes value n = littleEndian value.concrete n := by
  rw [Solver.BVCToBytes, if_neg (Nat.not_lt.mpr hwidth), littleEndian]
  refine List.map_congr_left fun i _ ↦ ?_
  exact (BitVec.ofNat_toNat 8 _).trans (BitVec.setWidth_eq _)

theorem foldl_concatByte_isSome {bytes : List ConcolicValue} (h : bytes ≠ [])
    (result : Option ConcolicValue) :
    ∃ value, bytes.foldl Solver.concatByte result = some value := by
  induction bytes generalizing result with
  | nil => exact absurd rfl h
  | cons b bytes ih =>
    obtain ⟨r, hr⟩ : ∃ r, Solver.concatByte result b = some r := by
      cases result <;> exact ⟨_, rfl⟩
    rw [List.foldl_cons, hr]
    by_cases hnil : bytes = []
    · rw [hnil]
      exact ⟨r, rfl⟩
    · exact ih hnil (some r)

/-- The value of a buffer is a constant that consists of the bytes of the buffer. -/
theorem BVCOfBytes_spec {buf : List (BitVec 8)} (h : buf ≠ []) :
    ∃ value, Solver.BVCOfBytes buf = some value ∧ value.getWidth = buf.length * 8 ∧ Plain value ∧
      littleEndian value.concrete buf.length = buf := by
  have hfold : Solver.BVCOfBytes buf =
      (buf.map fun b ↦ Solver.BVC none (.uint8 b)).foldl Solver.concatByte none := by
    rw [List.foldl_map]
    rfl
  have hne : buf.map (fun b ↦ Solver.BVC none (.uint8 b)) ≠ [] := by simpa using h
  obtain ⟨value, hvalue⟩ := foldl_concatByte_isSome hne none
  have hbyte : ∀ b ∈ buf.map (fun b ↦ Solver.BVC none (.uint8 b)), b.getWidth = 8 ∧ Plain b := by
    intro b hb
    obtain ⟨b', -, rfl⟩ := List.mem_map.mp hb
    exact ⟨rfl, plain_byte b'⟩
  obtain ⟨hwidth, hbytes⟩ := Solver.foldl_concatByte_spec (fun b hb ↦ (hbyte b hb).1) hvalue
  rw [List.length_map] at hwidth
  refine ⟨value, hfold.trans hvalue, hwidth,
    plain_foldl_concatByte (fun b hb ↦ (hbyte b hb).2) (by simp) hvalue, ?_⟩
  apply List.ext_getElem?
  intro i
  by_cases hi : i < buf.length
  · have hget := hbytes i (Solver.BVC none (.uint8 buf[i])) (by
      rw [List.getElem?_map, List.getElem?_eq_getElem hi]
      rfl)
    rw [littleEndian, List.getElem?_map, List.getElem?_range hi, List.getElem?_eq_getElem hi]
    have hbv : value.concrete.extract (i * 8) 8 = ⟨8, buf[i]⟩ := by
      rw [hget, Solver.BVC, IntValue.toBV_uint8]
    exact congrArg some (eq_of_heq (BV.mk.inj hbv).2)
  · have hlength : (littleEndian value.concrete buf.length).length = buf.length := by
      rw [littleEndian, List.length_map, List.length_range]
    rw [List.getElem?_eq_none (by omega), List.getElem?_eq_none (by omega)]

theorem BVCToBytes_BVCOfBytes {buf : List (BitVec 8)} (h : buf ≠ []) :
    ∃ value, Solver.BVCOfBytes buf = some value ∧ Solver.BVCToBytes value buf.length = buf := by
  obtain ⟨value, hvalue, hwidth, -, hbytes⟩ := BVCOfBytes_spec h
  exact ⟨value, hvalue, by rw [BVCToBytes_eq_littleEndian hwidth.ge, hbytes]⟩

/-- The concrete bytes of a range. -/
def bytesAt (m : ConcolicMemory) (addr : BitVec 32) (n : Nat) : List (BitVec 8) :=
  (List.range n).map fun off ↦ m.concreteByte (addr + BitVec.ofNat 32 off)

theorem load_spec (m : ConcolicMemory) (addr : BitVec 32) {n : Nat} (hn : 0 < n) :
    ∃ data, m.load addr n = some data ∧ data.getWidth = n * 8 ∧
      littleEndian data.concrete n = bytesAt m addr n := by
  obtain ⟨data, hdata⟩ := Option.isSome_iff_exists.mp (m.load_isSome addr hn)
  have hwidth := ConcolicMemory.getWidth_load hdata
  refine ⟨data, hdata, hwidth, ?_⟩
  rw [← BVCToBytes_eq_littleEndian hwidth.ge, ConcolicMemory.BVCToBytes_load hdata, bytesAt]

/-- A load of plain bytes is plain. -/
theorem plain_load {m : ConcolicMemory} {addr : BitVec 32} {n : Nat} {data : ConcolicValue}
    (hplain : ∀ off < n, Plain (m.byteAt (addr + BitVec.ofNat 32 off)))
    (h : m.load addr n = some data) : Plain data := by
  rw [ConcolicMemory.load_eq_foldl] at h
  refine plain_foldl_concatByte (fun b hb ↦ ?_) (by simp) h
  obtain ⟨off, hoff, rfl⟩ := List.mem_map.mp hb
  exact hplain off (List.mem_range.mp hoff)

namespace SymbolicMemory

/-- The two kinds of loads and a read of the debugger answer alike. -/
inductive LoadsAgree (m : SymbolicMemory) (addr : BitVec 64) (n : Nat) : Prop
  | value (data : ConcolicValue) :
      m.access (.symbolicLoadData addr n) = (m, .value data) → data.getWidth = n * 8 →
      m.access (.concreteLoadData addr n) = (m, .bytes (littleEndian data.concrete n)) →
      m.access (.debugRead addr n) = (m, .bytes (littleEndian data.concrete n)) →
      LoadsAgree m addr n
  | error :
      m.access (.symbolicLoadData addr n) = (m, .error) →
      m.access (.concreteLoadData addr n) = (m, .error) →
      m.access (.debugRead addr n) = (m, .error) → LoadsAgree m addr n

theorem loadsAgree (m : SymbolicMemory) (addr : BitVec 64) {n : Nat} (hn : 0 < n) :
    m.LoadsAgree addr n := by
  by_cases h : m.InRange addr n
  · obtain ⟨data, hload, hwidth, -⟩ := load_spec m.memory (addr.setWidth 32) hn
    have hbytes : m.doTransaction (readPayload addr n) (fun trans ↦ .bytes trans.data) =
        (m, .bytes (littleEndian data.concrete n)) := by
      rw [doTransaction_read h hload, BVCToBytes_eq_littleEndian hwidth.ge]
    exact .value data (doTransaction_read h hload _) hwidth hbytes hbytes
  · have hnot : ¬ m.InRange (readPayload addr n).address (readPayload addr n).data.length := by
      rwa [show (readPayload addr n).data.length = n from List.length_replicate]
    exact .error (doTransaction_of_not_inRange hnot _) (doTransaction_of_not_inRange hnot _)
      (doTransaction_of_not_inRange hnot _)

/-- A store of constant bytes leaves these bytes, without symbolic parts and untainted. -/
theorem store_bytes (m : ConcolicMemory) (addr : BitVec 32) {bytes : List (BitVec 8)}
    (hlength : bytes.length < 2 ^ 32) {value : ConcolicValue}
    (hvalue : Solver.BVCOfBytes bytes = some value) :
    bytesAt (m.store addr value bytes.length) addr bytes.length = bytes ∧
      ∀ off < bytes.length,
        Plain ((m.store addr value bytes.length).byteAt (addr + BitVec.ofNat 32 off)) := by
  have hne : bytes ≠ [] := by
    rintro rfl
    cases hvalue
  obtain ⟨value', hvalue', hwidth, hplain, hbytes⟩ := BVCOfBytes_spec hne
  obtain rfl : value' = value := Option.some.inj (hvalue'.symm.trans hvalue)
  constructor
  · rw [← hbytes, bytesAt, littleEndian, List.length_map, List.length_range]
    refine List.map_congr_left fun off hoff ↦ ?_
    exact m.concreteByte_store addr value' hlength.le hwidth.ge (List.mem_range.mp hoff)
  · intro off hoff
    have hindex : (addr + BitVec.ofNat 32 off - addr).toNat = off :=
      (ConcolicMemory.eq_add_ofNat_iff _ _ (by omega)).mp rfl
    rw [m.byteAt_store addr _ value' hlength.le, hindex, if_pos hoff,
      if_neg (Nat.not_lt.mpr hwidth.ge)]
    exact ⟨by rw [ConcolicValue.extract, ConcolicValue.unaryOperator, hplain.symbolic]; rfl,
      hplain.tainted⟩

/-- A load of what was stored as bytes. -/
theorem load_after_concreteStore {m : SymbolicMemory} {addr : BitVec 64} {bytes : List (BitVec 8)}
    (hne : bytes ≠ []) (hlength : bytes.length < 2 ^ 32) (h : m.InRange addr bytes.length) :
    ∃ m' data, m.access (.concreteStoreData addr bytes) = (m', .done) ∧
      m'.access (.symbolicLoadData addr bytes.length) = (m', .value data) ∧
      littleEndian data.concrete bytes.length = bytes ∧
      data.symbolic = none ∧ data.tainted = false := by
  obtain ⟨value, hvalue, -⟩ := BVCOfBytes_spec hne
  obtain ⟨hbytes, hplain⟩ := store_bytes m.memory (addr.setWidth 32) hlength hvalue
  obtain ⟨data, hload, -, hconcrete⟩ := load_spec
    (m.memory.store (addr.setWidth 32) value bytes.length) (addr.setWidth 32)
    (List.length_pos_iff.mpr hne)
  have hdata : Plain data := plain_load hplain hload
  let m' : SymbolicMemory := ⟨m.memory.store (addr.setWidth 32) value bytes.length, m.size⟩
  have hread : m'.access (.symbolicLoadData addr bytes.length) = (m', .value data) :=
    doTransaction_read (m := m') h hload valueAnswer
  refine ⟨m', data, doTransaction_write h hvalue, hread, ?_, hdata.symbolic, hdata.tainted⟩
  rw [hconcrete, hbytes]

end SymbolicMemory

/-! ## One memory of bytes -/

/-- The bytes of a range are replaced. -/
def writeBytes (f : BitVec 32 → BitVec 8) (addr : BitVec 32) (bytes : List (BitVec 8)) :
    BitVec 32 → BitVec 8 :=
  fun a ↦ bytes[(a - addr).toNat]?.getD (f a)

namespace Access

/-- The address and the bytes that an access writes. -/
def written : Access → Option (BitVec 64 × List (BitVec 8))
  | .symbolicStoreData addr data numBytes => some (addr, Solver.BVCToBytes data numBytes)
  | .concreteStoreData addr value | .debugWrite addr value => some (addr, value)
  | .symbolicLoadData _ _ | .concreteLoadData _ _ | .debugRead _ _ => none

/-- The length of a transaction is an unsigned integer of 32 bits. -/
def Short (access : Access) : Prop :=
  ∀ addr bytes, access.written = some (addr, bytes) → bytes.length < 2 ^ 32

/-- What an access does to a memory of bytes. -/
def applyTo (size : Nat) (f : BitVec 32 → BitVec 8) (access : Access) : BitVec 32 → BitVec 8 :=
  match access.written with
  | some (addr, bytes) =>
    if (addr + BitVec.ofNat 64 bytes.length).toNat ≤ size then writeBytes f (addr.setWidth 32) bytes
    else f
  | none => f

end Access

theorem length_BVCToBytes (value : ConcolicValue) (n : Nat) :
    (Solver.BVCToBytes value n).length = n := by
  rw [Solver.BVCToBytes, List.length_map, List.length_range]

theorem concreteByte_store_eq_writeBytes (m : ConcolicMemory) (addr : BitVec 32)
    (value : ConcolicValue) {n : Nat} (hn : n < 2 ^ 32) :
    (m.store addr value n).concreteByte =
      writeBytes m.concreteByte addr (Solver.BVCToBytes value n) := by
  funext a
  rw [ConcolicMemory.concreteByte, m.byteAt_store addr a value hn.le, writeBytes]
  by_cases ha : (a - addr).toNat < n
  · rw [if_pos ha, Solver.BVCToBytes, List.getElem?_map, List.getElem?_range ha]
    rfl
  · rw [if_neg ha, List.getElem?_eq_none (by rw [length_BVCToBytes]; omega)]
    rfl

namespace SymbolicMemory

theorem access_write {m : SymbolicMemory} {addr : BitVec 64} {bytes : List (BitVec 8)}
    {extension : Option ConcolicValue} (hlength : bytes.length < 2 ^ 32)
    (hbytes : ∀ value, (writePayload addr bytes extension).value = some value →
      Solver.BVCToBytes value bytes.length = bytes) :
    (m.doTransaction (writePayload addr bytes extension) fun _ ↦ .done).1.size = m.size ∧
    (m.doTransaction (writePayload addr bytes extension) fun _ ↦ .done).1.memory.concreteByte =
      if m.InRange addr bytes.length then
        writeBytes m.memory.concreteByte (addr.setWidth 32) bytes
      else m.memory.concreteByte := by
  by_cases hrange : m.InRange addr bytes.length
  · rw [if_pos hrange]
    cases hvalue : (writePayload addr bytes extension).value with
    | some value =>
      rw [doTransaction_write hrange hvalue]
      refine ⟨rfl, ?_⟩
      have hstore := concreteByte_store_eq_writeBytes m.memory (addr.setWidth 32) value hlength
      rwa [hbytes value hvalue] at hstore
    | none =>
      -- Only an empty buffer has no value.
      have hnil : bytes = [] := by
        by_contra hne
        obtain ⟨value, hsome, -⟩ := BVCOfBytes_spec hne
        cases extension with
        | some value' => cases hvalue
        | none => exact absurd (hsome.symm.trans hvalue) (Option.some_ne_none value)
      subst hnil
      rw [doTransaction_of_value_none hrange hvalue]
      exact ⟨rfl, rfl⟩
  · rw [if_neg hrange, doTransaction_of_not_inRange hrange]
    exact ⟨rfl, rfl⟩

theorem access_read (m : SymbolicMemory) (addr : BitVec 64) (n : Nat) (answer : Payload → Answer) :
    (m.doTransaction (readPayload addr n) answer).1 = m := by
  rw [doTransaction, transportDbg]
  split_ifs with hrange hwrite
  · rfl
  · cases hwrite
  · cases m.readData (readPayload addr n) <;> rfl

/-- One access on the bytes of the memory. -/
theorem concreteByte_access (m : SymbolicMemory) {access : Access} (hshort : access.Short) :
    (m.access access).1.size = m.size ∧
      (m.access access).1.memory.concreteByte =
        access.applyTo m.size m.memory.concreteByte := by
  have hread : ∀ {addr : BitVec 64} {n : Nat} {answer : Payload → Answer},
      (m.doTransaction (readPayload addr n) answer).1.size = m.size ∧
        (m.doTransaction (readPayload addr n) answer).1.memory.concreteByte =
          m.memory.concreteByte := by
    intro addr n answer
    rw [access_read]
    exact ⟨rfl, rfl⟩
  have hwrite : ∀ {addr : BitVec 64} {bytes : List (BitVec 8)} value,
      (writePayload addr bytes none).value = some value →
        Solver.BVCToBytes value bytes.length = bytes := by
    intro addr bytes value hvalue
    have hne : bytes ≠ [] := by
      rintro rfl
      cases hvalue
    obtain ⟨value', hvalue', hbytes⟩ := BVCToBytes_BVCOfBytes hne
    obtain rfl : value' = value := Option.some.inj (hvalue'.symm.trans hvalue)
    exact hbytes
  cases access with
  | symbolicStoreData addr data n =>
    refine access_write (hshort _ _ rfl) fun value hvalue ↦ ?_
    obtain rfl : data = value := Option.some.inj hvalue
    rw [length_BVCToBytes]
  | concreteStoreData addr value | debugWrite addr value =>
    exact access_write (hshort _ _ rfl) hwrite
  | symbolicLoadData addr n | concreteLoadData addr n | debugRead addr n => exact hread

/-- A sequence of accesses of both kinds on the bytes of the memory. -/
theorem concreteByte_accesses (m : SymbolicMemory) {history : List Access}
    (hshort : ∀ access ∈ history, access.Short) :
    (m.accesses history).size = m.size ∧
      (m.accesses history).memory.concreteByte =
        history.foldl (Access.applyTo m.size) m.memory.concreteByte := by
  induction history generalizing m with
  | nil => exact ⟨rfl, rfl⟩
  | cons access history ih =>
    obtain ⟨hsize, hbytes⟩ := concreteByte_access m (hshort access List.mem_cons_self)
    obtain ⟨hsize', hbytes'⟩ := ih (m.access access).1 fun a ha ↦
      hshort a (List.mem_cons_of_mem _ ha)
    rw [hsize] at hsize' hbytes'
    refine ⟨hsize', ?_⟩
    rw [List.foldl_cons, ← hbytes]
    exact hbytes'

end SymbolicMemory

/-! ## The accesses of the core -/

section Core

variable (s : State) {addr : BitVec 64} {n : Nat}

def State.symbolicMemory : SymbolicMemory := ⟨s.mem, s.memSize⟩

theorem State.inRange_iff (hfit : addr.toNat + n < 2 ^ 64) :
    s.symbolicMemory.InRange addr n ↔ addr.toNat + n ≤ s.memSize := by
  have hsum : (addr + BitVec.ofNat 64 n).toNat = addr.toNat + n := by
    rw [BitVec.toNat_add, BitVec.toNat_ofNat]
    omega
  rw [SymbolicMemory.InRange, hsum]
  rfl

/-- A load of the core takes the value of the transaction. -/
theorem triple_transportRead_access (hn : 0 < n) (hfit : addr.toNat + n < 2 ^ 64) :
    Triple (· = s) (transportRead addr n)
      (fun data s' ↦ s' = s ∧
        s.symbolicMemory.access (.symbolicLoadData addr n) = (s.symbolicMemory, .value data))
      (fun e s' ↦ s' = s ∧ e = .trap .LOAD_PAGE_FAULT addr ∧
        s.symbolicMemory.access (.symbolicLoadData addr n) = (s.symbolicMemory, .error)) := by
  refine (triple_transportRead s addr hn).conseq (fun _ h ↦ h) (fun data s' h ↦ ⟨h.1, ?_⟩)
    fun e s' h ↦ ⟨h.1, h.2.2, ?_⟩
  · exact SymbolicMemory.doTransaction_read ((s.inRange_iff hfit).mpr h.2.1) h.2.2 valueAnswer
  · have hrange : ¬ s.symbolicMemory.InRange addr n :=
      mt (s.inRange_iff hfit).mp (Nat.not_le.mpr h.2.1)
    refine SymbolicMemory.doTransaction_of_not_inRange ?_ valueAnswer
    rwa [show (readPayload addr n).data.length = n from List.length_replicate]

/-- Fetches and page walks take the buffer. -/
theorem triple_concreteLoadData_access (hn : 0 < n) (hfit : addr.toNat + n < 2 ^ 64) :
    Triple (· = s) (concreteLoadData addr n)
      (fun value s' ↦ s' = s ∧ ∃ bytes, value = bytesToNat bytes ∧
        s.symbolicMemory.access (.concreteLoadData addr n) = (s.symbolicMemory, .bytes bytes))
      (fun e s' ↦ s' = s ∧ e = .trap .LOAD_PAGE_FAULT addr ∧
        s.symbolicMemory.access (.concreteLoadData addr n) = (s.symbolicMemory, .error)) := by
  have hagree := s.symbolicMemory.loadsAgree addr hn
  refine Triple.bind ((triple_transportRead_access s hn hfit).conseq (fun _ h ↦ h)
    (fun _ _ h ↦ h) fun e s' h ↦ ⟨h.1, h.2.1, ?_⟩) fun data ↦ Triple.ret fun s' h ↦ ⟨h.1, ?_⟩
  · cases hagree with
    | value data hvalue => exact absurd (hvalue.symm.trans h.2.2) (by simp)
    | error _ herror => exact herror
  · refine ⟨Solver.BVCToBytes data n, rfl, ?_⟩
    cases hagree with
    | value data' hvalue hwidth hbytes =>
      obtain rfl : data' = data := by
        have heq := hvalue.symm.trans h.2
        injection heq with _ hanswer
        injection hanswer
      rw [hbytes, BVCToBytes_eq_littleEndian hwidth.ge]
    | error herror => exact absurd (herror.symm.trans h.2) (by simp)

/-- A store of the core passes the value next to the buffer. -/
theorem triple_transportWrite_access (data : ConcolicValue) (hfit : addr.toNat + n < 2 ^ 64) :
    Triple (· = s) (transportWrite addr data n)
      (fun _ s' ↦ s.symbolicMemory.access (.symbolicStoreData addr data n) =
        (s'.symbolicMemory, .done))
      (fun e s' ↦ s' = s ∧ e = .trap .STORE_AMO_PAGE_FAULT addr ∧
        s.symbolicMemory.access (.symbolicStoreData addr data n) = (s.symbolicMemory, .error)) := by
  have hlength := length_BVCToBytes data n
  refine (triple_transportWrite s addr data n).conseq (fun _ h ↦ h) (fun _ s' h ↦ ?_)
    fun e s' h ↦ ⟨h.1, h.2.2, ?_⟩
  · have hrange : s.symbolicMemory.InRange addr (Solver.BVCToBytes data n).length := by
      rw [hlength]
      exact (s.inRange_iff hfit).mpr h.1
    have hvalue : (writePayload addr (Solver.BVCToBytes data n) (some data)).value = some data := rfl
    rw [h.2, SymbolicMemory.access, SymbolicMemory.doTransaction_write hrange hvalue, hlength]
    rfl
  · refine SymbolicMemory.doTransaction_of_not_inRange ?_ _
    change ¬ s.symbolicMemory.InRange addr (Solver.BVCToBytes data n).length
    rw [hlength]
    exact mt (s.inRange_iff hfit).mp (Nat.not_le.mpr h.2.1)

/-- Page table entries are stored as bytes. -/
theorem triple_concreteStoreData_access (value : BitVec 32) (hfit : addr.toNat + 4 < 2 ^ 64) :
    Triple (· = s) (concreteStoreData addr value)
      (fun _ s' ↦ s.symbolicMemory.access
        (.concreteStoreData addr ((List.range 4).map fun i ↦ value.extractLsb' (8 * i) 8)) =
          (s'.symbolicMemory, .done))
      (fun e s' ↦ s' = s ∧ e = .trap .STORE_AMO_PAGE_FAULT addr ∧
        s.symbolicMemory.access
          (.concreteStoreData addr ((List.range 4).map fun i ↦ value.extractLsb' (8 * i) 8)) =
            (s.symbolicMemory, .error)) := by
  rw [concreteStoreData_eq]
  refine (triple_transportWrite s addr (constant value) 4).conseq (fun _ h ↦ h) (fun _ s' h ↦ ?_)
    fun e s' h ↦ ⟨h.1, h.2.2, ?_⟩
  · rw [h.2]
    exact SymbolicMemory.doTransaction_write ((s.inRange_iff hfit).mpr h.1) (BVCOfBytes_word value)
  · exact SymbolicMemory.doTransaction_of_not_inRange
      (mt (s.inRange_iff hfit).mp (Nat.not_le.mpr h.2.1)) _

end Core

/-- A transaction of the core: for data, for an instruction or a page table entry, and the mark of a
page table entry. -/
inductive CoreTransaction
  | load (addr : BitVec 64) (numBytes : Nat)
  | fetch (addr : BitVec 64) (numBytes : Nat)
  | store (addr : BitVec 64) (data : ConcolicValue) (numBytes : Nat)
  | mark (addr : BitVec 64) (value : BitVec 32)

namespace CoreTransaction

def run : CoreTransaction → IssM Unit
  | load addr numBytes => do
    let _ ← transportRead addr numBytes
  | fetch addr numBytes => do
    let _ ← concreteLoadData addr numBytes
  | store addr data numBytes => transportWrite addr data numBytes
  | mark addr value => concreteStoreData addr value

def access : CoreTransaction → Access
  | load addr numBytes => .symbolicLoadData addr numBytes
  | fetch addr numBytes => .concreteLoadData addr numBytes
  | store addr data numBytes => .symbolicStoreData addr data numBytes
  | mark addr value =>
    .concreteStoreData addr ((List.range 4).map fun i ↦ value.extractLsb' (8 * i) 8)

/-- The transaction has a length, and its end is an address of 64 bits. -/
def Fits : CoreTransaction → Prop
  | load addr numBytes | fetch addr numBytes => 0 < numBytes ∧ addr.toNat + numBytes < 2 ^ 64
  | store addr _ numBytes => numBytes < 2 ^ 32 ∧ addr.toNat + numBytes < 2 ^ 64
  | mark addr _ => addr.toNat + 4 < 2 ^ 64

/-- Whether it is answered or not, a transaction does to the memory what the access does. -/
theorem triple_run_access (s : State) {t : CoreTransaction} (hfits : t.Fits) :
    Triple (· = s) t.run (fun _ s' ↦ s'.symbolicMemory = (s.symbolicMemory.access t.access).1)
      fun _ s' ↦ s'.symbolicMemory = (s.symbolicMemory.access t.access).1 := by
  cases t with
  | load addr n =>
    refine Triple.bind ((triple_transportRead_access s hfits.1 hfits.2).conseq (fun _ h ↦ h)
      (fun _ _ h ↦ ?_) fun _ _ h ↦ ?_) fun _ ↦ Triple.ret fun _ h ↦ h
    · rw [access, h.2, h.1]
    · rw [access, h.2.2, h.1]
  | fetch addr n =>
    refine Triple.bind ((triple_concreteLoadData_access s hfits.1 hfits.2).conseq (fun _ h ↦ h)
      (fun _ _ h ↦ ?_) fun _ _ h ↦ ?_) fun _ ↦ Triple.ret fun _ h ↦ h
    · obtain ⟨bytes, -, hanswer⟩ := h.2
      rw [access, hanswer, h.1]
    · rw [access, h.2.2, h.1]
  | store addr data n =>
    refine (triple_transportWrite_access s data hfits.2).conseq (fun _ h ↦ h) (fun _ _ h ↦ ?_)
      fun _ _ h ↦ ?_
    · rw [access, h]
    · rw [access, h.2.2, h.1]
  | mark addr value =>
    refine (triple_concreteStoreData_access s value hfits).conseq (fun _ h ↦ h) (fun _ _ h ↦ ?_)
      fun _ _ h ↦ ?_
    · rw [access, h]
    · rw [access, h.2.2, h.1]

/-- A transaction that is not answered raises a trap, and the next one follows. -/
def runAll : List CoreTransaction → IssM Unit
  | [] => pure ()
  | t :: ts => do
    tryCatch t.run fun _ ↦ pure ()
    runAll ts

theorem triple_runAll (s : State) {ts : List CoreTransaction} (hfits : ∀ t ∈ ts, t.Fits) :
    Triple (· = s) (runAll ts)
      (fun _ s' ↦ s'.symbolicMemory = s.symbolicMemory.accesses (ts.map access))
      fun _ _ ↦ False := by
  induction ts generalizing s with
  | nil => exact Triple.ret fun _ h ↦ h ▸ rfl
  | cons t ts ih =>
    refine Triple.bind (Triple.handle (triple_run_access s (hfits t List.mem_cons_self)) fun _ ↦
      Triple.ret fun _ h ↦ h) fun _ ↦ Triple.of_start fun s₁ hs₁ ↦ ?_
    refine Triple.post (ih s₁ fun t' h ↦ hfits t' (List.mem_cons_of_mem _ h)) fun _ s' h ↦ ?_
    rw [h, hs₁]
    rfl

theorem Fits.short {t : CoreTransaction} (h : t.Fits) : t.access.Short := by
  intro addr bytes hwritten
  cases t with
  | load | fetch => cases hwritten
  | store addr' data n =>
    cases hwritten
    rw [length_BVCToBytes]
    exact h.1
  | mark addr' value =>
    cases hwritten
    rw [List.length_map, List.length_range]
    decide

end CoreTransaction

/-- After every sequence of transactions of the core, answered or not, the memory holds the bytes
that were there, replaced by those that were written one after another. -/
theorem bytes_after_coreTransactions (s : State) (ts : List CoreTransaction)
    (hfits : ∀ t ∈ ts, t.Fits) :
    ∃ s', CoreTransaction.runAll ts s = .ok () s' ∧ s'.memSize = s.memSize ∧
      s'.mem.concreteByte =
        (ts.map CoreTransaction.access).foldl (Access.applyTo s.memSize) s.mem.concreteByte := by
  obtain ⟨_, s', hrun, hmemory⟩ := (CoreTransaction.triple_runAll s hfits).exists_ok rfl
  have hshort : ∀ access ∈ ts.map CoreTransaction.access, access.Short := by
    intro access haccess
    obtain ⟨t, ht, rfl⟩ := List.mem_map.mp haccess
    exact (hfits t ht).short
  obtain ⟨hsize, hbytes⟩ := s.symbolicMemory.concreteByte_accesses hshort
  rw [← hmemory] at hsize hbytes
  exact ⟨s', hrun, hsize, hbytes⟩

/-- A store, a mark, a load and a store beyond the memory -/
theorem bytes_after_coreTransactions_four :
    ∃ s', CoreTransaction.runAll [.store 16#64 (constant 0x11223344#32) 4, .mark 18#64 0xd7#32,
        .load 16#64 4, .store 8192#64 (constant 0#32) 4] (bootState []) = .ok () s' ∧
      (List.range 8).map (fun i ↦ s'.mem.concreteByte (16#32 + BitVec.ofNat 32 i)) =
        [0x44#8, 0x33#8, 0xd7#8, 0#8, 0#8, 0#8, 0#8, 0#8] := by
  obtain ⟨s', hrun, -, hbytes⟩ := bytes_after_coreTransactions (bootState [])
    [.store 16#64 (constant 0x11223344#32) 4, .mark 18#64 0xd7#32, .load 16#64 4,
      .store 8192#64 (constant 0#32) 4] (by simp [CoreTransaction.Fits])
  refine ⟨s', hrun, ?_⟩
  rw [hbytes]
  decide +kernel

/-- After every sequence of accesses the two kinds of loads agree, a load of what was stored as
bytes gives these bytes as a constant, and a buffer survives the conversion to a value. -/
theorem memory_paths_agree (m : SymbolicMemory) (history : List Access) :
    (∀ addr n, 0 < n → (m.accesses history).LoadsAgree addr n) ∧
      (∀ addr bytes, bytes ≠ [] → bytes.length < 2 ^ 32 →
        (m.accesses history).InRange addr bytes.length →
        ∃ m' data, (m.accesses history).access (.concreteStoreData addr bytes) = (m', .done) ∧
          m'.access (.symbolicLoadData addr bytes.length) = (m', .value data) ∧
          littleEndian data.concrete bytes.length = bytes ∧
          data.symbolic = none ∧ data.tainted = false) ∧
      ∀ buf : List (BitVec 8), buf ≠ [] →
        ∃ value, Solver.BVCOfBytes buf = some value ∧
          Solver.BVCToBytes value buf.length = buf :=
  ⟨fun addr _ hn ↦ (m.accesses history).loadsAgree addr hn,
    fun _ _ hne hlength hrange ↦ SymbolicMemory.load_after_concreteStore hne hlength hrange,
    fun _ hne ↦ BVCToBytes_BVCOfBytes hne⟩

/-- A store of a value, a write of the debugger into it and a read of the result -/
def mixedHistory : List Access :=
  [.symbolicStoreData 16#64 (constant 0x11223344#32) 4, .debugWrite 17#64 [0x55#8],
    .concreteLoadData 16#64 4]

theorem memory_paths_agree_halfword :
    ∃ m' data, ((SymbolicMemory.mk (bootMemory []) 4096).accesses mixedHistory).access
        (.concreteStoreData 18#64 [0x34#8, 0x12#8]) = (m', .done) ∧
      m'.access (.symbolicLoadData 18#64 2) = (m', .value data) ∧
      littleEndian data.concrete 2 = [0x34#8, 0x12#8] := by
  obtain ⟨-, hstore, -⟩ := memory_paths_agree (SymbolicMemory.mk (bootMemory []) 4096) mixedHistory
  obtain ⟨m', data, hdone, hvalue, hbytes, -, -⟩ :=
    hstore 18#64 [0x34#8, 0x12#8] (by decide) (by decide) (by decide +kernel)
  exact ⟨m', data, hdone, hvalue, hbytes⟩

end CoverageVP.Iss
