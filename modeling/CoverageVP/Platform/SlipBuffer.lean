import CoverageVP.Platform.Slip

/-!
# The memory of the send buffer

The send buffer is an allocated array whose first entries have been written since the last packet was
sent. Reads and writes outside of these are undefined. Sending bytes through the array is the same as
collecting them in a list.
-/

namespace CoverageVP.Platform

open Lib

/-- The allocated bytes, of which those that have not been written since the last packet are unknown,
the number of bytes of the packet, and the packets that have been sent. -/
structure SlipBuffer where
  sndbuf : List (Option (BitVec 8))
  sndsiz : Nat
  sent : List (List (BitVec 8))

namespace SlipBuffer

open Slip

def initial : SlipBuffer := ⟨List.replicate sndbufStep none, 0, []⟩

variable (b : SlipBuffer)

/-- Only a byte that has been written can be read. -/
def read (i : Nat) : Except Fault (BitVec 8) :=
  match b.sndbuf[i]? with
  | some (some byte) => .ok byte
  | _ => .error .undefined

/-- Only an allocated byte can be written. -/
def store (i : Nat) (byte : BitVec 8) : Except Fault SlipBuffer := do
  check (i < b.sndbuf.length) .undefined
  return { b with sndbuf := b.sndbuf.set i (some byte) }

def realloc (size : Nat) : SlipBuffer :=
  { b with sndbuf := b.sndbuf.take size ++ List.replicate (size - b.sndbuf.length) none }

def sendPacket : Except Fault SlipBuffer := do
  let packet ← (List.range b.sndsiz).mapM b.read
  let b := if sndbufStep < b.sndsiz then b.realloc sndbufStep else b
  return ⟨List.replicate b.sndbuf.length none, 0, b.sent ++ [packet]⟩

def escaped : Except Fault Bool :=
  if 0 < b.sndsiz then do
    let last ← b.read (b.sndsiz - 1)
    return last == ESC
  else return false

def push (data : BitVec 8) : Except Fault SlipBuffer := do
  let b := if b.sndsiz ≠ 0 ∧ b.sndsiz % sndbufStep = 0 then b.realloc (b.sndsiz + sndbufStep) else b
  let b ← b.store b.sndsiz data
  return { b with sndsiz := b.sndsiz + 1 }

def writeData (data : BitVec 8) : Except Fault SlipBuffer :=
  if data = END then if 0 < b.sndsiz then b.sendPacket else return b
  else do
    let escaped ← b.escaped
    if escaped = true ∧ data = ESC_END then b.store (b.sndsiz - 1) END
    else if escaped = true ∧ data = ESC_ESC then b.store (b.sndsiz - 1) ESC
    else b.push data

/-- The bytes are transmitted one after another. -/
def transmit (data : List (BitVec 8)) : Except Fault SlipBuffer := data.foldlM writeData b

/-! ## The bytes of a packet -/

/-- The array that holds the bytes of a list. -/
def ofSlip (s : Slip) : SlipBuffer where
  sndbuf := s.sndbuf.map some ++ List.replicate (s.capacity - s.sndbuf.length) none
  sndsiz := s.sndbuf.length
  sent := s.sent

variable {s : Slip}

theorem length_ofSlip (hs : s.Fits) : (ofSlip s).sndbuf.length = s.capacity := by
  have hholds := hs.holds
  simp only [ofSlip, List.length_append, List.length_map, List.length_replicate]
  omega

theorem read_ofSlip {i : Nat} (hi : i < s.sndbuf.length) : (ofSlip s).read i = .ok s.sndbuf[i] := by
  have hcell : (ofSlip s).sndbuf[i]? = some (some s.sndbuf[i]) := by
    rw [ofSlip, List.getElem?_append_left (by rw [List.length_map]; exact hi), List.getElem?_map,
      List.getElem?_eq_getElem hi]
    rfl
  rw [read, hcell]

theorem set_map_some (xs : List (BitVec 8)) (cell : Option (BitVec 8)) (byte : BitVec 8)
    (cells : List (Option (BitVec 8))) :
    (xs.map some ++ cell :: cells).set xs.length (some byte) = (xs ++ [byte]).map some ++ cells := by
  rw [List.set_append_right _ _ (List.length_map _).le, List.length_map, Nat.sub_self, List.set_cons_zero,
    List.map_append, List.append_assoc]
  rfl

/-- The last byte of the packet is replaced. -/
theorem store_last_ofSlip (hs : s.Fits) (hpos : 0 < s.sndbuf.length) (byte : BitVec 8) :
    (ofSlip s).store (s.sndbuf.length - 1) byte =
      .ok (ofSlip { s with sndbuf := s.sndbuf.dropLast ++ [byte] }) := by
  have hlt : s.sndbuf.length - 1 < (ofSlip s).sndbuf.length := by
    have hholds := hs.holds
    rw [length_ofSlip hs]
    omega
  rw [store, check_of hlt]
  obtain ⟨sndbuf, capacity, sent⟩ := s
  rcases List.eq_nil_or_concat sndbuf with rfl | ⟨xs, x, rfl⟩
  · exact absurd hpos (Nat.lt_irrefl 0)
  · have hset := set_map_some xs (some x) byte (List.replicate (capacity - (xs.length + 1)) none)
    simp only [ofSlip, List.concat_eq_append, List.length_append, List.length_singleton, Nat.add_sub_cancel,
      List.dropLast_concat, List.map_append, List.map_cons, List.map_nil, List.append_assoc,
      List.singleton_append] at hset ⊢
    rw [hset]
    rfl

/-- A byte is appended to the packet. -/
theorem store_next_ofSlip (hs : s.Fits) (hlt : s.sndbuf.length < s.capacity) (byte : BitVec 8) :
    (do
      let b ← (ofSlip s).store s.sndbuf.length byte
      return { b with sndsiz := b.sndsiz + 1 } : Except Fault SlipBuffer) =
      .ok (ofSlip { s with sndbuf := s.sndbuf ++ [byte] }) := by
  have hcell : s.sndbuf.length < (ofSlip s).sndbuf.length := by
    rw [length_ofSlip hs]
    exact hlt
  have hrest : s.capacity - s.sndbuf.length = s.capacity - (s.sndbuf.length + 1) + 1 := by omega
  have hset := set_map_some s.sndbuf none byte
    (List.replicate (s.capacity - (s.sndbuf.length + 1)) none)
  rw [← List.replicate_succ, ← hrest] at hset
  have hlength : (s.sndbuf ++ [byte]).length = s.sndbuf.length + 1 := List.length_append
  rw [store, check_of hcell]
  simp only [ofSlip, hlength]
  rw [← hset]
  rfl

theorem realloc_ofSlip (hs : s.Fits) {size : Nat} (hsize : s.sndbuf.length ≤ size) :
    (ofSlip s).realloc size = ofSlip { s with capacity := size } := by
  have hholds := hs.holds
  have hcells : (ofSlip s).sndbuf.take size =
      s.sndbuf.map some ++ List.replicate (min (size - s.sndbuf.length)
        (s.capacity - s.sndbuf.length)) none := by
    rw [ofSlip, List.take_append, List.length_map, List.take_of_length_le (by rwa [List.length_map]),
      List.take_replicate]
  have hnew : min (size - s.sndbuf.length) (s.capacity - s.sndbuf.length) + (size - s.capacity) =
      size - s.sndbuf.length := by omega
  rw [realloc, hcells, length_ofSlip hs, List.append_assoc, List.replicate_append_replicate, hnew]
  rfl

/-! ## The same packets -/

theorem sendPacket_ofSlip (hs : s.Fits) : (ofSlip s).sendPacket = .ok (ofSlip s.sendPacket) := by
  have hread : (List.range (ofSlip s).sndsiz).mapM (ofSlip s).read = .ok s.sndbuf := by
    have hcells : (List.range (ofSlip s).sndsiz).map (fun i ↦ s.sndbuf[i]?.getD 0#8) = s.sndbuf := by
      apply List.ext_getElem
      · rw [List.length_map, List.length_range]
        rfl
      · intro i _ hi
        rw [List.getElem_map, List.getElem_range, List.getElem?_eq_getElem hi]
        rfl
    rw [mapM_eq_ok (g := fun i ↦ s.sndbuf[i]?.getD 0#8), hcells]
    intro i hi
    have hlt : i < s.sndbuf.length := List.mem_range.mp hi
    rw [read_ofSlip hlt, List.getElem?_eq_getElem hlt]
    rfl
  have hlength : (if sndbufStep < (ofSlip s).sndsiz then (ofSlip s).realloc sndbufStep
      else ofSlip s).sndbuf.length = if sndbufStep < s.sndbuf.length then sndbufStep else s.capacity := by
    rw [apply_ite sndbuf, apply_ite List.length]
    refine if_congr Iff.rfl ?_ (length_ofSlip hs)
    rw [realloc, List.length_append, List.length_take, List.length_replicate]
    omega
  have hsent : (if sndbufStep < (ofSlip s).sndsiz then (ofSlip s).realloc sndbufStep
      else ofSlip s).sent = s.sent := by
    rw [apply_ite sent]
    exact ite_self _
  rw [sendPacket, hread]
  change Except.ok (SlipBuffer.mk _ _ _) = _
  rw [hlength, hsent]
  rfl

theorem escaped_ofSlip (s : Slip) :
    (ofSlip s).escaped = .ok (decide (s.sndbuf.getLast? = some ESC)) := by
  unfold escaped
  change (if 0 < s.sndbuf.length then _ else _) = _
  split
  case isTrue hpos =>
    have hlt : s.sndbuf.length - 1 < s.sndbuf.length := Nat.sub_lt hpos Nat.one_pos
    have hlast : s.sndbuf.getLast? = some s.sndbuf[s.sndbuf.length - 1] := by
      rw [List.getLast?_eq_getElem?, List.getElem?_eq_getElem hlt]
    change (do let last ← (ofSlip s).read (s.sndbuf.length - 1); return last == ESC) = _
    rw [read_ofSlip hlt, hlast]
    simp only [Option.some.injEq]
    rfl
  case isFalse hpos =>
    have hnil : s.sndbuf = [] := List.length_eq_zero_iff.mp (Nat.eq_zero_of_not_pos hpos)
    rw [hnil]
    rfl

theorem push_ofSlip (hs : s.Fits) (data : BitVec 8) :
    (ofSlip s).push data = (s.push data).map ofSlip := by
  have hgrow : (if (ofSlip s).sndsiz ≠ 0 ∧ (ofSlip s).sndsiz % sndbufStep = 0 then
      (ofSlip s).realloc ((ofSlip s).sndsiz + sndbufStep) else ofSlip s) = ofSlip s.grow := by
    unfold Slip.grow
    rw [apply_ite ofSlip]
    exact if_congr Iff.rfl (realloc_ofSlip hs (Nat.le_add_right _ _)) rfl
  have hstore := store_next_ofSlip hs.grow (by rw [sndbuf_grow]; exact hs.lt_capacity_grow) data
  unfold push Slip.push
  dsimp only
  rw [hgrow, check_of (by rw [sndbuf_grow]; exact hs.lt_capacity_grow)]
  exact hstore

/-- A byte does to the array what it does to the list. -/
theorem writeData_ofSlip (hs : s.Fits) (data : BitVec 8) :
    (ofSlip s).writeData data = (s.writeData data).map ofSlip := by
  unfold writeData Slip.writeData
  split
  case isTrue =>
    rw [sendPacket_ofSlip hs]
    change _ = Except.ok (ofSlip (if 0 < s.sndbuf.length then s.sendPacket else s))
    rw [apply_ite ofSlip, apply_ite Except.ok]
    rfl
  case isFalse =>
    rw [escaped_ofSlip]
    change (if decide (s.sndbuf.getLast? = some ESC) = true ∧ data = ESC_END then _ else _) = _
    by_cases hlast : s.sndbuf.getLast? = some ESC
    · have hpos : 0 < s.sndbuf.length := by
        refine List.length_pos_iff.mpr fun hnil ↦ ?_
        rw [hnil] at hlast
        cases hlast
      unfold unescape
      rw [if_pos hlast]
      simp only [hlast, decide_true, true_and]
      split
      case isTrue => exact store_last_ofSlip hs hpos END
      case isFalse =>
        split
        case isTrue => exact store_last_ofSlip hs hpos ESC
        case isFalse => exact push_ofSlip hs data
    · unfold unescape
      rw [if_neg hlast]
      simp only [hlast, decide_false, Bool.false_eq_true, false_and, if_false]
      exact push_ofSlip hs data

/-! ## Allocated bytes -/

/-- The least number of whole steps that holds so many bytes. -/
def allocated (sndsiz : Nat) : Nat :=
  sndbufStep * max 1 ((sndsiz + (sndbufStep - 1)) / sndbufStep)

theorem allocated_of_le {n : Nat} (h : n ≤ sndbufStep) : allocated n = sndbufStep := by
  unfold sndbufStep at h
  unfold allocated sndbufStep
  omega

/-- One byte more needs another step if the ones before are full. -/
theorem allocated_succ (n : Nat) :
    allocated (n + 1) = if n ≠ 0 ∧ n % sndbufStep = 0 then n + sndbufStep else allocated n := by
  unfold allocated sndbufStep
  split <;> omega

theorem capacity_of_writeData {s' : Slip} {data : BitVec 8} (hs : s.Fits)
    (hcapacity : s.capacity = allocated s.sndbuf.length) (h : s.writeData data = .ok s') :
    s'.capacity = allocated s'.sndbuf.length := by
  unfold Slip.writeData at h
  split at h
  case isTrue =>
    cases h
    split
    case isTrue =>
      change (if sndbufStep < s.sndbuf.length then sndbufStep else s.capacity) = allocated 0
      rw [allocated_of_le (Nat.zero_le _)]
      split
      case isTrue => rfl
      case isFalse hle => rw [hcapacity, allocated_of_le (Nat.le_of_not_lt hle)]
    case isFalse => exact hcapacity
  case isFalse =>
    split at h
    case h_1 byte hbyte =>
      cases h
      rw [length_dropLast_append (getLast?_of_unescape hbyte)]
      exact hcapacity
    case h_2 =>
      unfold Slip.push at h
      dsimp only at h
      rw [sndbuf_grow, check_of hs.lt_capacity_grow] at h
      cases h
      rw [List.length_append, List.length_singleton, allocated_succ, ← hcapacity]
      exact apply_ite Slip.capacity _ _ _

/-- The array is as long as the packet needs, and exactly the bytes of the packet can be read. -/
structure Tight (b : SlipBuffer) : Prop where
  allocated : b.sndbuf.length = allocated b.sndsiz
  written : ∀ i, (∃ byte, b.read i = .ok byte) ↔ i < b.sndsiz

theorem tight_ofSlip (hs : s.Fits) (hcapacity : s.capacity = allocated s.sndbuf.length) :
    (ofSlip s).Tight where
  allocated := (length_ofSlip hs).trans hcapacity
  written := by
    intro i
    constructor
    · rintro ⟨byte, h⟩
      by_contra hge
      have hcell : (ofSlip s).sndbuf[i]? ≠ some (some byte) := by
        rw [ofSlip, List.getElem?_append_right (by rw [List.length_map]; exact Nat.le_of_not_lt hge)]
        intro hsome
        exact absurd (List.eq_of_mem_replicate (List.mem_of_getElem? hsome)) (by simp)
      unfold read at h
      split at h
      case h_1 byte' hbyte =>
        cases h
        exact hcell hbyte
      case h_2 => cases h
    · intro hi
      exact ⟨s.sndbuf[i], read_ofSlip hi⟩

theorem transmit_ofSlip (hs : s.Fits) (hcapacity : s.capacity = allocated s.sndbuf.length)
    (data : List (BitVec 8)) : ∃ s' : Slip, s.transmit data = .ok s' ∧
      (ofSlip s).transmit data = .ok (ofSlip s') ∧ s'.Fits ∧ s'.capacity = allocated s'.sndbuf.length := by
  induction data generalizing s with
  | nil => exact ⟨s, rfl, rfl, hs, hcapacity⟩
  | cons byte data ih =>
    obtain ⟨s₁, hbyte, hfits⟩ := writeData_spec hs byte
    obtain ⟨s', hrest, hrest', h⟩ := ih hfits (capacity_of_writeData hs hcapacity hbyte)
    refine ⟨s', ?_, ?_, h⟩
    · rw [Slip.transmit, List.foldlM_cons, hbyte]
      exact hrest
    · rw [transmit, List.foldlM_cons, writeData_ofSlip hs, hbyte]
      exact hrest'

/-- Every byte stream is taken with all accesses to allocated and written bytes. -/
theorem transmit_tight (data : List (BitVec 8)) :
    ∃ b, initial.transmit data = .ok b ∧ b.Tight := by
  obtain ⟨s, -, htransmit, hfits, hcapacity⟩ := transmit_ofSlip fits_initial rfl data
  exact ⟨ofSlip s, htransmit, tight_ofSlip hfits hcapacity⟩

end SlipBuffer

end CoverageVP.Platform
