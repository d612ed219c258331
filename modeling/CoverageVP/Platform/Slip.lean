import CoverageVP.Lib.Sequences
import CoverageVP.Platform.MemoryMap
import Mathlib.Data.List.Chain

/-!
# Packets over a serial line

A packet is received as its bytes with the two special ones escaped, followed by the end of the packet.
The bytes that are transmitted are collected in a buffer, which is sent at the end of a packet. An
escape is recognised by the last byte of the buffer.
-/

namespace CoverageVP.Platform

open Lib

/-- The send buffer with the bytes that are allocated for it, and the packets that have been sent. -/
structure Slip where
  sndbuf : List (BitVec 8)
  capacity : Nat
  sent : List (List (BitVec 8))

namespace Slip

/-- The send buffer grows by this number of bytes. -/
def sndbufStep : Nat := 1500

def END : BitVec 8 := 0xC0#8
def ESC : BitVec 8 := 0xDB#8
def ESC_END : BitVec 8 := 0xDC#8
def ESC_ESC : BitVec 8 := 0xDD#8

def initial : Slip := ⟨[], sndbufStep, []⟩

/-! ## Receiving -/

/-- What is pushed for a byte of a packet. -/
def escape (byte : BitVec 8) : List (BitVec 8) :=
  if byte = END then [ESC, ESC_END] else if byte = ESC then [ESC, ESC_ESC] else [byte]

/-- What is pushed for a packet. -/
def handleInput (packet : List (BitVec 8)) : List (BitVec 8) := packet.flatMap escape ++ [END]

variable (s : Slip)

def sendPacket : Slip where
  sndbuf := []
  capacity := if sndbufStep < s.sndbuf.length then sndbufStep else s.capacity
  sent := s.sent ++ [s.sndbuf]

/-- The buffer grows when it has been filled up. -/
def grow : Slip :=
  if s.sndbuf.length ≠ 0 ∧ s.sndbuf.length % sndbufStep = 0 then
    { s with capacity := s.sndbuf.length + sndbufStep }
  else s

/-- A byte outside of the allocated ones must not be written. -/
def push (data : BitVec 8) : Except Fault Slip := do
  let s := s.grow
  check (s.sndbuf.length < s.capacity) .undefined
  return { s with sndbuf := s.sndbuf ++ [data] }

/-- What the last byte of the buffer is replaced by. -/
def unescape (data : BitVec 8) : Option (BitVec 8) :=
  if s.sndbuf.getLast? = some ESC then
    if data = ESC_END then some END else if data = ESC_ESC then some ESC else none
  else none

def writeData (data : BitVec 8) : Except Fault Slip :=
  if data = END then .ok (if 0 < s.sndbuf.length then s.sendPacket else s)
  else
    match s.unescape data with
    | some byte => .ok { s with sndbuf := s.sndbuf.dropLast ++ [byte] }
    | none => s.push data

/-- The bytes are transmitted one after another. -/
def transmit (data : List (BitVec 8)) : Except Fault Slip := data.foldlM writeData s

/-! ## Escapes -/

/-- The second byte would be taken for the end of an escape. -/
def Misread (first second : BitVec 8) : Prop :=
  first = ESC ∧ (second = ESC_END ∨ second = ESC_ESC)

instance (first second : BitVec 8) : Decidable (Misread first second) :=
  inferInstanceAs (Decidable (_ ∧ _))

/-- The buffer after a byte of a packet. -/
def collect (buf : List (BitVec 8)) (byte : BitVec 8) : List (BitVec 8) :=
  if buf.getLast? = some ESC ∧ byte = ESC_END then buf.dropLast ++ [END]
  else if buf.getLast? = some ESC ∧ byte = ESC_ESC then buf
  else buf ++ [byte]

/-- The allocated bytes are whole steps and hold the buffer. -/
structure Fits (s : Slip) : Prop where
  steps : sndbufStep ∣ s.capacity
  pos : 0 < s.capacity
  holds : s.sndbuf.length ≤ s.capacity

theorem fits_initial : initial.Fits where
  steps := dvd_refl _
  pos := by decide
  holds := by decide

variable {s}

theorem Fits.sendPacket (hs : s.Fits) : s.sendPacket.Fits := by
  have hcapacity : s.sendPacket.capacity = sndbufStep ∨ s.sendPacket.capacity = s.capacity := by
    unfold Slip.sendPacket
    dsimp only
    split
    · exact .inl rfl
    · exact .inr rfl
  refine ⟨?_, ?_, Nat.zero_le _⟩
  · rcases hcapacity with h | h
    · rw [h]
    · rw [h]
      exact hs.steps
  · rcases hcapacity with h | h
    · rw [h]
      decide
    · rw [h]
      exact hs.pos

theorem sndbuf_grow (s : Slip) : s.grow.sndbuf = s.sndbuf := by
  unfold grow
  split <;> rfl

theorem sent_grow (s : Slip) : s.grow.sent = s.sent := by
  unfold grow
  split <;> rfl

theorem Fits.grow (hs : s.Fits) : s.grow.Fits := by
  unfold Slip.grow
  split
  case isTrue hfull =>
    exact ⟨Nat.dvd_add (Nat.dvd_of_mod_eq_zero hfull.2) (dvd_refl _), Nat.add_pos_right _ (by decide),
      Nat.le_add_right _ _⟩
  case isFalse => exact hs

/-- There is room for a byte. -/
theorem Fits.lt_capacity_grow (hs : s.Fits) : s.sndbuf.length < s.grow.capacity := by
  unfold Slip.grow
  split
  case isTrue => exact Nat.lt_add_of_pos_right (by decide)
  case isFalse hfull =>
    refine lt_of_le_of_ne hs.holds fun h ↦ hfull ⟨?_, ?_⟩
    · rw [h]
      exact hs.pos.ne'
    · rw [h]
      exact Nat.mod_eq_zero_of_dvd hs.steps

/-- A byte is always written to an allocated one. -/
theorem push_eq (hs : s.Fits) (data : BitVec 8) : ∃ capacity,
    s.push data = .ok ⟨s.sndbuf ++ [data], capacity, s.sent⟩ ∧
      (Slip.mk (s.sndbuf ++ [data]) capacity s.sent).Fits := by
  have hroom := hs.lt_capacity_grow
  refine ⟨s.grow.capacity, ?_, hs.grow.steps, hs.grow.pos, ?_⟩
  · unfold push
    dsimp only
    rw [sndbuf_grow, sent_grow, check_of hroom]
    rfl
  · rw [List.length_append]
    exact hroom

theorem Fits.replace (hs : s.Fits) {buf : List (BitVec 8)} (h : buf.length ≤ s.sndbuf.length) :
    ({ s with sndbuf := buf } : Slip).Fits :=
  ⟨hs.steps, hs.pos, h.trans hs.holds⟩

theorem length_dropLast_append (h : s.sndbuf.getLast? = some ESC) (byte : BitVec 8) :
    (s.sndbuf.dropLast ++ [byte]).length = s.sndbuf.length := by
  have hne : s.sndbuf ≠ [] := by
    intro hnil
    rw [hnil] at h
    cases h
  rw [List.length_append, List.length_dropLast]
  exact Nat.sub_add_cancel (List.length_pos_of_ne_nil hne)

theorem getLast?_of_unescape {data byte : BitVec 8} (h : s.unescape data = some byte) :
    s.sndbuf.getLast? = some ESC := by
  unfold unescape at h
  split at h
  case isTrue hlast => exact hlast
  case isFalse => cases h

/-- Every byte is taken. -/
theorem writeData_spec (hs : s.Fits) (data : BitVec 8) :
    ∃ s', s.writeData data = .ok s' ∧ s'.Fits := by
  unfold writeData
  split
  case isTrue =>
    split
    case isTrue => exact ⟨_, rfl, hs.sendPacket⟩
    case isFalse => exact ⟨_, rfl, hs⟩
  case isFalse =>
    split
    case h_1 byte hbyte =>
      exact ⟨_, rfl, hs.replace (length_dropLast_append (getLast?_of_unescape hbyte) byte).le⟩
    case h_2 =>
      obtain ⟨capacity, hpush, hfits⟩ := push_eq hs data
      exact ⟨_, hpush, hfits⟩

theorem fits_of_transmit {s' : Slip} (hs : s.Fits) (data : List (BitVec 8))
    (h : s.transmit data = .ok s') : s'.Fits := by
  refine invariant_of_foldlM (fun s byte s' hs hbyte ↦ ?_) data hs h
  obtain ⟨s₁, heq, hfits⟩ := writeData_spec hs byte
  cases heq.symm.trans hbyte
  exact hfits

/-! ## Packets -/

theorem transmit_append (data rest : List (BitVec 8)) :
    s.transmit (data ++ rest) = s.transmit data >>= fun s' ↦ s'.transmit rest :=
  List.foldlM_append

theorem transmit_singleton (data : BitVec 8) : s.transmit [data] = s.writeData data := by
  rw [transmit, List.foldlM_cons]
  exact bind_pure _

/-- The escape of a byte is pushed and then replaced. -/
theorem transmit_escaped (hs : s.Fits) {code byte : BitVec 8}
    (hcode : code = ESC_END ∧ byte = END ∨ code = ESC_ESC ∧ byte = ESC) :
    ∃ capacity, s.transmit [ESC, code] = .ok ⟨s.sndbuf ++ [byte], capacity, s.sent⟩ ∧
      (Slip.mk (s.sndbuf ++ [byte]) capacity s.sent).Fits := by
  obtain ⟨capacity, hpush, hfits⟩ := push_eq hs ESC
  have hnone : s.unescape ESC = none := by
    unfold unescape
    split <;> rfl
  have hfirst : s.writeData ESC = .ok ⟨s.sndbuf ++ [ESC], capacity, s.sent⟩ := by
    rw [writeData, if_neg (by decide), hnone]
    exact hpush
  have hlast : (Slip.mk (s.sndbuf ++ [ESC]) capacity s.sent).unescape code = some byte := by
    rw [unescape, if_pos List.getLast?_concat]
    rcases hcode with ⟨rfl, rfl⟩ | ⟨rfl, rfl⟩ <;> rfl
  have hsecond : (Slip.mk (s.sndbuf ++ [ESC]) capacity s.sent).writeData code =
      .ok ⟨s.sndbuf ++ [byte], capacity, s.sent⟩ := by
    have hend : code ≠ END := by
      rcases hcode with ⟨rfl, -⟩ | ⟨rfl, -⟩ <;> decide
    rw [writeData, if_neg hend, hlast]
    dsimp only
    rw [List.dropLast_concat]
  refine ⟨capacity, ?_, hfits.replace ?_⟩
  · calc s.transmit [ESC, code]
        = s.writeData ESC >>= fun s' ↦ s'.transmit [code] := List.foldlM_cons
      _ = (Slip.mk (s.sndbuf ++ [ESC]) capacity s.sent).transmit [code] := by
        rw [hfirst]
        rfl
      _ = .ok ⟨s.sndbuf ++ [byte], capacity, s.sent⟩ := by
        rw [transmit_singleton]
        exact hsecond
  · rw [List.length_append, List.length_append]
    exact le_rfl

theorem collect_of_ne {buf : List (BitVec 8)} {byte : BitVec 8} (hend : byte ≠ ESC_END)
    (hesc : byte ≠ ESC_ESC) : collect buf byte = buf ++ [byte] := by
  rw [collect, if_neg fun h ↦ hend h.2, if_neg fun h ↦ hesc h.2]

theorem length_collect_le (buf : List (BitVec 8)) (byte : BitVec 8) :
    (collect buf byte).length ≤ buf.length + 1 := by
  unfold collect
  split
  · rw [List.length_append, List.length_dropLast]
    exact Nat.add_le_add_right (Nat.sub_le _ _) 1
  · split
    · exact Nat.le_succ _
    · exact List.length_append.le

theorem collect_ne_nil (buf : List (BitVec 8)) (byte : BitVec 8) : collect buf byte ≠ [] := by
  unfold collect
  split
  case isTrue => exact List.append_ne_nil_of_right_ne_nil _ (List.cons_ne_nil _ _)
  case isFalse =>
    split
    case isTrue h =>
      intro hnil
      rw [hnil] at h
      cases h.1
    case isFalse => exact List.append_ne_nil_of_right_ne_nil _ (List.cons_ne_nil _ _)

/-- A byte that is not escaped is collected. -/
theorem writeData_eq_collect (hs : s.Fits) {byte : BitVec 8} (hend : byte ≠ END) : ∃ capacity,
    s.writeData byte = .ok ⟨collect s.sndbuf byte, capacity, s.sent⟩ ∧
      (Slip.mk (collect s.sndbuf byte) capacity s.sent).Fits := by
  rw [writeData, if_neg hend]
  by_cases hlast : s.sndbuf.getLast? = some ESC
  · by_cases hescEnd : byte = ESC_END
    · have hunescape : s.unescape byte = some END := by
        rw [unescape, if_pos hlast, if_pos hescEnd]
      rw [hunescape, collect, if_pos ⟨hlast, hescEnd⟩]
      exact ⟨s.capacity, rfl, hs.replace (length_dropLast_append hlast END).le⟩
    · by_cases hescEsc : byte = ESC_ESC
      · have hunescape : s.unescape byte = some ESC := by
          rw [unescape, if_pos hlast, if_neg hescEnd, if_pos hescEsc]
        rw [hunescape, collect, if_neg fun h ↦ hescEnd h.2, if_pos ⟨hlast, hescEsc⟩]
        refine ⟨s.capacity, ?_, hs⟩
        dsimp only
        rw [List.dropLast_append_getLast? ESC hlast]
      · have hunescape : s.unescape byte = none := by
          rw [unescape, if_pos hlast, if_neg hescEnd, if_neg hescEsc]
        rw [hunescape, collect_of_ne hescEnd hescEsc]
        exact push_eq hs byte
  · have hunescape : s.unescape byte = none := if_neg hlast
    rw [hunescape, collect, if_neg fun h ↦ hlast h.1, if_neg fun h ↦ hlast h.1]
    exact push_eq hs byte

/-- A byte of a packet is collected. -/
theorem transmit_escape (hs : s.Fits) (byte : BitVec 8) : ∃ capacity,
    s.transmit (escape byte) = .ok ⟨collect s.sndbuf byte, capacity, s.sent⟩ ∧
      (Slip.mk (collect s.sndbuf byte) capacity s.sent).Fits := by
  unfold escape
  split
  case isTrue h =>
    subst h
    rw [collect_of_ne (by decide) (by decide)]
    exact transmit_escaped hs (.inl ⟨rfl, rfl⟩)
  case isFalse hend =>
    split
    case isTrue h =>
      subst h
      rw [collect_of_ne (by decide) (by decide)]
      exact transmit_escaped hs (.inr ⟨rfl, rfl⟩)
    case isFalse =>
      rw [transmit_singleton]
      exact writeData_eq_collect hs hend

theorem transmit_escapes (hs : s.Fits) (packet : List (BitVec 8)) : ∃ capacity,
    s.transmit (packet.flatMap escape) = .ok ⟨packet.foldl collect s.sndbuf, capacity, s.sent⟩ ∧
      (Slip.mk (packet.foldl collect s.sndbuf) capacity s.sent).Fits := by
  induction packet generalizing s with
  | nil => exact ⟨s.capacity, rfl, hs⟩
  | cons byte packet ih =>
    obtain ⟨capacity, hfirst, hfits⟩ := transmit_escape hs byte
    obtain ⟨capacity', hrest, hfits'⟩ := ih hfits
    refine ⟨capacity', ?_, hfits'⟩
    rw [List.flatMap_cons, transmit_append, hfirst]
    exact hrest

theorem foldl_collect_ne_nil {packet : List (BitVec 8)} (h : packet ≠ []) :
    packet.foldl collect [] ≠ [] := by
  induction packet using List.reverseRecOn with
  | nil => exact absurd rfl h
  | append_singleton packet byte _ =>
    rw [List.foldl_append]
    exact collect_ne_nil _ byte

/-- A packet is sent as it has been collected. -/
theorem transmit_handleInput (hs : s.Fits) (hempty : s.sndbuf = []) {packet : List (BitVec 8)}
    (h : packet ≠ []) : ∃ capacity, s.transmit (handleInput packet) =
      .ok ⟨[], capacity, s.sent ++ [packet.foldl collect []]⟩ := by
  obtain ⟨capacity, hescapes, -⟩ := transmit_escapes hs packet
  rw [hempty] at hescapes
  rw [handleInput, transmit_append, hescapes]
  have hpos : 0 < (packet.foldl collect []).length :=
    List.length_pos_of_ne_nil (foldl_collect_ne_nil h)
  refine ⟨(Slip.mk (packet.foldl collect []) capacity s.sent).sendPacket.capacity, ?_⟩
  change (Slip.mk (packet.foldl collect []) capacity s.sent).transmit [END] = _
  rw [transmit_singleton, writeData, if_pos rfl, if_pos hpos]
  rfl

theorem transmit_packets (hs : s.Fits) (hempty : s.sndbuf = []) (packets : List (List (BitVec 8)))
    (h : ∀ packet ∈ packets, packet ≠ []) : ∃ capacity, s.transmit (packets.flatMap handleInput) =
      .ok ⟨[], capacity, s.sent ++ packets.map fun packet ↦ packet.foldl collect []⟩ := by
  induction packets generalizing s with
  | nil =>
    refine ⟨s.capacity, ?_⟩
    rw [List.map_nil, List.append_nil, ← hempty]
    rfl
  | cons packet packets ih =>
    obtain ⟨capacity, hfirst⟩ := transmit_handleInput hs hempty (h packet List.mem_cons_self)
    obtain ⟨capacity', hrest⟩ := ih (fits_of_transmit hs _ hfirst) rfl
      fun p hp ↦ h p (List.mem_cons_of_mem _ hp)
    refine ⟨capacity', ?_⟩
    rw [List.flatMap_cons, transmit_append, hfirst, List.map_cons]
    refine hrest.trans ?_
    rw [List.append_assoc, List.singleton_append]

theorem length_foldl_collect_le (packet : List (BitVec 8)) :
    (packet.foldl collect []).length ≤ packet.length := by
  induction packet using List.reverseRecOn with
  | nil => exact le_rfl
  | append_singleton packet byte ih =>
    rw [List.foldl_append, List.length_append]
    exact (length_collect_le _ byte).trans (Nat.add_le_add_right ih 1)

/-- A byte that is misread does not make the buffer longer. -/
theorem length_collect_of_misread {buf : List (BitVec 8)} {byte : BitVec 8}
    (hlast : buf.getLast? = some ESC) (h : byte = ESC_END ∨ byte = ESC_ESC) :
    (collect buf byte).length = buf.length := by
  rcases h with rfl | rfl
  · rw [collect, if_pos ⟨hlast, rfl⟩]
    exact length_dropLast_append (s := ⟨buf, 0, []⟩) hlast END
  · rw [collect, if_neg fun h ↦ absurd h.2 (by decide), if_pos ⟨hlast, rfl⟩]

theorem collect_of_not_misread {buf : List (BitVec 8)} {byte : BitVec 8}
    (h : ∀ last ∈ buf.getLast?, ¬ Misread last byte) : collect buf byte = buf ++ [byte] := by
  rw [collect, if_neg fun hend ↦ h ESC hend.1 ⟨rfl, .inl hend.2⟩,
    if_neg fun hesc ↦ h ESC hesc.1 ⟨rfl, .inr hesc.2⟩]

/-- A packet is collected as it is if and only if it is not misread anywhere. -/
theorem foldl_collect_eq_iff (packet : List (BitVec 8)) :
    packet.foldl collect [] = packet ↔
      packet.IsChain fun first second ↦ ¬ Misread first second := by
  induction packet using List.reverseRecOn with
  | nil => exact iff_of_true rfl List.isChain_nil
  | append_singleton packet byte ih =>
    have hchain : (packet ++ [byte]).IsChain (fun first second ↦ ¬ Misread first second) ↔
        packet.foldl collect [] = packet ∧ ∀ last ∈ packet.getLast?, ¬ Misread last byte := by
      rw [List.isChain_append, ih]
      simp only [List.isChain_singleton, true_and, List.head?_cons, Option.mem_def,
        Option.some.injEq, forall_eq']
    rw [hchain, List.foldl_append, List.foldl_cons, List.foldl_nil]
    constructor
    · intro h
      -- the buffer is never longer than the packet, so that no byte of it has been misread
      have hle := length_foldl_collect_le packet
      have hlength := congrArg List.length h
      rw [List.length_append, List.length_singleton] at hlength
      have hread : ∀ last ∈ (packet.foldl collect []).getLast?, ¬ Misread last byte := by
        rintro last hlast ⟨rfl, hbyte⟩
        rw [length_collect_of_misread hlast hbyte] at hlength
        omega
      rw [collect_of_not_misread hread] at h
      have hpacket := List.append_cancel_right h
      rw [hpacket] at hread
      exact ⟨hpacket, hread⟩
    · rintro ⟨hpacket, hread⟩
      rw [hpacket, collect_of_not_misread hread]

/-- From an empty send buffer, transmitting what is received for a sequence of packets sends these
packets and leaves the buffer empty if and only if no packet has an escape byte right before one of the
bytes that end an escape. -/
theorem transmit_packets_iff {data : List (BitVec 8)} (hs : initial.transmit data = .ok s)
    (hempty : s.sndbuf = []) {packets : List (List (BitVec 8))}
    (hpackets : ∀ packet ∈ packets, packet ≠ []) :
    (∃ s', s.transmit (packets.flatMap handleInput) = .ok s' ∧ s'.sndbuf = [] ∧
      s'.sent = s.sent ++ packets) ↔
      ∀ packet ∈ packets, packet.IsChain fun first second ↦ ¬ Misread first second := by
  obtain ⟨capacity, htransmit⟩ :=
    transmit_packets (fits_of_transmit fits_initial data hs) hempty packets hpackets
  have hmap : packets.map (fun packet ↦ packet.foldl collect []) = packets ↔
      ∀ packet ∈ packets, packet.IsChain fun first second ↦ ¬ Misread first second := by
    have hiff := List.map_inj_left (l := packets) (f := fun packet ↦ packet.foldl collect []) (g := id)
    rw [List.map_id] at hiff
    exact hiff.trans (forall₂_congr fun packet _ ↦ foldl_collect_eq_iff packet)
  rw [← hmap]
  constructor
  · rintro ⟨s', h, -, hsent⟩
    cases htransmit.symm.trans h
    exact List.append_cancel_left hsent
  · intro h
    rw [h] at htransmit
    exact ⟨_, htransmit, rfl, rfl⟩

/-- Both special bytes are sent as they are. -/
theorem transmit_packets_special :
    ∃ s', initial.transmit ([[ESC, ESC, END], [END]].flatMap handleInput) = .ok s' ∧
      s'.sndbuf = [] ∧ s'.sent = initial.sent ++ [[ESC, ESC, END], [END]] := by
  have hinitial : initial.transmit [] = .ok initial := rfl
  exact (transmit_packets_iff hinitial rfl (by decide)).mpr (by decide)

/-- The second byte of the packet is taken for the end of an escape. -/
theorem not_transmit_packets : ¬ ∃ s', initial.transmit (handleInput [ESC, ESC_END]) = .ok s' ∧
    s'.sndbuf = [] ∧ s'.sent = initial.sent ++ [[ESC, ESC_END]] := by
  rintro ⟨s', h, -, hsent⟩
  have hwrite := eq_ok_of_isOk (m := initial.transmit (handleInput [ESC, ESC_END])) (by decide) initial
  cases h.symm.trans hwrite
  exact absurd hsent (by decide)

end Slip

end CoverageVP.Platform
