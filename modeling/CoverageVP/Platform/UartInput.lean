import CoverageVP.Lib.Sequences

/-!
# Commands on the terminal

The bytes that are typed are forwarded to the guest, except for those after an escape, which are
commands to the simulator.
-/

namespace CoverageVP.Platform

open Lib

/-- Whether the next byte is forwarded or a command. -/
inductive UartState
  | command | normal
  deriving DecidableEq, Repr

/-- The state of the input, and the bytes that have been forwarded. -/
structure UartInput where
  state : UartState
  rx : List (BitVec 8)

/-- The simulator has been left. -/
inductive Exit
  | success
  deriving DecidableEq, Repr

namespace UartInput

/-- The character of a control key. -/
def ctrl (c : Char) : BitVec 8 := BitVec.ofNat 8 c.toNat &&& 0x1F#8

def keyEsc : BitVec 8 := ctrl 'a'

def keyExit : BitVec 8 := ctrl 'x'

def initial : UartInput := ⟨.normal, []⟩

variable (s : UartInput)

def rxpush (data : BitVec 8) : UartInput := { s with rx := s.rx ++ [data] }

def handleCmd (cmd : BitVec 8) : Except Exit UartInput :=
  if cmd = keyEsc then .ok (s.rxpush cmd)
  else if cmd = keyExit then .error .success
  else .ok s

def handleInput (buf : BitVec 8) : Except Exit UartInput := do
  let s' ← (match s.state with
    | .normal => .ok (s.rxpush buf)
    | .command => s.handleCmd buf)
  return { s' with state := if buf = keyEsc ∧ s.state ≠ .command then .command else .normal }

/-! ## Escapes -/

/-- What a stream is to the guest: an escape before another one stands for one of them, and an escape
before another byte for nothing. An escape at the end waits for its byte. -/
def resolve : List (BitVec 8) → List (BitVec 8)
  | [] => []
  | [byte] => if byte = keyEsc then [] else [byte]
  | byte :: next :: stream =>
    if byte = keyEsc then (if next = keyEsc then [keyEsc] else []) ++ resolve stream
    else byte :: resolve (next :: stream)

/-- A stream does not contain the command to leave the simulator. -/
def ExitFree : List (BitVec 8) → Prop
  | [] => True
  | [_] => True
  | byte :: next :: stream =>
    if byte = keyEsc then next ≠ keyExit ∧ ExitFree stream else ExitFree (next :: stream)

/-- What is forwarded for a stream: an escape in addition to what the bytes after it stand for. -/
def forwarded : List (BitVec 8) → List (BitVec 8)
  | [] => []
  | [byte] => [byte]
  | byte :: next :: stream =>
    if byte = keyEsc then keyEsc :: (if next = keyEsc then [keyEsc] else []) ++ forwarded stream
    else byte :: forwarded (next :: stream)

variable {s} {rx : List (BitVec 8)}

theorem handleInput_escape : handleInput ⟨.normal, rx⟩ keyEsc = .ok ⟨.command, rx ++ [keyEsc]⟩ := rfl

theorem handleInput_of_ne {byte : BitVec 8} (h : byte ≠ keyEsc) :
    handleInput ⟨.normal, rx⟩ byte = .ok ⟨.normal, rx ++ [byte]⟩ := by
  rw [handleInput, if_neg fun h' ↦ h h'.1]
  rfl

theorem handleInput_command {byte : BitVec 8} (h : byte ≠ keyExit) :
    handleInput ⟨.command, rx⟩ byte =
      .ok ⟨.normal, rx ++ if byte = keyEsc then [keyEsc] else []⟩ := by
  rw [handleInput, if_neg fun h' ↦ h'.2 rfl]
  dsimp only
  rw [handleCmd, if_neg h]
  split
  case isTrue hesc =>
    subst hesc
    rfl
  case isFalse =>
    rw [List.append_nil]
    rfl

/-- A stream without the command to leave the simulator is forwarded. -/
theorem foldlM_handleInput (stream : List (BitVec 8)) (h : ExitFree stream) (rx : List (BitVec 8)) :
    ∃ state, stream.foldlM handleInput ⟨.normal, rx⟩ = .ok ⟨state, rx ++ forwarded stream⟩ := by
  induction stream using forwarded.induct generalizing rx with
  | case1 => exact ⟨.normal, by rw [forwarded, List.append_nil]; rfl⟩
  | case2 byte =>
    by_cases hesc : byte = keyEsc
    · subst hesc
      exact ⟨.command, rfl⟩
    · refine ⟨.normal, ?_⟩
      rw [List.foldlM_cons, handleInput_of_ne hesc]
      rfl
  | case3 next stream ih =>
    rw [ExitFree, if_pos rfl] at h
    obtain ⟨state, hstate⟩ := ih h.2 (rx ++ [keyEsc] ++ if next = keyEsc then [keyEsc] else [])
    refine ⟨state, ?_⟩
    rw [List.foldlM_cons, handleInput_escape]
    change (next :: stream).foldlM handleInput ⟨.command, rx ++ [keyEsc]⟩ = _
    rw [List.foldlM_cons, handleInput_command h.1]
    refine hstate.trans ?_
    rw [forwarded, if_pos rfl, List.append_assoc, List.append_assoc]
    rfl
  | case4 byte next stream hesc ih =>
    rw [ExitFree, if_neg hesc] at h
    obtain ⟨state, hstate⟩ := ih h (rx ++ [byte])
    refine ⟨state, ?_⟩
    rw [List.foldlM_cons, handleInput_of_ne hesc]
    refine hstate.trans ?_
    rw [forwarded, if_neg hesc, List.append_assoc]
    rfl

/-- An escape is forwarded in addition. -/
theorem length_resolve_le (stream : List (BitVec 8)) :
    (resolve stream).length ≤ (forwarded stream).length := by
  induction stream using forwarded.induct with
  | case1 => exact Nat.le_refl _
  | case2 byte =>
    rw [resolve, forwarded]
    split
    · exact Nat.zero_le _
    · exact Nat.le_refl _
  | case3 next stream ih =>
    rw [resolve, forwarded, if_pos rfl, if_pos rfl, List.cons_append, List.length_cons,
      List.length_append, List.length_append]
    omega
  | case4 byte next stream hesc ih =>
    rw [resolve, forwarded, if_neg hesc, if_neg hesc, List.length_cons, List.length_cons]
    exact Nat.add_le_add_right ih 1

/-- What is forwarded is what the stream stands for if and only if it has no escape. -/
theorem forwarded_eq_resolve_iff (stream : List (BitVec 8)) :
    forwarded stream = resolve stream ↔ keyEsc ∉ stream := by
  induction stream using forwarded.induct with
  | case1 => exact iff_of_true rfl List.not_mem_nil
  | case2 byte =>
    rw [resolve, forwarded, List.mem_singleton]
    by_cases hesc : byte = keyEsc
    · rw [if_pos hesc]
      exact iff_of_false (List.cons_ne_nil _ _) fun h ↦ h hesc.symm
    · rw [if_neg hesc]
      exact iff_of_true rfl fun h ↦ hesc h.symm
  | case3 next stream ih =>
    refine iff_of_false (fun h ↦ ?_) fun h ↦ h List.mem_cons_self
    have hle := length_resolve_le stream
    have hlength := congrArg List.length h
    rw [resolve, forwarded, if_pos rfl, if_pos rfl, List.cons_append, List.length_cons,
      List.length_append, List.length_append] at hlength
    omega
  | case4 byte next stream hesc ih =>
    rw [resolve, forwarded, if_neg hesc, if_neg hesc, List.cons.injEq, List.mem_cons, not_or]
    refine ⟨fun h ↦ ⟨fun heq ↦ hesc heq.symm, ih.mp h.2⟩, fun h ↦ ⟨rfl, ih.mpr h.2⟩⟩

/-- The bytes that are delivered for a stream without the command to leave the simulator are the stream
with its escapes resolved if and only if it has no escape. -/
theorem delivers_iff_escapeFree {stream : List (BitVec 8)} (h : ExitFree stream) :
    (∃ s', stream.foldlM handleInput initial = .ok s' ∧ s'.rx = resolve stream) ↔
      keyEsc ∉ stream := by
  obtain ⟨state, hstate⟩ := foldlM_handleInput stream h []
  rw [← forwarded_eq_resolve_iff]
  constructor
  · rintro ⟨s', hs', hrx⟩
    cases hstate.symm.trans hs'
    exact hrx
  · intro heq
    exact ⟨_, hstate, heq⟩

theorem delivers_ordinary :
    ∃ s', [0x68#8, 0x69#8].foldlM handleInput initial = .ok s' ∧ s'.rx = resolve [0x68#8, 0x69#8] :=
  (delivers_iff_escapeFree (by simp [ExitFree, keyEsc, ctrl])).mpr (by decide)

/-- An escape before another one is forwarded twice. -/
theorem not_delivers_escapes : ExitFree [keyEsc, keyEsc] ∧
    ¬ ∃ s', [keyEsc, keyEsc].foldlM handleInput initial = .ok s' ∧
      s'.rx = resolve [keyEsc, keyEsc] := by
  refine ⟨⟨by decide, trivial⟩, ?_⟩
  rintro ⟨s', h, hrx⟩
  have htwo : [keyEsc, keyEsc].foldlM handleInput initial = .ok ⟨.normal, [keyEsc, keyEsc]⟩ := rfl
  cases htwo.symm.trans h
  exact absurd hrx (by decide)

end UartInput

end CoverageVP.Platform
