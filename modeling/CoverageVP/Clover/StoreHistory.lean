import CoverageVP.Clover.Concolic

/-!
# The memory after a sequence of stores

Each byte of the memory comes from the latest store that covers its address. A load joins the bytes
of its range: the parts of the loaded value are made of the parts of the bytes. A value has one taint
flag and one optional expression, so that one tainted byte taints the value, and one symbolic byte
makes it symbolic.
-/

namespace CoverageVP.Clover

/-! ## Stores -/

/-- A store whose size in bits is the width of an expression. -/
structure Store where
  addr : BitVec 32
  value : ConcolicValue
  bytesize : Nat
  pos : 0 < bytesize
  width : bytesize * 8 < 2 ^ 32

namespace Store

variable (s : Store)

def apply (m : ConcolicMemory) : ConcolicMemory := m.store s.addr s.value s.bytesize

/-- The store changes the byte at the address. -/
def covers (a : BitVec 32) : Bool := (a - s.addr).toNat < s.bytesize

/-- The value at the size of the store. -/
def extended : ConcolicValue :=
  if s.value.getWidth < s.bytesize * 8 then s.value.zext (s.bytesize * 8) else s.value

/-- The byte that the store leaves at an address that it covers. -/
def byte (a : BitVec 32) : ConcolicValue := s.extended.extract ((a - s.addr).toNat * 8) 8

end Store

namespace ConcolicMemory

/-- The memory in which nothing is stored. -/
def empty : ConcolicMemory where
  data := fun _ ↦ none
  width_data := nofun

/-- The memory after some stores, the first one first. -/
def after (history : List Store) : ConcolicMemory := history.foldl (fun m s ↦ s.apply m) empty

/-- The byte at an address, as the latest store that covers it left it. -/
def latestByte (history : List Store) (a : BitVec 32) : ConcolicValue :=
  match history.reverse.find? (·.covers a) with
  | some s => s.byte a
  | none => Solver.BVC none (.uint8 0#8)

theorem byteAt_apply (m : ConcolicMemory) (s : Store) (a : BitVec 32) :
    (s.apply m).byteAt a = if s.covers a then s.byte a else m.byteAt a := by
  have hsize : s.bytesize ≤ 2 ^ 32 := by
    have hwidth := s.width
    omega
  simp only [Store.apply, Store.covers, Store.byte, Store.extended, decide_eq_true_eq]
  exact m.byteAt_store s.addr a s.value hsize

/-- A store changes no byte outside of its range. -/
theorem byteAt_apply_of_not_covers (m : ConcolicMemory) {s : Store} {a : BitVec 32}
    (h : s.covers a = false) : (s.apply m).byteAt a = m.byteAt a := by
  rw [byteAt_apply, h]
  rfl

/-- The bytes of the memory are those of the latest stores. -/
theorem byteAt_after (history : List Store) (a : BitVec 32) :
    (after history).byteAt a = latestByte history a := by
  induction history using List.reverseRecOn with
  | nil => rfl
  | append_singleton history s ih =>
    have hafter : after (history ++ [s]) = s.apply (after history) := by
      rw [after, List.foldl_append]
      rfl
    rw [hafter, byteAt_apply, latestByte, List.reverse_append, List.reverse_singleton,
      List.singleton_append, List.find?_cons]
    cases s.covers a with
    | true => rfl
    | false => exact ih

/-! ## Loads -/

section Loads

variable {m : ConcolicMemory} {addr : BitVec 32} {n : Nat} {value : ConcolicValue}
  (h : m.load addr n = some value)

include h

/-- The parts of a loaded value are made of the parts of its bytes. -/
theorem part_load (part : ConcolicValue → BV)
    (hconcat : ∀ a b, part (a.concat b) = BinOp.Concat.eval (part a) (part b))
    (hwidth : ∀ a, (part (m.byteAt a)).width = 8) :
    (part value).width = n * 8 ∧ ∀ i < n,
      (part value).extract (i * 8) 8 = part (m.byteAt (addr + BitVec.ofNat 32 i)) := by
  rw [load_eq_foldl] at h
  have hbytes : ∀ b ∈ (List.range n).map fun off ↦ m.byteAt (addr + BitVec.ofNat 32 off),
      (part b).width = 8 := by
    intro b hb
    obtain ⟨off, -, rfl⟩ := List.mem_map.mp hb
    exact hwidth _
  obtain ⟨hw, hparts⟩ := Solver.foldl_concatByte_part hconcat hbytes h
  rw [List.length_map, List.length_range] at hw
  refine ⟨hw, fun i hi ↦ hparts i _ ?_⟩
  rw [List.getElem?_map, List.getElem?_range hi]
  rfl

/-- A flag that a joined value has if one of its parts has it. -/
theorem flag_load (flag : ConcolicValue → Bool)
    (hconcat : ∀ a b, flag (a.concat b) = (flag a || flag b)) :
    flag value = true ↔ ∃ i < n, flag (m.byteAt (addr + BitVec.ofNat 32 i)) = true := by
  have hfold : ∀ (bytes : List ConcolicValue) (lower value : ConcolicValue),
      bytes.foldl Solver.concatByte (some lower) = some value →
      flag value = (flag lower || bytes.any flag) := by
    intro bytes
    induction bytes with
    | nil =>
      intro lower value hvalue
      cases hvalue
      rw [List.any_nil, Bool.or_false]
    | cons b bytes ih =>
      intro lower value hvalue
      rw [ih (b.concat lower) value hvalue, hconcat, List.any_cons, Bool.or_comm (flag b),
        Bool.or_assoc]
  have hany : flag value = ((List.range n).map fun off ↦
      m.byteAt (addr + BitVec.ofNat 32 off)).any flag := by
    rw [load_eq_foldl] at h
    cases hbytes : (List.range n).map fun off ↦ m.byteAt (addr + BitVec.ofNat 32 off) with
    | nil =>
      rw [hbytes] at h
      cases h
    | cons b bytes =>
      rw [hbytes] at h
      rw [List.any_cons]
      exact hfold bytes b value h
  rw [hany]
  simp

end Loads

end ConcolicMemory

/-! ## Expressions of joined values -/

namespace ConcolicValue

variable (σ : Assignment)

theorem eval_symbolicOrConcrete_concat (a b : ConcolicValue) :
    (a.concat b).symbolicOrConcrete.eval σ =
      BinOp.Concat.eval (a.symbolicOrConcrete.eval σ) (b.symbolicOrConcrete.eval σ) := by
  obtain ⟨ca, sa, ta⟩ := a
  obtain ⟨cb, sb, tb⟩ := b
  cases sa <;> cases sb <;> rfl

theorem eval_symbolicOrConcrete_extract (a : ConcolicValue) (offset width : Nat) :
    (a.extract offset width).symbolicOrConcrete.eval σ =
      (a.symbolicOrConcrete.eval σ).extract offset width := by
  obtain ⟨c, s, t⟩ := a
  cases s <;> rfl

theorem symbolic_isSome_concat (a b : ConcolicValue) :
    (a.concat b).symbolic.isSome = (a.symbolic.isSome || b.symbolic.isSome) := by
  obtain ⟨ca, sa, ta⟩ := a
  obtain ⟨cb, sb, tb⟩ := b
  cases sa <;> cases sb <;> rfl

end ConcolicValue

namespace ConcolicMemory

theorem width_eval_latestByte (σ : Assignment) (history : List Store) (a : BitVec 32) :
    ((latestByte history a).symbolicOrConcrete.eval σ).width = 8 := by
  unfold latestByte
  split
  · rw [Store.byte, ConcolicValue.eval_symbolicOrConcrete_extract]
    rfl
  · rfl

/-- The bytes that a value was joined from: each byte of the value has the concrete part of its
origin and, under every assignment, the value of its expression; the value has an expression, or is
tainted, if one of the bytes is. -/
structure JoinedFrom (n : Nat) (bytes : Nat → ConcolicValue) (value : ConcolicValue) : Prop where
  width : value.getWidth = n * 8
  concrete : ∀ i < n, (value.extract (i * 8) 8).concrete = (bytes i).concrete
  expression : ∀ i < n, ∀ σ, (value.extract (i * 8) 8).symbolicOrConcrete.eval σ =
    (bytes i).symbolicOrConcrete.eval σ
  symbolic : value.symbolic.isSome = true ↔ ∃ i < n, (bytes i).symbolic.isSome = true
  tainted : value.tainted = true ↔ ∃ i < n, (bytes i).tainted = true

/-- A load joins the bytes that the latest stores left in its range, and a store changes no byte
outside of its range. -/
theorem load_after (history : List Store) (addr : BitVec 32) (n : Nat) (hn : 0 < n) :
    (∃ value, (after history).load addr n = some value ∧
      JoinedFrom n (fun i ↦ latestByte history (addr + BitVec.ofNat 32 i)) value) ∧
    ∀ (s : Store) (a : BitVec 32), s.covers a = false →
      (after (history ++ [s])).byteAt a = (after history).byteAt a := by
  obtain ⟨value, hvalue⟩ := Option.isSome_iff_exists.mp ((after history).load_isSome addr hn)
  refine ⟨⟨value, hvalue, ?_⟩, fun s a ha ↦ ?_⟩
  · have hconcrete := part_load hvalue (·.concrete) (fun _ _ ↦ rfl)
      (after history).width_byteAt
    have hexpression : ∀ σ, ∀ i < n, (value.symbolicOrConcrete.eval σ).extract (i * 8) 8 =
        (latestByte history (addr + BitVec.ofNat 32 i)).symbolicOrConcrete.eval σ := by
      intro σ i hi
      rw [← byteAt_after]
      refine (part_load hvalue (·.symbolicOrConcrete.eval σ)
        (ConcolicValue.eval_symbolicOrConcrete_concat σ) fun a ↦ ?_).2 i hi
      rw [byteAt_after]
      exact width_eval_latestByte σ history a
    constructor
    · exact hconcrete.1
    · intro i hi
      rw [← byteAt_after]
      exact hconcrete.2 i hi
    · intro i hi σ
      rw [ConcolicValue.eval_symbolicOrConcrete_extract, hexpression σ i hi]
    · simp only [← byteAt_after]
      exact flag_load hvalue (·.symbolic.isSome) ConcolicValue.symbolic_isSome_concat
    · simp only [← byteAt_after]
      exact flag_load hvalue (·.tainted) fun _ _ ↦ rfl
  · rw [after, List.foldl_append]
    exact byteAt_apply_of_not_covers _ ha

/-- A tainted byte at address zero. -/
def taintedByte : Store where
  addr := 0#32
  value := (Solver.BVC none (.uint8 7#8)).taint
  bytesize := 1
  pos := by decide
  width := by decide

theorem load_after_taintedByte :
    (∃ value, (after [taintedByte]).load 0#32 2 = some value ∧
      JoinedFrom 2 (fun i ↦ latestByte [taintedByte] (0#32 + BitVec.ofNat 32 i)) value) ∧
    ∀ (s : Store) (a : BitVec 32), s.covers a = false →
      (after ([taintedByte] ++ [s])).byteAt a = (after [taintedByte]).byteAt a :=
  load_after [taintedByte] 0#32 2 (by decide)

/-- Loaded together with the tainted byte, the byte that was never stored to is tainted. -/
theorem tainted_byte_of_load :
    latestByte [taintedByte] 1#32 = Solver.BVC none (.uint8 0#8) ∧
      ((after [taintedByte]).load 0#32 2).map (fun value ↦ (value.extract 8 8).tainted) =
        some true := by
  decide

end ConcolicMemory

end CoverageVP.Clover
