import CoverageVP.Klee.Simplifying

/-!
# The expressions of the engine

The operators of a concolic value are operations of the builder of the solver, on constants for the
concrete half and on any expressions for the symbolic one. `construct` calls the builder along an
expression of the engine. What it returns represents that expression: it is well typed, it has the
value the engine ascribes to the expression, it reads no other arrays, and its comparisons are of
the kinds that the translation to the core solver treats.
-/

namespace CoverageVP.Klee

open Clover (BV SymArray Assignment BinOp)
open Klee.Expr

/-! ## Reads -/

/-- The concatenation of the bytes of an array up to the one at `last`, the most significant byte
first. -/
def readBytes (array : SymArray) : (last : Nat) → Expr
  | 0 => .read array 0
  | last + 1 => ConcatExpr.create (.read array (last + 1)) (readBytes array last)

/-- `Expr::createTempRead`, for the width of the whole array. Other widths fail an assertion. -/
def createTempRead (array : SymArray) : Option Expr :=
  if array.size ∈ [1, 2, 4, 8] then some (readBytes array (array.size - 1)) else none

/-! ## Constructing an expression -/

namespace ExprBuilder

/-- The operation of the builder that an operator of a concolic value calls. -/
def binary (b : ExprBuilder) : BinOp → Expr → Expr → Expr
  | .Eq => b.comparison .Eq
  | .Ne => b.comparison .Ne
  | .Shl => b.arithmetic .Shl
  | .LShr => b.arithmetic .LShr
  | .AShr => b.arithmetic .AShr
  | .Add => b.arithmetic .Add
  | .Mul => b.arithmetic .Mul
  | .UDiv => b.arithmetic .UDiv
  | .SDiv => b.arithmetic .SDiv
  | .URem => b.arithmetic .URem
  | .SRem => b.arithmetic .SRem
  | .Sub => b.arithmetic .Sub
  | .Slt => b.comparison .Slt
  | .Sge => b.comparison .Sge
  | .Ult => b.comparison .Ult
  | .Uge => b.comparison .Uge
  | .And => b.arithmetic .And
  | .Or => b.arithmetic .Or
  | .Xor => b.arithmetic .Xor
  | .Concat => b.concat

def construct (b : ExprBuilder) : Clover.Expr → Option Expr
  | .constant value => some (constant value)
  | .read array => createTempRead array
  | .binary op l r => do return b.binary op (← b.construct l) (← b.construct r)
  | .not e => do return b.not (← b.construct e)
  | .extract e offset width => do return b.extract (← b.construct e) offset width
  | .sext e width => do return b.sext (← b.construct e) width
  | .zext e width => do return b.zext (← b.construct e) width

end ExprBuilder

def IsDivision (op : BinOp) : Prop := op ∈ [BinOp.UDiv, BinOp.SDiv, BinOp.URem, BinOp.SRem]

instance : DecidablePred IsDivision := fun _ ↦ inferInstanceAs (Decidable (_ ∈ _))

def IsDelicate (width : Nat) (op : BinOp) : Prop :=
  op = .AShr ∨ op ∈ [BinOp.Shl, BinOp.LShr] ∧ 32 < width

instance (width : Nat) : DecidablePred (IsDelicate width) :=
  fun _ ↦ inferInstanceAs (Decidable (_ ∨ _))

/-- The expressions that the assertions of the library admit. -/
def Typed : Clover.Expr → Prop
  | .constant value => 0 < value.width
  | .read array => array.size ∈ [1, 2, 4, 8]
  | .binary op l r => Typed l ∧ Typed r ∧ (op ≠ .Concat → l.getWidth = r.getWidth) ∧
      (IsDivision op → l.getWidth ≠ 1)
  | .not e => Typed e
  | .extract e offset width => Typed e ∧ 0 < width ∧ offset + width ≤ e.getWidth
  | .sext e width | .zext e width => Typed e ∧ e.getWidth ≤ width

/-- The bytes an expression of the engine reads, and whether it divides or shifts in a
delicate way. -/
def partsOf : Clover.Expr → List Part
  | .constant _ => []
  | .read array => (List.range array.size).map (.byte array)
  | .binary op l r => (if IsDivision op then [.division] else []) ++
      ((if IsDelicate l.getWidth op then [.delicateShift] else []) ++ (partsOf l ++ partsOf r))
  | .not e | .extract e _ _ | .sext e _ | .zext e _ => partsOf e

structure Represents (e : Expr) (e₀ : Clover.Expr) : Prop where
  wellTyped : e.WellTyped
  eval_eq : ∀ σ, e.eval σ = e₀.eval σ
  parts_subset : ∀ part ∈ e.parts, part ∈ partsOf e₀

namespace Represents

variable {e l r : Expr} {e₀ l₀ r₀ : Clover.Expr}

theorem getWidth_eq (h : Represents e e₀) : e.getWidth = e₀.getWidth := by
  have hwidth := congrArg BV.width (h.eval_eq fun _ ↦ 0)
  rwa [Clover.Expr.width_eval] at hwidth

theorem of_refines {e' : Expr} (hrefines : Refines (fun _ ↦ True) e' e) (h : Represents e e₀) :
    Represents e' e₀ := by
  have hpreserves := hrefines h.wellTyped
  refine ⟨hpreserves.wellTyped, fun σ ↦ ?_, fun part hpart ↦ ?_⟩
  · exact (hpreserves.eval_eq trivial).trans (h.eval_eq σ)
  · exact h.parts_subset part (hpreserves.parts_subset part hpart)

/-- A value of one width may be demanded at another one. -/
theorem bits_of_getWidth (σ : Assignment) {w : Nat} (h : r.getWidth = w) :
    (r.bits σ r.getWidth).setWidth w = r.bits σ w := by
  subst h
  exact BitVec.setWidth_eq _

theorem mem_partsOf_binary (op : BinOp) {part : Part} (h : part ∈ partsOf l₀ ∨ part ∈ partsOf r₀) :
    part ∈ partsOf (.binary op l₀ r₀) :=
  List.mem_append_right _ (List.mem_append_right _ (List.mem_append.mpr h))

theorem arithmetic {kind : ArithmeticKind} {op : BinOp} (hl : Represents l l₀)
    (hr : Represents r r₀) (hwidth : l₀.getWidth = r₀.getWidth)
    (hdivision : IsDivision op → l₀.getWidth ≠ 1) (hkind : kind.IsDivision → IsDivision op)
    (hshift : ∀ width, kind.IsDelicate width → IsDelicate width op)
    (hop : ∀ a b : BV, op.eval a b = ⟨a.width, kind.apply a.bits (b.bits.setWidth a.width)⟩) :
    Represents (.arithmetic kind l r) (.binary op l₀ r₀) := by
  have hlr : l.getWidth = r.getWidth := hl.getWidth_eq.trans (hwidth.trans hr.getWidth_eq.symm)
  refine ⟨⟨hl.wellTyped, hr.wellTyped, hlr, fun h ↦ ?_⟩, fun σ ↦ ?_, fun part hpart ↦ ?_⟩
  · exact hl.getWidth_eq ▸ hdivision (hkind h)
  · rw [Clover.Expr.eval, ← hl.eval_eq, ← hr.eval_eq, hop]
    simp only [eval, getWidth, bits, bits_of_getWidth σ hlr.symm]
  · rcases mem_addArithmetic.mp hpart with ⟨rfl, h⟩ | ⟨rfl, h⟩ | h
    · refine List.mem_append_left _ ?_
      rw [if_pos (hkind h)]
      exact List.mem_singleton_self _
    · refine List.mem_append_right _ (List.mem_append_left _ ?_)
      rw [if_pos (hshift _ (hl.getWidth_eq ▸ h))]
      exact List.mem_singleton_self _
    · exact mem_partsOf_binary op
        ((List.mem_append.mp h).imp (hl.parts_subset part) (hr.parts_subset part))

/-- A comparison of the builder has the value of the plain one. -/
theorem comparison {e : Expr} {kind : CmpKind} {op : BinOp}
    (hrefines : Refines (fun _ ↦ True) e (.comparison kind l r))
    (hparts : (Expr.comparison kind l r).WellTyped → ∀ part ∈ e.parts,
      part ∈ l.parts ∨ part ∈ r.parts)
    (hl : Represents l l₀) (hr : Represents r r₀) (hwidth : l₀.getWidth = r₀.getWidth)
    (hop : ∀ a b : BV, op.eval a b = .ofBool (kind.apply a.bits (b.bits.setWidth a.width))) :
    Represents e (.binary op l₀ r₀) := by
  have hlr : l.getWidth = r.getWidth := hl.getWidth_eq.trans (hwidth.trans hr.getWidth_eq.symm)
  have htyped : (Expr.comparison kind l r).WellTyped := ⟨hl.wellTyped, hr.wellTyped, hlr⟩
  have hpreserves := hrefines htyped
  refine ⟨hpreserves.wellTyped, fun σ ↦ ?_, fun part hpart ↦ ?_⟩
  · rw [hpreserves.eval_eq trivial, Clover.Expr.eval, ← hl.eval_eq, ← hr.eval_eq, hop]
    simp only [eval, getWidth, bits, bits_of_getWidth σ hlr.symm, BitVec.setWidth_eq]
    rfl
  · exact mem_partsOf_binary op
      ((hparts htyped part hpart).imp (hl.parts_subset part) (hr.parts_subset part))

theorem concat (hl : Represents l l₀) (hr : Represents r r₀) :
    Represents (.concat l r) (.binary .Concat l₀ r₀) := by
  refine ⟨⟨hl.wellTyped, hr.wellTyped⟩, fun σ ↦ ?_, fun part hpart ↦ ?_⟩
  · rw [Clover.Expr.eval, ← hl.eval_eq, ← hr.eval_eq]
    simp only [eval, getWidth, bits, BinOp.eval, BitVec.setWidth_eq]
    rfl
  · exact mem_partsOf_binary .Concat
      ((List.mem_append.mp hpart).imp (hl.parts_subset part) (hr.parts_subset part))

theorem not (h : Represents e e₀) : Represents (.not e) (.not e₀) := by
  refine ⟨h.wellTyped, fun σ ↦ ?_, h.parts_subset⟩
  rw [Clover.Expr.eval, ← h.eval_eq]
  rfl

theorem extract {offset width : Nat} (h : Represents e e₀) (hpos : 0 < width)
    (hle : offset + width ≤ e₀.getWidth) :
    Represents (.extract e offset width) (.extract e₀ offset width) := by
  refine ⟨⟨h.wellTyped, hpos, h.getWidth_eq ▸ hle⟩, fun σ ↦ ?_, h.parts_subset⟩
  rw [Clover.Expr.eval, ← h.eval_eq]
  simp only [eval, getWidth, bits, BV.extract, BitVec.setWidth_eq]

theorem zext {width : Nat} (h : Represents e e₀) (hle : e₀.getWidth ≤ width) :
    Represents (.zext e width) (.zext e₀ width) := by
  refine ⟨⟨h.wellTyped, h.getWidth_eq ▸ hle⟩, fun σ ↦ ?_, h.parts_subset⟩
  rw [Clover.Expr.eval, ← h.eval_eq]
  simp only [eval, getWidth, bits, BV.zext, BitVec.setWidth_eq]

theorem sext {width : Nat} (h : Represents e e₀) (hle : e₀.getWidth ≤ width) :
    Represents (.sext e width) (.sext e₀ width) := by
  refine ⟨⟨h.wellTyped, h.getWidth_eq ▸ hle⟩, fun σ ↦ ?_, h.parts_subset⟩
  rw [Clover.Expr.eval, ← h.eval_eq]
  simp only [eval, getWidth, bits, BV.sext, BitVec.setWidth_eq]

end Represents

/-! ## The reads -/

/-- A chain of bytes holds the low bits of the array. -/
theorem readBytes_spec (array : SymArray) {last : Nat} (hlast : last < array.size) :
    (readBytes array last).WellTyped ∧ (readBytes array last).getWidth = 8 * (last + 1) ∧
      (∀ σ i, i < 8 * (last + 1) →
        ((readBytes array last).bits σ (readBytes array last).getWidth).getLsbD i =
          (σ array).getLsbD i) ∧
      ∀ part ∈ (readBytes array last).parts, ∃ index < array.size, .byte array index = part := by
  induction last with
  | zero =>
    refine ⟨hlast, rfl, fun σ i hi ↦ ?_, fun part h ↦ ⟨0, hlast, (List.mem_singleton.mp h).symm⟩⟩
    have hi : i < 8 := hi
    simp only [readBytes, getWidth, bits, BitVec.setWidth_eq, BitVec.getLsbD_extractLsb', hi,
      decide_true, Bool.true_and, Nat.mul_zero, Nat.zero_add]
  | succ last ih =>
    obtain ⟨htyped, hwidth, hbits, hparts⟩ := ih (by omega)
    have hplain : (concat (.read array (last + 1)) (readBytes array last)).WellTyped :=
      ⟨hlast, htyped⟩
    have hpreserves := (create_refines (P := fun _ ↦ True)).2 _ _ hplain
    have hsum : (readBytes array (last + 1)).getWidth = 8 + (readBytes array last).getWidth :=
      hpreserves.getWidth_eq
    refine ⟨hpreserves.wellTyped, by omega, fun σ i hi ↦ ?_, fun part hpart ↦ ?_⟩
    · have heval := congrArg (fun v : BV ↦ v.bits.getLsbD i) (hpreserves.eval_eq (σ := σ) trivial)
      refine Eq.trans heval ?_
      have hiw : i < (concat (.read array (last + 1)) (readBytes array last)).getWidth := by
        simp only [getWidth]
        omega
      by_cases hlow : i < (readBytes array last).getWidth
      · exact (Refines.getLsbD_bits_concat_right hiw hlow).trans (hbits σ i (by omega))
      · refine (Refines.getLsbD_bits_concat_left hiw (by omega)).trans ?_
        have hbyte : i - (readBytes array last).getWidth < 8 := by omega
        simp only [getWidth, bits, BitVec.setWidth_eq, BitVec.getLsbD_extractLsb', hbyte,
          decide_true, Bool.true_and]
        congr 1
        omega
    · rcases List.mem_append.mp (hpreserves.parts_subset part hpart) with h | h
      · exact ⟨last + 1, hlast, (List.mem_singleton.mp h).symm⟩
      · exact hparts part h

theorem createTempRead_represents {array : SymArray} (h : array.size ∈ [1, 2, 4, 8]) :
    ∃ e, createTempRead array = some e ∧ Represents e (.read array) := by
  have hpos : 0 < array.size := by
    rcases array with ⟨name, size⟩
    simp only [List.mem_cons, List.not_mem_nil, or_false] at h
    change 0 < size
    omega
  obtain ⟨htyped, hwidth, hbits, hparts⟩ := readBytes_spec array (Nat.sub_lt hpos Nat.one_pos)
  have hread (part : Part) (hpart : part ∈ (readBytes array (array.size - 1)).parts) :
      part ∈ partsOf (.read array) := by
    obtain ⟨index, hindex, rfl⟩ := hparts part hpart
    exact List.mem_map_of_mem (List.mem_range.mpr hindex)
  refine ⟨_, if_pos h, htyped, fun σ ↦ ?_, hread⟩
  have hsize : (readBytes array (array.size - 1)).getWidth = 8 * array.size := by omega
  have hvalue : (readBytes array (array.size - 1)).bits σ (8 * array.size) = σ array := by
    apply BitVec.eq_of_getLsbD_eq
    intro i hi
    rw [← hbits σ i (by omega), hsize]
  rw [eval, hsize, hvalue]
  rfl

namespace ExprBuilder

variable {b : ExprBuilder}

/-- An operation of the builder has the meaning of the operator. -/
theorem binary_represents (hb : b.Lawful fun _ ↦ True) (hcanonical : b.Canonical) {op : BinOp}
    {l r : Expr} {l₀ r₀ : Clover.Expr} (hl : Represents l l₀) (hr : Represents r r₀)
    (hwidth : op ≠ .Concat → l₀.getWidth = r₀.getWidth)
    (hdivision : IsDivision op → l₀.getWidth ≠ 1) :
    Represents (b.binary op l r) (.binary op l₀ r₀) := by
  have harithmetic {kind : ArithmeticKind} (hop : ∀ a c : BV,
      op.eval a c = ⟨a.width, kind.apply a.bits (c.bits.setWidth a.width)⟩)
      (hconcat : op ≠ .Concat) (hkind : kind.IsDivision → IsDivision op)
      (hshift : ∀ width, kind.IsDelicate width → IsDelicate width op) :
      Represents (b.arithmetic kind l r) (.binary op l₀ r₀) :=
    (hl.arithmetic hr (hwidth hconcat) hdivision hkind hshift hop).of_refines (hb.arithmetic kind l r)
  have hcomparison {kind : CmpKind} (hop : ∀ a c : BV,
      op.eval a c = .ofBool (kind.apply a.bits (c.bits.setWidth a.width)))
      (hconcat : op ≠ .Concat) : Represents (b.comparison kind l r) (.binary op l₀ r₀) :=
    .comparison (hb.comparison kind l r) (hcanonical kind l r) hl hr (hwidth hconcat) hop
  cases op with
  | Concat => exact (hl.concat hr).of_refines (hb.concat l r)
  | Eq | Ne | Slt | Sge | Ult | Uge => exact hcomparison (fun _ _ ↦ rfl) (by decide)
  | UDiv | SDiv | URem | SRem =>
    exact harithmetic (fun _ _ ↦ rfl) (by decide) (fun _ ↦ by decide) fun _ ↦ False.elim
  | Shl | LShr =>
    exact harithmetic (fun _ _ ↦ rfl) (by decide) False.elim fun _ h ↦ .inr ⟨by decide, h⟩
  | AShr => exact harithmetic (fun _ _ ↦ rfl) (by decide) False.elim fun _ _ ↦ .inl rfl
  | Add | Mul | Sub | And | Or | Xor =>
    exact harithmetic (fun _ _ ↦ rfl) (by decide) False.elim fun _ ↦ False.elim

theorem construct_represents (hb : b.Lawful fun _ ↦ True) (hcanonical : b.Canonical)
    {e₀ : Clover.Expr} (h : Typed e₀) :
    ∃ e, b.construct e₀ = some e ∧ Represents e e₀ := by
  induction e₀ with
  | constant value =>
    exact ⟨constant value, rfl, h, fun σ ↦ congrArg (BV.mk value.width) (BitVec.setWidth_eq _),
      fun array ha ↦ ha⟩
  | read array => exact createTempRead_represents h
  | binary op l r ihl ihr =>
    obtain ⟨htl, htr, hwidth, hdivision⟩ := h
    obtain ⟨l', hl', hl⟩ := ihl htl
    obtain ⟨r', hr', hr⟩ := ihr htr
    refine ⟨b.binary op l' r', ?_, binary_represents hb hcanonical hl hr hwidth hdivision⟩
    rw [construct, hl', hr']
    rfl
  | not e ih =>
    obtain ⟨e', he', he⟩ := ih h
    refine ⟨b.not e', ?_, he.not.of_refines (hb.not e')⟩
    rw [construct, he']
    rfl
  | extract e offset width ih =>
    obtain ⟨e', he', he⟩ := ih h.1
    refine ⟨b.extract e' offset width, ?_, (he.extract h.2.1 h.2.2).of_refines (hb.extract _ _ _)⟩
    rw [construct, he']
    rfl
  | sext e width ih =>
    obtain ⟨e', he', he⟩ := ih h.1
    refine ⟨b.sext e' width, ?_, (he.sext h.2).of_refines (hb.sext _ _)⟩
    rw [construct, he']
    rfl
  | zext e width ih =>
    obtain ⟨e', he', he⟩ := ih h.1
    refine ⟨b.zext e' width, ?_, (he.zext h.2).of_refines (hb.zext _ _)⟩
    rw [construct, he']
    rfl

theorem extract_constant {a : BV} {offset width : Nat} (h : offset + width ≤ a.width) :
    ConstantExpr.extract a offset width = a.extract offset width := by
  refine congrArg (BV.mk width) (BitVec.eq_of_getLsbD_eq fun i hi ↦ ?_)
  have hlt : offset + i < a.width := by omega
  have hia : i < a.width := by omega
  simp only [BitVec.getLsbD_setWidth, BitVec.getLsbD_sshiftRight, BitVec.getLsbD_extractLsb', hi,
    hlt, hia.not_ge, decide_true, decide_false, Bool.true_and, Bool.not_false, if_true]

theorem binary_constant (op : BinOp) (a c : BV) :
    b.constantSpecialized.binary op (constant a) (constant c) = constant (op.eval a c) := by
  cases op <;> rfl

/-- What reads no array is folded to its value. -/
theorem construct_constant {e₀ : Clover.Expr} (h : Typed e₀) (hreads : e₀.findSymbolicObjects = [])
    (σ : Assignment) :
    b.constantSpecialized.construct e₀ = some (constant (e₀.eval σ)) := by
  induction e₀ with
  | constant value => rfl
  | read array => cases hreads
  | binary op l r ihl ihr =>
    obtain ⟨hl, hr⟩ := List.append_eq_nil_iff.mp hreads
    rw [construct, ihl h.1 hl, ihr h.2.1 hr]
    exact congrArg some (binary_constant op _ _)
  | not e ih =>
    rw [construct, ih h hreads]
    rfl
  | extract e offset width ih =>
    have hle : offset + width ≤ (e.eval σ).width := by
      rw [Clover.Expr.width_eval]
      exact h.2.2
    rw [construct, ih h.1 hreads]
    exact congrArg (fun a ↦ some (constant a)) (extract_constant hle)
  | sext e width ih =>
    rw [construct, ih h.1 hreads]
    rfl
  | zext e width ih =>
    rw [construct, ih h.1 hreads]
    rfl

end ExprBuilder

theorem partsOf_binary_cases {op : BinOp} {l r : Clover.Expr} {part : Part}
    (h : part ∈ partsOf (.binary op l r)) :
    part = .division ∨ part = .delicateShift ∨ part ∈ partsOf l ∨ part ∈ partsOf r := by
  simp only [partsOf, List.mem_append, List.mem_ite_nil_right, List.mem_singleton] at h
  exact h.imp And.right (Or.imp_left And.right)

theorem uncanonical_notMem_partsOf (e₀ : Clover.Expr) : .uncanonical ∉ partsOf e₀ := by
  induction e₀ with
  | constant value => exact List.not_mem_nil
  | read array => simp [partsOf]
  | binary op l r ihl ihr =>
    intro h
    rcases partsOf_binary_cases h with h | h | h | h
    · cases h
    · cases h
    · exact ihl h
    · exact ihr h
  | not e ih => exact ih
  | extract e offset width ih => exact ih
  | sext e width ih => exact ih
  | zext e width ih => exact ih

theorem mem_findSymbolicObjects_of_byte {array : SymArray} {index : Nat} {e₀ : Clover.Expr}
    (h : .byte array index ∈ partsOf e₀) : array ∈ e₀.findSymbolicObjects := by
  induction e₀ with
  | constant value => exact absurd h List.not_mem_nil
  | read array' =>
    obtain ⟨i, -, hi⟩ := List.mem_map.mp h
    exact List.mem_singleton.mpr (Part.byte.inj hi).1.symm
  | binary op l r ihl ihr =>
    rcases partsOf_binary_cases h with h | h | h | h
    · cases h
    · cases h
    · exact List.mem_append_left _ (ihl h)
    · exact List.mem_append_right _ (ihr h)
  | not e ih => exact ih h
  | extract e offset width ih => exact ih h
  | sext e width ih => exact ih h
  | zext e width ih => exact ih h

end CoverageVP.Klee
