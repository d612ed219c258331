import CoverageVP.Klee.Refines

/-!
# The rules of the expression constructors

The identities that the constructors and the builders use, as instances of the order of
meaning-preserving rewriting: units and absorbing constants, operations on one bit, comparisons
with a constant, and extractions.
-/

namespace CoverageVP.Klee

open Clover (BV SymArray Assignment)
open Klee.Expr

variable {P : Assignment → Prop}

namespace Refines

/-! ### Units, absorbing constants and order of the operands -/

section Arithmetic

variable {kind kind' : ArithmeticKind} {a : BV} {e l r : Expr}

theorem arithmetic_comm (kind : ArithmeticKind) (hkind : ¬ kind.IsRestricted)
    (happly : ∀ w (x y : BitVec w), kind.apply y x = kind.apply x y) (l r : Expr) :
    Refines P (arithmetic kind r l) (arithmetic kind l r) := by
  refine of_equation (fun w h ↦ ?_) (fun σ w ↦ happly _ _ _) ?_ fun part h ↦ ?_
  · rw [hasWidth_arithmetic hkind] at h ⊢
    exact h.symm
  · simp only [weight]
    omega
  · exact mem_parts_arithmetic_of_mem ((mem_parts_arithmetic hkind).mp h).symm

theorem arithmetic_left (hkind : ¬ kind.IsRestricted)
    (happly : ∀ x : BitVec a.width, kind.apply a.bits x = x) :
    Refines P e (arithmetic kind (constant a) e) := by
  refine of_hasWidth (fun w h ↦ ?_) (fun σ w h ↦ ?_) ?_
    fun part h ↦ mem_parts_arithmetic_of_mem (.inr h)
  · exact ((hasWidth_arithmetic hkind).mp h).2
  · obtain ⟨⟨-, rfl⟩, -⟩ := (hasWidth_arithmetic hkind).mp h
    simp only [bits, getWidth, BitVec.setWidth_eq, happly]
  · simp only [weight]
    omega

theorem arithmetic_absorb (hkind : ¬ kind.IsRestricted)
    (happly : ∀ x : BitVec a.width, kind.apply a.bits x = a.bits) :
    Refines P (constant a) (arithmetic kind (constant a) e) := by
  refine of_hasWidth (fun w h ↦ ?_) (fun σ w h ↦ ?_) ?_
    fun part h ↦ mem_parts_arithmetic_of_mem (.inl h)
  · exact ((hasWidth_arithmetic hkind).mp h).1
  · obtain ⟨⟨-, rfl⟩, -⟩ := (hasWidth_arithmetic hkind).mp h
    simp only [bits, getWidth, BitVec.setWidth_eq, happly]
  · simp only [weight]
    omega

/-- On one bit two operations may agree. -/
theorem arithmetic_bool (kind kind' : ArithmeticKind) (hkind : ¬ kind'.IsRestricted)
    (happly : ∀ x y : BitVec 1, kind'.apply x y = kind.apply x y)
    (hweight : kind'.weight ≤ kind.weight) (hwidth : l.getWidth = 1) :
    Refines P (arithmetic kind' l r) (arithmetic kind l r) := by
  rintro ⟨hl, hr, heq, -⟩
  refine ⟨⟨hl, hr, heq, fun h ↦ absurd h.isRestricted hkind⟩, rfl, fun σ _ ↦ ?_, ?_, fun part h ↦
    mem_parts_arithmetic_of_mem ((mem_parts_arithmetic hkind).mp h)⟩
  · simp only [bits, getWidth]
    rw [hwidth]
    exact happly _ _
  · simp only [weight]
    omega

theorem add_zero (h : ConstantExpr.isZero a = true) :
    Refines P e (arithmetic .Add (constant a) e) := by
  refine arithmetic_left not_false fun x ↦ ?_
  rw [ConstantExpr.bits_of_isZero h]
  exact BitVec.zero_add x

theorem sub_self (e : Expr) :
    Refines P (constant (ConstantExpr.zero e.getWidth)) (arithmetic .Sub e e) := by
  refine of_hasWidth (fun w h ↦ ?_) (fun σ w h ↦ ?_) ?_ fun part h ↦ absurd h List.not_mem_nil
  · have he := ((hasWidth_arithmetic (by decide)).mp h).1
    exact ⟨getWidth_pos he.1, he.2⟩
  · simp only [bits, ArithmeticKind.apply, ConstantExpr.zero, BitVec.setWidth_zero]
    exact (BitVec.sub_self _).symm
  · simp only [weight, ArithmeticKind.weight]
    omega

theorem mul_one (h : ConstantExpr.isOne a = true) :
    Refines P e (arithmetic .Mul (constant a) e) := by
  refine arithmetic_left not_false fun x ↦ ?_
  rw [ConstantExpr.bits_of_isOne h]
  exact BitVec.one_mul x

theorem mul_zero (h : ConstantExpr.isZero a = true) :
    Refines P (constant a) (arithmetic .Mul (constant a) e) := by
  refine arithmetic_absorb not_false fun x ↦ ?_
  rw [ConstantExpr.bits_of_isZero h]
  exact BitVec.zero_mul

theorem and_allOnes (h : ConstantExpr.isAllOnes a = true) :
    Refines P e (arithmetic .And (constant a) e) := by
  refine arithmetic_left not_false fun x ↦ ?_
  rw [ConstantExpr.bits_of_isAllOnes h]
  exact BitVec.allOnes_and

theorem and_zero (h : ConstantExpr.isZero a = true) :
    Refines P (constant a) (arithmetic .And (constant a) e) := by
  refine arithmetic_absorb not_false fun x ↦ ?_
  rw [ConstantExpr.bits_of_isZero h]
  exact BitVec.zero_and

theorem or_allOnes (h : ConstantExpr.isAllOnes a = true) :
    Refines P (constant a) (arithmetic .Or (constant a) e) := by
  refine arithmetic_absorb not_false fun x ↦ ?_
  rw [ConstantExpr.bits_of_isAllOnes h]
  exact BitVec.allOnes_or

theorem or_zero (h : ConstantExpr.isZero a = true) :
    Refines P e (arithmetic .Or (constant a) e) := by
  refine arithmetic_left not_false fun x ↦ ?_
  rw [ConstantExpr.bits_of_isZero h]
  exact BitVec.zero_or

theorem xor_zero (h : ConstantExpr.isZero a = true) :
    Refines P e (arithmetic .Xor (constant a) e) := by
  refine arithmetic_left not_false fun x ↦ ?_
  rw [ConstantExpr.bits_of_isZero h]
  exact BitVec.zero_xor

theorem mul_comm (l r : Expr) : Refines P (arithmetic .Mul r l) (arithmetic .Mul l r) :=
  arithmetic_comm .Mul not_false (fun _ x y ↦ BitVec.mul_comm y x) l r

theorem and_comm (l r : Expr) : Refines P (arithmetic .And r l) (arithmetic .And l r) :=
  arithmetic_comm .And not_false (fun _ x y ↦ BitVec.and_comm y x) l r

theorem or_comm (l r : Expr) : Refines P (arithmetic .Or r l) (arithmetic .Or l r) :=
  arithmetic_comm .Or not_false (fun _ x y ↦ BitVec.or_comm y x) l r

theorem xor_comm (l r : Expr) : Refines P (arithmetic .Xor r l) (arithmetic .Xor l r) :=
  arithmetic_comm .Xor not_false (fun _ x y ↦ BitVec.xor_comm y x) l r

/-- Subtracting a constant is adding its negation. -/
theorem sub_constant :
    Refines P (arithmetic .Add (constant (ConstantExpr.neg a)) e)
      (arithmetic .Sub e (constant a)) := by
  refine of_hasWidth (fun w h ↦ ?_) (fun σ w h ↦ ?_) ?_ fun part h ↦ ?_
  · rw [hasWidth_arithmetic (by decide)] at h ⊢
    exact h.symm
  · obtain ⟨-, -, rfl⟩ := (hasWidth_arithmetic (by decide)).mp h
    simp only [bits, getWidth, ArithmeticKind.apply, ConstantExpr.neg, BitVec.setWidth_eq]
    exact (BitVec.add_comm _ _).trans (BitVec.sub_eq_add_neg _ _).symm
  · simp only [weight, ArithmeticKind.weight]
    omega
  · exact List.mem_append.mpr (List.mem_append.mp h).symm

end Arithmetic

/-! ### Comparisons -/

section Comparisons

variable {kind kind' : CmpKind} {a : BV} {e l r src : Expr} {width : Nat}

theorem comparison_comm (happly : ∀ w (x y : BitVec w), kind'.apply y x = kind.apply x y)
    (hweight : kind'.weight ≤ kind.weight) (hcanonical : kind'.IsCanonical) (l r : Expr) :
    Refines P (comparison kind' r l) (comparison kind l r) := by
  rintro ⟨hl, hr, hwidth⟩
  refine ⟨⟨hr, hl, hwidth.symm⟩, rfl, fun σ _ ↦ ?_, ?_, fun part h ↦ ?_⟩
  · simp only [bits]
    rw [← hwidth, happly]
  · simp only [weight]
    omega
  · exact mem_parts_comparison_of_mem ((mem_parts_comparison hcanonical).mp h).symm

theorem eq_comm (l r : Expr) : Refines P (comparison .Eq r l) (comparison .Eq l r) :=
  comparison_comm (fun _ _ _ ↦ Bool.beq_comm) le_rfl (by decide) l r

theorem eq_self (e : Expr) : Refines P (constant (.ofBool true)) (comparison .Eq e e) := by
  intro _
  refine ⟨Nat.one_pos, rfl, fun σ _ ↦ ?_, ?_, fun part h ↦ absurd h List.not_mem_nil⟩
  · simp only [bits, CmpKind.apply, beq_self_eq_true]
    rfl
  · simp only [weight, CmpKind.weight]
    omega

/-- A rule for conditions. -/
theorem of_condition {e₀ : Expr} (hcondition : e₀.WellTyped → e.IsCondition ∧ e₀.getWidth = 1)
    (hbits : e₀.WellTyped → ∀ σ, e.bits σ 1 = e₀.bits σ 1) (hweight : e.weight ≤ e₀.weight)
    (hparts : ∀ part ∈ e.parts, part ∈ e₀.parts) :
    Refines P e e₀ := by
  intro ht
  obtain ⟨⟨hwell, hwidth⟩, hwidth₀⟩ := hcondition ht
  refine ⟨hwell, hwidth.trans hwidth₀.symm, fun σ _ ↦ ?_, hweight, hparts⟩
  rw [hwidth₀]
  exact hbits ht σ

/-- The comparison with zero that `createIsZero` allocates. -/
def isZero (e : Expr) : Expr := comparison .Eq e (constant (ConstantExpr.zero e.getWidth))

theorem isCondition_isZero {e : Expr} (h : e.WellTyped) : (isZero e).IsCondition :=
  ⟨⟨h, getWidth_pos h, rfl⟩, rfl⟩

theorem bits_isZero {e : Expr} (hwidth : e.getWidth = 1) (σ : Assignment) :
    (isZero e).bits σ 1 = ~~~ e.bits σ 1 := by
  have hnot : ∀ x : BitVec 1, (BitVec.ofBool (x == 0#1)).setWidth 1 = ~~~ x := by decide
  simp only [isZero, bits, CmpKind.apply, ConstantExpr.zero, BitVec.setWidth_eq]
  rw [hwidth]
  exact hnot _

/-- `true == e ==> e` -/
theorem eq_true (h : ConstantExpr.isTrue a = true) : Refines P e (comparison .Eq (constant a) e) := by
  obtain ⟨hone, hnonzero⟩ : a.width = 1 ∧ a.toNat ≠ 0 := by simpa [ConstantExpr.isTrue] using h
  have htrue : ∀ x : BitVec 1, x = (BitVec.ofBool (1#1 == x)).setWidth 1 := by decide
  obtain rfl : a = .ofBool true := by
    rcases ConstantExpr.isTrue_or_isFalse hone with rfl | rfl
    · rfl
    · exact absurd rfl hnonzero
  refine of_condition (fun ht ↦ ⟨⟨ht.2.1, ht.2.2.symm⟩, rfl⟩) (fun ht σ ↦ ?_) ?_
    fun part h ↦ List.mem_append_right _ h
  · exact htrue _
  · simp only [weight]
    omega

/-- `false == e ==> !e` -/
theorem eq_false : Refines P (not e) (comparison .Eq (constant (.ofBool false)) e) := by
  have hnot : ∀ x : BitVec 1, ~~~ x = (BitVec.ofBool (0#1 == x)).setWidth 1 := by decide
  refine of_condition (fun ht ↦ ⟨⟨ht.2.1, ht.2.2.symm⟩, rfl⟩) (fun ht σ ↦ ?_) ?_
    fun part h ↦ List.mem_append_right _ h
  · exact hnot _
  · simp only [weight, CmpKind.weight]
    omega

/-- `0 == (0 == A) => A` -/
theorem eq_false_eq_false :
    Refines P e (comparison .Eq (constant (.ofBool false)) (comparison .Eq (constant (.ofBool false)) e)) := by
  have hnot : ∀ x : BitVec 1, x =
      (BitVec.ofBool (0#1 == (BitVec.ofBool (0#1 == x)).setWidth 1)).setWidth 1 := by decide
  refine of_condition (fun ht ↦ ⟨⟨ht.2.1.2.1, ht.2.1.2.2.symm⟩, rfl⟩) (fun ht σ ↦ ?_) ?_
    fun part h ↦ List.mem_append_right _ (List.mem_append_right _ h)
  · exact hnot _
  · simp only [weight]
    omega

theorem ne_eq_false :
    Refines P (comparison .Eq (constant (.ofBool false)) (comparison .Eq l r)) (comparison .Ne l r) := by
  have hnot : ∀ b : Bool, (BitVec.ofBool (0#1 == (BitVec.ofBool b).setWidth 1)).setWidth 1 =
      (BitVec.ofBool (!b)).setWidth 1 := by decide
  refine of_condition (fun ht ↦ ⟨⟨⟨Nat.one_pos, ht, rfl⟩, rfl⟩, rfl⟩) (fun ht σ ↦ ?_) ?_
    fun part h ↦ List.mem_cons_of_mem _ h
  · exact hnot _
  · simp only [weight, CmpKind.weight]
    omega

theorem ne_not : Refines P (not (comparison .Eq l r)) (comparison .Ne l r) := by
  have hnot : ∀ b : Bool, ~~~ (BitVec.ofBool b).setWidth 1 = (BitVec.ofBool (!b)).setWidth 1 := by
    decide
  refine of_condition (fun ht ↦ ⟨⟨ht, rfl⟩, rfl⟩) (fun ht σ ↦ ?_) ?_
    fun part h ↦ List.mem_cons_of_mem _ h
  · exact hnot _
  · simp only [weight, CmpKind.weight]
    omega

/-- A constant that is an extension is compared before the extension. -/
theorem beq_extend {w v : Nat} {extend : BitVec w → BitVec v} {back : BitVec v → BitVec w}
    (hback : ∀ x, back (extend x) = x) {a : BitVec v} (h : a = extend (back a)) (x : BitVec w) :
    (a == extend x) = (x == back a) := by
  rw [Bool.eq_iff_iff, beq_iff_eq, beq_iff_eq]
  constructor
  · intro hax
    rw [hax, hback]
  · intro hxa
    rw [hxa]
    exact h

/-- A constant that is no extension differs from all of them. -/
theorem beq_extend_false {w v : Nat} {extend : BitVec w → BitVec v} {back : BitVec v → BitVec w}
    (hback : ∀ x, back (extend x) = x) {a : BitVec v} (h : a ≠ extend (back a)) (x : BitVec w) :
    (a == extend x) = false := by
  rw [beq_eq_false_iff_ne]
  intro hax
  apply h
  rw [hax, hback]

theorem setWidth_signExtend {w v : Nat} (h : w ≤ v) (x : BitVec w) :
    (x.signExtend v).setWidth w = x := by
  apply BitVec.eq_of_getLsbD_eq
  intro i hi
  simp only [BitVec.getLsbD_setWidth, BitVec.getLsbD_signExtend, hi, hi.trans_le h, decide_true,
    Bool.true_and, if_true]

theorem setWidth_setWidth_of_ge {w v : Nat} (h : w ≤ v) (x : BitVec w) :
    (x.setWidth v).setWidth w = x := by
  rw [BitVec.setWidth_setWidth_of_le _ h, BitVec.setWidth_eq]

/-- `(sext(a,T)==c) == (a==c)` -/
theorem eq_sext (h : a = ConstantExpr.sext (ConstantExpr.zext a src.getWidth) a.width) :
    Refines P (comparison .Eq src (constant (ConstantExpr.zext a src.getWidth)))
      (comparison .Eq (constant a) (sext src width)) := by
  refine of_condition (fun ht ↦ ?_) (fun ht σ ↦ ?_) ?_ fun part h ↦ ?_
  · obtain ⟨-, ⟨hsrc, -⟩, -⟩ := ht
    exact ⟨⟨⟨hsrc, getWidth_pos hsrc, rfl⟩, rfl⟩, rfl⟩
  · obtain ⟨-, ⟨-, hle⟩, rfl⟩ := ht
    have hbits : a.bits = (a.bits.setWidth src.getWidth).signExtend a.width :=
      eq_of_heq (BV.mk.inj h).2
    simp only [bits, getWidth, CmpKind.apply, ConstantExpr.zext, BitVec.setWidth_eq]
    exact congrArg BitVec.ofBool (beq_extend (setWidth_signExtend hle) hbits _).symm
  · simp only [weight]
    omega
  · exact (List.mem_append.mp h).elim id fun h ↦ absurd h List.not_mem_nil

theorem eq_sext_false (h : a ≠ ConstantExpr.sext (ConstantExpr.zext a src.getWidth) a.width) :
    Refines P (constant (.ofBool false)) (comparison .Eq (constant a) (sext src width)) := by
  refine of_condition (fun _ ↦ ⟨⟨Nat.one_pos, rfl⟩, rfl⟩) (fun ht σ ↦ ?_) ?_
    fun part h ↦ absurd h List.not_mem_nil
  · obtain ⟨-, ⟨-, hle⟩, rfl⟩ := ht
    have hbits : a.bits ≠ (a.bits.setWidth src.getWidth).signExtend a.width :=
      fun heq ↦ h (congrArg (BV.mk a.width) heq)
    simp only [bits, getWidth, CmpKind.apply, BitVec.setWidth_eq]
    exact congrArg BitVec.ofBool (beq_extend_false (setWidth_signExtend hle) hbits _).symm
  · simp only [weight]
    omega

/-- `(zext(a,T)==c) == (a==c)` -/
theorem eq_zext (h : a = ConstantExpr.zext (ConstantExpr.zext a src.getWidth) a.width) :
    Refines P (comparison .Eq src (constant (ConstantExpr.zext a src.getWidth)))
      (comparison .Eq (constant a) (zext src width)) := by
  refine of_condition (fun ht ↦ ?_) (fun ht σ ↦ ?_) ?_ fun part h ↦ ?_
  · obtain ⟨-, ⟨hsrc, -⟩, -⟩ := ht
    exact ⟨⟨⟨hsrc, getWidth_pos hsrc, rfl⟩, rfl⟩, rfl⟩
  · obtain ⟨-, ⟨-, hle⟩, rfl⟩ := ht
    have hbits : a.bits = (a.bits.setWidth src.getWidth).setWidth a.width :=
      eq_of_heq (BV.mk.inj h).2
    simp only [bits, getWidth, CmpKind.apply, ConstantExpr.zext, BitVec.setWidth_eq]
    exact congrArg BitVec.ofBool (beq_extend (setWidth_setWidth_of_ge hle) hbits _).symm
  · simp only [weight]
    omega
  · exact (List.mem_append.mp h).elim id fun h ↦ absurd h List.not_mem_nil

theorem eq_zext_false (h : a ≠ ConstantExpr.zext (ConstantExpr.zext a src.getWidth) a.width) :
    Refines P (constant (.ofBool false)) (comparison .Eq (constant a) (zext src width)) := by
  refine of_condition (fun _ ↦ ⟨⟨Nat.one_pos, rfl⟩, rfl⟩) (fun ht σ ↦ ?_) ?_
    fun part h ↦ absurd h List.not_mem_nil
  · obtain ⟨-, ⟨-, hle⟩, rfl⟩ := ht
    have hbits : a.bits ≠ (a.bits.setWidth src.getWidth).setWidth a.width :=
      fun heq ↦ h (congrArg (BV.mk a.width) heq)
    simp only [bits, getWidth, CmpKind.apply, BitVec.setWidth_eq]
    exact congrArg BitVec.ofBool (beq_extend_false (setWidth_setWidth_of_ge hle) hbits _).symm
  · simp only [weight]
    omega

theorem sub_beq {w : Nat} (a b x : BitVec w) : (a - b == x) = (a == b + x) := by
  rw [Bool.eq_iff_iff, beq_iff_eq, beq_iff_eq]
  exact sub_eq_iff_eq_add'

theorem sub_beq' {w : Nat} (a b x : BitVec w) : (b - a == x) = (a == b - x) := by
  rw [Bool.eq_iff_iff, beq_iff_eq, beq_iff_eq]
  constructor
  · rintro rfl
    abel
  · rintro rfl
    abel

/-- `c0 = c1 + b => c0 - c1 = b` -/
theorem eq_add {b : BV} :
    Refines P (comparison .Eq (constant (ConstantExpr.arithmetic .Sub a b)) e)
      (comparison .Eq (constant a) (arithmetic .Add (constant b) e)) := by
  refine of_condition (fun ht ↦ ?_) (fun ht σ ↦ ?_) ?_ fun part h ↦ h
  · obtain ⟨ha, ⟨-, he, hbe, -⟩, hab⟩ := ht
    exact ⟨⟨⟨ha, he, hab.trans hbe⟩, rfl⟩, rfl⟩
  · simp only [bits, getWidth, CmpKind.apply, ArithmeticKind.apply, ConstantExpr.arithmetic,
      BitVec.setWidth_eq]
    exact congrArg BitVec.ofBool (sub_beq _ _ _)
  · simp only [weight]
    omega

/-- `c0 = c1 - b => c1 - c0 = b` -/
theorem eq_sub {b : BV} :
    Refines P (comparison .Eq (constant (ConstantExpr.arithmetic .Sub b a)) e)
      (comparison .Eq (constant a) (arithmetic .Sub (constant b) e)) := by
  refine of_condition (fun ht ↦ ?_) (fun ht σ ↦ ?_) ?_ fun part h ↦ h
  · obtain ⟨-, ⟨hb, he, hbe, -⟩, -⟩ := ht
    exact ⟨⟨⟨hb, he, hbe⟩, rfl⟩, rfl⟩
  · obtain ⟨-, -, hab⟩ := ht
    obtain ⟨width, a⟩ := a
    obtain rfl : width = b.width := hab
    simp only [bits, getWidth, CmpKind.apply, ArithmeticKind.apply, ConstantExpr.arithmetic,
      BitVec.setWidth_eq]
    exact congrArg BitVec.ofBool (sub_beq' _ _ _)
  · simp only [weight]
    omega

end Comparisons

/-! ### Operations on one bit -/

section Bits

variable {kind : ArithmeticKind} {rel : CmpKind} {e l r : Expr}

theorem weight_isZero (e : Expr) : (isZero e).weight = e.weight + 2 := by
  simp only [isZero, weight, CmpKind.weight]
  omega

theorem mem_parts_isZero {part : Part} :
    part ∈ (isZero e).parts ↔ part ∈ e.parts := by
  simp only [isZero, parts, addComparison, List.append_nil]

theorem isCondition_and {kind : ArithmeticKind} (hkind : ¬ kind.IsRestricted) (hl : l.IsCondition)
    (hr : r.IsCondition) : (arithmetic kind l r).IsCondition :=
  ⟨⟨hl.1, hr.1, hl.2.trans hr.2.symm, fun h ↦ absurd h.isRestricted hkind⟩, hl.2⟩

/-- A rule that replaces an operation on one bit by a conjunction or a disjunction in which the
right operand is negated. -/
theorem arithmetic_isZero_right {kind' : ArithmeticKind} (hkind : ¬ kind'.IsRestricted)
    (happly : ∀ x y : BitVec 1, kind'.apply x (~~~ y) = kind.apply x y)
    (hweight : kind'.weight + 2 ≤ kind.weight) (hwidth : l.getWidth = 1) :
    Refines P (arithmetic kind' l (isZero r)) (arithmetic kind l r) := by
  refine of_condition (fun ht ↦ ?_) (fun ht σ ↦ ?_) ?_ fun part h ↦ ?_
  · exact ⟨isCondition_and hkind ⟨ht.1, hwidth⟩ (isCondition_isZero ht.2.1), hwidth⟩
  · have hr : r.getWidth = 1 := ht.2.2.1.symm.trans hwidth
    rw [bits, bits, bits_isZero hr]
    exact happly _ _
  · simp only [weight, weight_isZero]
    omega
  · rw [mem_parts_arithmetic hkind, mem_parts_isZero] at h
    exact mem_parts_arithmetic_of_mem h

theorem comparison_isZero_right (hkind : ¬ kind.IsRestricted)
    (happly : ∀ x y : BitVec 1, kind.apply x (~~~ y) = BitVec.ofBool (rel.apply x y))
    (hweight : kind.weight + 2 ≤ rel.weight) (hwidth : l.getWidth = 1) :
    Refines P (arithmetic kind l (isZero r)) (comparison rel l r) := by
  refine of_condition (fun ht ↦ ?_) (fun ht σ ↦ ?_) ?_ fun part h ↦ ?_
  · exact ⟨isCondition_and hkind ⟨ht.1, hwidth⟩ (isCondition_isZero ht.2.1), rfl⟩
  · have hr : r.getWidth = 1 := ht.2.2.symm.trans hwidth
    rw [bits, bits, bits_isZero hr, hwidth, BitVec.setWidth_eq]
    exact happly _ _
  · simp only [weight, weight_isZero]
    omega
  · rw [mem_parts_arithmetic hkind, mem_parts_isZero] at h
    exact mem_parts_comparison_of_mem h

theorem comparison_isZero_left (hkind : ¬ kind.IsRestricted)
    (happly : ∀ x y : BitVec 1, kind.apply (~~~ x) y = BitVec.ofBool (rel.apply x y))
    (hweight : kind.weight + 2 ≤ rel.weight) (hwidth : l.getWidth = 1) :
    Refines P (arithmetic kind (isZero l) r) (comparison rel l r) := by
  refine of_condition (fun ht ↦ ?_) (fun ht σ ↦ ?_) ?_ fun part h ↦ ?_
  · have hr : r.getWidth = 1 := ht.2.2.symm.trans hwidth
    exact ⟨isCondition_and hkind (isCondition_isZero ht.1) ⟨ht.2.1, hr⟩, rfl⟩
  · rw [bits, bits, bits_isZero hwidth, hwidth, BitVec.setWidth_eq]
    exact happly _ _
  · simp only [weight, weight_isZero]
    omega
  · rw [mem_parts_arithmetic hkind, mem_parts_isZero] at h
    exact mem_parts_comparison_of_mem h

/-- `not(or(a,b))` to `and(not a, not b)` -/
theorem eq_false_or :
    Refines P (arithmetic .And (isZero l) (isZero r))
      (comparison .Eq (constant (.ofBool false)) (arithmetic .Or l r)) := by
  have hor : ∀ x y : BitVec 1,
      ~~~ x &&& ~~~ y = (BitVec.ofBool (0#1 == x ||| y)).setWidth 1 := by decide
  refine of_condition (fun ht ↦ ?_) (fun ht σ ↦ ?_) ?_ fun part h ↦ ?_
  · obtain ⟨-, ⟨hl, hr, -, -⟩, -⟩ := ht
    exact ⟨isCondition_and (by decide) (isCondition_isZero hl) (isCondition_isZero hr), rfl⟩
  · obtain ⟨-, ⟨-, -, hlr, -⟩, hl⟩ := ht
    have hl : l.getWidth = 1 := hl.symm
    rw [bits, bits_isZero hl, bits_isZero (hlr.symm.trans hl)]
    exact hor _ _
  · simp only [weight, weight_isZero, ArithmeticKind.weight, CmpKind.weight]
    omega
  · simpa only [parts, addArithmetic, addComparison, List.mem_append, mem_parts_isZero,
      List.nil_append] using h

/-- A left operand of one bit that is not zero negates. -/
theorem xor_isZero {a : BV} (h : ConstantExpr.isZero a = false) (hwidth : a.width = 1) :
    Refines P (isZero e) (arithmetic .Xor (constant a) e) := by
  have hxor : ∀ x : BitVec 1, ~~~ x = 1#1 ^^^ x := by decide
  obtain rfl : a = .ofBool true := by
    rcases ConstantExpr.isTrue_or_isFalse hwidth with rfl | rfl
    · rfl
    · cases h
  refine of_condition (fun ht ↦ ⟨isCondition_isZero ht.2.1, rfl⟩) (fun ht σ ↦ ?_) ?_
    fun part h ↦ mem_parts_isZero.mp h
  · rw [bits_isZero ht.2.2.1.symm]
    exact hxor _
  · simp only [weight, weight_isZero, ArithmeticKind.weight]
    omega

/-- The arithmetic shift of one bit changes nothing. -/
theorem ashr_bool (hwidth : l.getWidth = 1) : Refines P l (arithmetic .AShr l r) := by
  have hashr : ∀ x y : BitVec 1, x = x.sshiftRight y.toNat := by decide
  refine of_condition (fun ht ↦ ⟨⟨ht.1, hwidth⟩, hwidth⟩) (fun ht σ ↦ hashr _ _) ?_
    fun part h ↦ mem_parts_arithmetic_of_mem (.inl h)
  simp only [weight]
  omega

end Bits

/-! ### Extractions and extensions -/

section Extractions

variable {e l r : Expr} {offset width : Nat}

theorem zext_self (h : width = e.getWidth) : Refines P e (zext e width) := by
  rintro ⟨ht, -⟩
  subst h
  refine ⟨ht, rfl, fun σ _ ↦ ?_, ?_, fun part h ↦ h⟩
  · simp only [bits, getWidth, BitVec.setWidth_eq]
  · simp only [weight]
    omega

theorem sext_self (h : width = e.getWidth) : Refines P e (sext e width) := by
  rintro ⟨ht, -⟩
  subst h
  refine ⟨ht, rfl, fun σ _ ↦ ?_, ?_, fun part h ↦ h⟩
  · simp only [bits, getWidth, BitVec.setWidth_eq, BitVec.signExtend_eq]
  · simp only [weight]
    omega

theorem extract_self (h : width = e.getWidth) : Refines P e (extract e offset width) := by
  rintro ⟨ht, -, hle⟩
  subst h
  obtain rfl : offset = 0 := by omega
  refine ⟨ht, rfl, fun σ _ ↦ ?_, ?_, fun part h ↦ h⟩
  · simp only [bits, getWidth, BitVec.setWidth_eq, BitVec.extractLsb'_eq_self]
  · simp only [weight]
    omega

theorem getLsbD_bits_extract {σ : Assignment} {w i : Nat} (hw : i < w) (hwidth : i < width) :
    ((extract e offset width).bits σ w).getLsbD i =
      (e.bits σ e.getWidth).getLsbD (offset + i) := by
  simp only [bits, BitVec.getLsbD_setWidth, BitVec.getLsbD_extractLsb', hw, hwidth, decide_true,
    Bool.true_and]

theorem getLsbD_bits_concat_right {σ : Assignment} {w i : Nat} (hw : i < w)
    (h : i < r.getWidth) :
    ((concat l r).bits σ w).getLsbD i = (r.bits σ r.getWidth).getLsbD i := by
  simp only [bits, BitVec.getLsbD_setWidth, BitVec.getLsbD_append, hw, h, decide_true,
    Bool.true_and, if_true]

theorem getLsbD_bits_concat_left {σ : Assignment} {w i : Nat} (hw : i < w)
    (h : r.getWidth ≤ i) :
    ((concat l r).bits σ w).getLsbD i = (l.bits σ l.getWidth).getLsbD (i - r.getWidth) := by
  simp only [bits, BitVec.getLsbD_setWidth, BitVec.getLsbD_append, hw, h.not_gt, decide_true,
    Bool.true_and, if_false]

/-- Contiguous extractions are merged. -/
theorem concat_extract {offset' width' : Nat} (h : offset' + width' = offset) :
    Refines P (extract e offset' (width + width'))
      (concat (extract e offset width) (extract e offset' width')) := by
  rintro ⟨⟨ht, hpos, hle⟩, -, -, -⟩
  refine ⟨⟨ht, by omega, by omega⟩, rfl, fun σ _ ↦ ?_, ?_, fun part h ↦ List.mem_append_left _ h⟩
  · apply BitVec.eq_of_getLsbD_eq
    intro i hi
    have hi' : i < width + width' := hi
    rw [getLsbD_bits_extract hi hi']
    by_cases hlow : i < width'
    · calc (e.bits σ e.getWidth).getLsbD (offset' + i)
          = ((extract e offset' width').bits σ width').getLsbD i :=
            (getLsbD_bits_extract hlow hlow).symm
        _ = _ := (getLsbD_bits_concat_right (r := extract e offset' width') hi hlow).symm
    · have hhigh : i - width' < width := by omega
      have hsum : offset' + i = offset + (i - width') := by omega
      calc (e.bits σ e.getWidth).getLsbD (offset' + i)
          = ((extract e offset width).bits σ width).getLsbD (i - width') := by
            rw [getLsbD_bits_extract hhigh hhigh, hsum]
        _ = _ := (getLsbD_bits_concat_left (r := extract e offset' width') hi
            (not_lt.mp hlow)).symm
  · simp only [weight]
    omega

theorem extract_concat_left (h : r.getWidth ≤ offset) :
    Refines P (extract l (offset - r.getWidth) width) (extract (concat l r) offset width) := by
  rintro ⟨⟨hl, -⟩, hpos, hle⟩
  simp only [getWidth] at hle
  refine ⟨⟨hl, hpos, by omega⟩, rfl, fun σ _ ↦ ?_, ?_, fun part h ↦ List.mem_append_left _ h⟩
  · apply BitVec.eq_of_getLsbD_eq
    intro i hi
    have hi' : i < width := hi
    have hsum : offset + i < (concat l r).getWidth := by
      simp only [getWidth]
      omega
    rw [getLsbD_bits_extract hi hi', getLsbD_bits_extract hi hi',
      getLsbD_bits_concat_left hsum (by omega)]
    congr 1
    omega
  · simp only [weight]
    omega

theorem extract_concat_right (h : offset + width ≤ r.getWidth) :
    Refines P (extract r offset width) (extract (concat l r) offset width) := by
  rintro ⟨⟨-, hr⟩, hpos, hle⟩
  refine ⟨⟨hr, hpos, h⟩, rfl, fun σ _ ↦ ?_, ?_, fun part h ↦ List.mem_append_right _ h⟩
  · apply BitVec.eq_of_getLsbD_eq
    intro i hi
    have hi' : i < width := hi
    rw [getLsbD_bits_extract hi hi', getLsbD_bits_extract hi hi',
      getLsbD_bits_concat_right (by omega) (by omega)]
  · simp only [weight]
    omega

/-- `E(C(x,y)) = C(E(x), E(y))` -/
theorem extract_concat (hleft : offset < r.getWidth) (hright : r.getWidth < offset + width) :
    Refines P (concat (extract l 0 (width + offset - r.getWidth))
        (extract r offset (r.getWidth - offset)))
      (extract (concat l r) offset width) := by
  rintro ⟨⟨hl, hr⟩, hpos, hle⟩
  simp only [getWidth] at hle
  have hwidth : (concat (extract l 0 (width + offset - r.getWidth))
      (extract r offset (r.getWidth - offset))).getWidth = width := by
    simp only [getWidth]
    omega
  refine ⟨⟨⟨hl, by omega, by omega⟩, hr, by omega, by omega⟩, hwidth, fun σ _ ↦ ?_, ?_,
    fun part h ↦ h⟩
  · apply BitVec.eq_of_getLsbD_eq
    intro i hi
    have hi' : i < width := hi
    have hsum : offset + i < (concat l r).getWidth := by
      simp only [getWidth]
      omega
    rw [getLsbD_bits_extract hi hi']
    by_cases hlow : offset + i < r.getWidth
    · have hi'' : i < r.getWidth - offset := by omega
      rw [getLsbD_bits_concat_right hsum hlow]
      calc ((concat _ (extract r offset (r.getWidth - offset))).bits σ _).getLsbD i
          = ((extract r offset (r.getWidth - offset)).bits σ (r.getWidth - offset)).getLsbD i :=
            getLsbD_bits_concat_right (r := extract r offset _) hi hi''
        _ = (r.bits σ r.getWidth).getLsbD (offset + i) := getLsbD_bits_extract hi'' hi''
    · have hge : r.getWidth - offset ≤ i := by omega
      have hi'' : i - (r.getWidth - offset) < width + offset - r.getWidth := by omega
      have hindex : 0 + (i - (r.getWidth - offset)) = offset + i - r.getWidth := by omega
      rw [getLsbD_bits_concat_left hsum (not_lt.mp hlow), ← hindex]
      calc ((concat (extract l 0 _) (extract r offset (r.getWidth - offset))).bits σ _).getLsbD i
          = ((extract l 0 (width + offset - r.getWidth)).bits σ _).getLsbD
              (i - (r.getWidth - offset)) :=
            getLsbD_bits_concat_left (r := extract r offset _) hi hge
        _ = (l.bits σ l.getWidth).getLsbD (0 + (i - (r.getWidth - offset))) :=
            getLsbD_bits_extract hi'' hi''
  · simp only [weight]
    omega

end Extractions

section Negations

variable {e l r : Expr}

theorem not_not : Refines P e (not (not e)) := by
  refine of_equation (fun w h ↦ h) (fun σ w ↦ BitVec.not_not.symm) ?_ fun part h ↦ h
  simp only [weight]
  omega

/-- `!(a or b) ==> !a and !b` -/
theorem not_or :
    Refines P (arithmetic .And (not l) (not r)) (not (arithmetic .Or l r)) := by
  refine of_equation (fun w h ↦ ?_) (fun σ w ↦ BitVec.not_or.symm) ?_ fun part h ↦ h
  · rw [hasWidth_not, hasWidth_arithmetic (by decide)] at h
    exact (hasWidth_arithmetic (by decide)).mpr h
  · simp only [weight, ArithmeticKind.weight]
    omega

end Negations

end Refines

end CoverageVP.Klee
