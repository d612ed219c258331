import CoverageVP.Klee.Rules

/-!
# The constructors that simplify

`create` of each class of expressions folds constants and applies a few local rules, some of which
construct further expressions. The visitors rebuild an expression with these constructors when one
of its children has changed, and the result refines the plain expression.

Two constants are folded by every binary constructor before anything else. A recursive constructor
is split into the case of a constant left operand, by recursion on the right one, and the case of
two operands that are not constant.
-/

namespace CoverageVP.Klee

open Clover (BV SymArray Assignment)
open Klee.Expr

variable {P : Assignment → Prop}

/-! ## Concatenations and extractions -/

theorem weight_extract_le (e : Expr) (offset width : Nat) :
    (extract e offset width).weight ≤ 2 * e.weight + 1 := by
  simp only [weight]
  omega

mutual

/-- `ExtractExpr::create`, with the bound on its weight by which the recursion ends. -/
def ExtractExpr.createAux (e : Expr) (offset width : Nat) :
    { r : Expr // r.weight ≤ 2 * e.weight + 1 } :=
  if width = e.getWidth then ⟨e, by omega⟩
  else
    match e with
    | constant a => ⟨constant (ConstantExpr.extract a offset width), by simp only [weight]; omega⟩
    | concat l r =>
      -- the extract skips the right side of the concat
      if r.getWidth ≤ offset then
        let left := ExtractExpr.createAux l (offset - r.getWidth) width
        ⟨left.1, by have := left.2; simp only [weight]; omega⟩
      -- the extract skips the left side of the concat
      else if offset + width ≤ r.getWidth then
        let right := ExtractExpr.createAux r offset width
        ⟨right.1, by have := right.2; simp only [weight]; omega⟩
      else
        match ExtractExpr.createAux l 0 (width + offset - r.getWidth),
          ExtractExpr.createAux r offset (r.getWidth - offset) with
        | ⟨left, _⟩, ⟨right, _⟩ =>
          let both := ConcatExpr.createAux left right
          ⟨both.1, by have := both.2; simp only [weight]; omega⟩
    | e => ⟨extract e offset width, weight_extract_le e offset width⟩
termination_by 2 * e.weight + 1
decreasing_by
  all_goals simp only [weight]
  · omega
  · omega
  · omega
  · omega
  · omega

def ConcatExpr.createAux (l r : Expr) : { e : Expr // e.weight ≤ 3 + l.weight + r.weight } :=
  match l, r with
  | constant a, constant b => ⟨constant (ConstantExpr.concat a b), by simp only [weight]; omega⟩
  | extract e offset width, extract e' offset' width' =>
    if e = e' ∧ offset' + width' = offset then
      let merged := ExtractExpr.createAux e offset' (width + width')
      ⟨merged.1, by have := merged.2; simp only [weight]; omega⟩
    else ⟨concat (extract e offset width) (extract e' offset' width'), le_rfl⟩
  | l, r => ⟨concat l r, le_rfl⟩
termination_by 3 + l.weight + r.weight
decreasing_by
  simp only [weight]
  omega

end

def ExtractExpr.create (e : Expr) (offset width : Nat) : Expr :=
  (ExtractExpr.createAux e offset width).1

def ConcatExpr.create (l r : Expr) : Expr := (ConcatExpr.createAux l r).1

theorem create_refines :
    (∀ e offset width, Refines P (ExtractExpr.create e offset width) (extract e offset width)) ∧
      ∀ l r, Refines P (ConcatExpr.create l r) (concat l r) := by
  apply ExtractExpr.createAux.mutual_induct
    (fun e offset width ↦
      Refines P (ExtractExpr.create e offset width) (extract e offset width))
    (fun l r ↦ Refines P (ConcatExpr.create l r) (concat l r))
  case case1 =>
    intro e offset
    rw [ExtractExpr.create, ExtractExpr.createAux.eq_def, if_pos rfl]
    exact Refines.extract_self rfl
  case case2 =>
    intro offset width a hwidth
    rw [ExtractExpr.create, ExtractExpr.createAux, if_neg hwidth]
    exact Refines.fold_extract a
  case case3 =>
    intro offset width l r hle hwidth ih
    rw [ExtractExpr.create, ExtractExpr.createAux, if_neg hwidth, if_pos hle]
    exact ih.trans (Refines.extract_concat_left hle)
  case case4 =>
    intro offset width l r hoffset hle hwidth ih
    rw [ExtractExpr.create, ExtractExpr.createAux, if_neg hwidth, if_neg hoffset, if_pos hle]
    exact ih.trans (Refines.extract_concat_right hle)
  case case5 =>
    intro offset width l r hoffset hle left hleft right hright hr hl hwidth ihl ihr ih
    rw [ExtractExpr.create, ExtractExpr.createAux, if_neg hwidth, if_neg hoffset, if_neg hle, hl,
      hr]
    rw [ExtractExpr.create, hl] at ihl
    rw [ExtractExpr.create, hr] at ihr
    exact (ih.trans (Refines.concat_congr ihl ihr)).trans
      (Refines.extract_concat (not_le.mp hoffset) (not_le.mp hle))
  case case6 =>
    intro offset width e hconstant hconcat hwidth
    rw [ExtractExpr.create, ExtractExpr.createAux.eq_def, if_neg hwidth]
    split
    · exact absurd rfl (hconstant _)
    · exact absurd rfl (hconcat _ _)
    · exact Refines.refl _
  case case7 =>
    intro a b
    rw [ConcatExpr.create, ConcatExpr.createAux]
    exact Refines.fold_concat a b
  case case8 =>
    rintro e offset width e' offset' width' ⟨rfl, hoffset⟩ ih
    rw [ConcatExpr.create, ConcatExpr.createAux, if_pos ⟨rfl, hoffset⟩]
    exact ih.trans (Refines.concat_extract hoffset)
  case case9 =>
    intro e offset width e' offset' width' h
    rw [ConcatExpr.create, ConcatExpr.createAux, if_neg h]
    exact Refines.refl _
  case case10 =>
    intro l r hconstant hextract
    rw [ConcatExpr.create, ConcatExpr.createAux.eq_def]
    split
    · exact absurd rfl (hconstant _ _ rfl)
    · exact absurd rfl (hextract _ _ _ _ _ _ rfl)
    · exact Refines.refl _

def NotExpr.create : Expr → Expr
  | constant a => constant (ConstantExpr.not a)
  | e => not e

def ZExtExpr.create (e : Expr) (width : Nat) : Expr :=
  if width = e.getWidth then e
  else if width < e.getWidth then ExtractExpr.create e 0 width
  else
    match e with
    | constant a => constant (ConstantExpr.zext a width)
    | e => zext e width

def SExtExpr.create (e : Expr) (width : Nat) : Expr :=
  if width = e.getWidth then e
  else if width < e.getWidth then ExtractExpr.create e 0 width
  else
    match e with
    | constant a => constant (ConstantExpr.sext a width)
    | e => sext e width

theorem NotExpr.create_refines (e : Expr) : Refines P (NotExpr.create e) (not e) := by
  rw [NotExpr.create.eq_def]
  split
  · exact Refines.fold_not _
  · exact Refines.refl _

theorem ZExtExpr.create_refines (e : Expr) (width : Nat) :
    Refines P (ZExtExpr.create e width) (zext e width) := by
  rw [ZExtExpr.create.eq_def]
  split_ifs with hself hlt
  · exact Refines.zext_self hself
  · exact fun h ↦ absurd h.2 (not_le.mpr hlt)
  · split
    · exact Refines.fold_zext _
    · exact Refines.refl _

theorem SExtExpr.create_refines (e : Expr) (width : Nat) :
    Refines P (SExtExpr.create e width) (sext e width) := by
  rw [SExtExpr.create.eq_def]
  split_ifs with hself hlt
  · exact Refines.sext_self hself
  · exact fun h ↦ absurd h.2 (not_le.mpr hlt)
  · split
    · exact Refines.fold_sext _
    · exact Refines.refl _

/-! ## The shape of the binary constructors -/

/-- `BCREATE_R`: two constants are folded, and one constant operand is treated on its own. -/
def bcreateR (kind : ArithmeticKind) (createPartial : Expr → BV → Expr)
    (createPartialR : BV → Expr → Expr) (plain : Expr → Expr → Expr) : Expr → Expr → Expr
  | constant cl, constant cr => constant (ConstantExpr.arithmetic kind cl cr)
  | constant cl, r => createPartialR cl r
  | l, constant cr => createPartial l cr
  | l, r => plain l r

/-- `BCREATE`: two constants are folded. -/
def bcreate (kind : ArithmeticKind) (plain : Expr → Expr → Expr) : Expr → Expr → Expr
  | constant cl, constant cr => constant (ConstantExpr.arithmetic kind cl cr)
  | l, r => plain l r

/-- `CMPCREATE` -/
def cmpCreate (kind : CmpKind) (plain : Expr → Expr → Expr) : Expr → Expr → Expr
  | constant cl, constant cr => constant (ConstantExpr.comparison kind cl cr)
  | l, r => plain l r

/-- `CMPCREATE_T` -/
def cmpCreateT (kind : CmpKind) (createPartial : Expr → BV → Expr)
    (createPartialR : BV → Expr → Expr) (plain : Expr → Expr → Expr) : Expr → Expr → Expr
  | constant cl, constant cr => constant (ConstantExpr.comparison kind cl cr)
  | constant cl, r => createPartialR cl r
  | l, constant cr => createPartial l cr
  | l, r => plain l r

/-- The choice of the constructors between folding and another result when the other operand is
known to be constant. -/
def unlessConstant (e : Expr) (fold : BV → BV) (rest : Expr) : Expr :=
  match e with
  | constant a => constant (fold a)
  | _ => rest

section Shapes

variable {kind : ArithmeticKind} {rel : CmpKind} {createPartial : Expr → BV → Expr}
  {createPartialR : BV → Expr → Expr} {plain : Expr → Expr → Expr}

theorem bcreateR_refines
    (hpartialL : ∀ l cr, Refines P (createPartial l cr) (arithmetic kind l (constant cr)))
    (hpartialR : ∀ cl r, Refines P (createPartialR cl r) (arithmetic kind (constant cl) r))
    (hplain : ∀ l r, Refines P (plain l r) (arithmetic kind l r)) (l r : Expr) :
    Refines P (bcreateR kind createPartial createPartialR plain l r) (arithmetic kind l r) := by
  rw [bcreateR.eq_def]
  split
  · exact Refines.fold_arithmetic _ _ kind
  · exact hpartialR _ _
  · exact hpartialL _ _
  · exact hplain _ _

theorem bcreate_refines (hplain : ∀ l r, Refines P (plain l r) (arithmetic kind l r)) (l r : Expr) :
    Refines P (bcreate kind plain l r) (arithmetic kind l r) := by
  rw [bcreate.eq_def]
  split
  · exact Refines.fold_arithmetic _ _ kind
  · exact hplain _ _

theorem cmpCreate_refines (hplain : ∀ l r, Refines P (plain l r) (comparison rel l r)) (l r : Expr) :
    Refines P (cmpCreate rel plain l r) (comparison rel l r) := by
  rw [cmpCreate.eq_def]
  split
  · exact Refines.fold_comparison _ _ rel
  · exact hplain _ _

theorem cmpCreateT_refines
    (hpartialL : ∀ l cr, Refines P (createPartial l cr) (comparison rel l (constant cr)))
    (hpartialR : ∀ cl r, Refines P (createPartialR cl r) (comparison rel (constant cl) r))
    (hplain : ∀ l r, Refines P (plain l r) (comparison rel l r)) (l r : Expr) :
    Refines P (cmpCreateT rel createPartial createPartialR plain l r) (comparison rel l r) := by
  rw [cmpCreateT.eq_def]
  split
  · exact Refines.fold_comparison _ _ rel
  · exact hpartialR _ _
  · exact hpartialL _ _
  · exact hplain _ _

theorem unlessConstant_refines {e rest e₀ : Expr} {fold : BV → BV}
    (hfold : ∀ a, e = constant a → Refines P (constant (fold a)) e₀) (hrest : Refines P rest e₀) :
    Refines P (unlessConstant e fold rest) e₀ := by
  rw [unlessConstant.eq_def]
  split
  · exact hfold _ rfl
  · exact hrest

end Shapes

/-! ## Conjunctions, disjunctions and equalities -/

def AndExpr.createPartial (l : Expr) (cr : BV) : Expr :=
  if ConstantExpr.isAllOnes cr then l
  else if ConstantExpr.isZero cr then constant cr
  else arithmetic .And l (constant cr)

def AndExpr.createPartialR (cl : BV) (r : Expr) : Expr := AndExpr.createPartial r cl

def AndExpr.create : Expr → Expr → Expr :=
  bcreateR .And AndExpr.createPartial AndExpr.createPartialR (arithmetic .And)

def OrExpr.createPartial (l : Expr) (cr : BV) : Expr :=
  if ConstantExpr.isAllOnes cr then constant cr
  else if ConstantExpr.isZero cr then l
  else arithmetic .Or l (constant cr)

def OrExpr.createPartialR (cl : BV) (r : Expr) : Expr := OrExpr.createPartial r cl

def OrExpr.create : Expr → Expr → Expr :=
  bcreateR .Or OrExpr.createPartial OrExpr.createPartialR (arithmetic .Or)

theorem AndExpr.createPartial_refines (l : Expr) (cr : BV) :
    Refines P (AndExpr.createPartial l cr) (arithmetic .And l (constant cr)) := by
  rw [AndExpr.createPartial]
  split_ifs with hones hzero
  · exact (Refines.and_allOnes hones).trans (Refines.and_comm _ _)
  · exact (Refines.and_zero hzero).trans (Refines.and_comm _ _)
  · exact Refines.refl _

theorem AndExpr.createPartialR_refines (cl : BV) (r : Expr) :
    Refines P (AndExpr.createPartialR cl r) (arithmetic .And (constant cl) r) :=
  (AndExpr.createPartial_refines r cl).trans (Refines.and_comm _ _)

theorem AndExpr.create_refines (l r : Expr) :
    Refines P (AndExpr.create l r) (arithmetic .And l r) :=
  bcreateR_refines AndExpr.createPartial_refines AndExpr.createPartialR_refines
    (fun _ _ ↦ Refines.refl _) l r

theorem OrExpr.createPartial_refines (l : Expr) (cr : BV) :
    Refines P (OrExpr.createPartial l cr) (arithmetic .Or l (constant cr)) := by
  rw [OrExpr.createPartial]
  split_ifs with hones hzero
  · exact (Refines.or_allOnes hones).trans (Refines.or_comm _ _)
  · exact (Refines.or_zero hzero).trans (Refines.or_comm _ _)
  · exact Refines.refl _

theorem OrExpr.createPartialR_refines (cl : BV) (r : Expr) :
    Refines P (OrExpr.createPartialR cl r) (arithmetic .Or (constant cl) r) :=
  (OrExpr.createPartial_refines r cl).trans (Refines.or_comm _ _)

theorem OrExpr.create_refines (l r : Expr) :
    Refines P (OrExpr.create l r) (arithmetic .Or l r) :=
  bcreateR_refines OrExpr.createPartial_refines OrExpr.createPartialR_refines
    (fun _ _ ↦ Refines.refl _) l r

/-- `EqExpr_create` -/
def EqExpr.createPlain (l r : Expr) : Expr :=
  if l = r then constant (.ofBool true) else comparison .Eq l r

/-- The comparison of a constant with an expression. In the calls of `EqExpr::create` the other
operand may be a constant as well. -/
def EqExpr.createPartialR (cl : BV) (r : Expr) : Expr :=
  if cl.width = 1 then
    if ConstantExpr.isTrue cl then r
    else
      -- 0 == ...
      match r with
      | comparison .Eq (constant c) right =>
        if c.width = 1 ∧ ConstantExpr.isFalse c then right
        else EqExpr.createPlain (constant cl) (comparison .Eq (constant c) right)
      | arithmetic .Or left right =>
        let zl := ConstantExpr.zero left.getWidth
        let zr := ConstantExpr.zero right.getWidth
        AndExpr.create
          (unlessConstant left (ConstantExpr.comparison .Eq · zl) (EqExpr.createPartialR zl left))
          (unlessConstant right (ConstantExpr.comparison .Eq · zr) (EqExpr.createPartialR zr right))
      | r => EqExpr.createPlain (constant cl) r
  else
    match r with
    | sext src _ =>
      let trunc := ConstantExpr.zext cl src.getWidth
      if cl = ConstantExpr.sext trunc cl.width then
        unlessConstant src (ConstantExpr.comparison .Eq · trunc) (EqExpr.createPartialR trunc src)
      else constant (.ofBool false)
    | zext src _ =>
      let trunc := ConstantExpr.zext cl src.getWidth
      if cl = ConstantExpr.zext trunc cl.width then
        unlessConstant src (ConstantExpr.comparison .Eq · trunc) (EqExpr.createPartialR trunc src)
      else constant (.ofBool false)
    | arithmetic .Add (constant c) right =>
      EqExpr.createPartialR (ConstantExpr.arithmetic .Sub cl c) right
    | arithmetic .Sub (constant c) right =>
      EqExpr.createPartialR (ConstantExpr.arithmetic .Sub c cl) right
    | r => EqExpr.createPlain (constant cl) r

def EqExpr.createPartial (l : Expr) (cr : BV) : Expr := EqExpr.createPartialR cr l

def EqExpr.create : Expr → Expr → Expr :=
  cmpCreateT .Eq EqExpr.createPartial EqExpr.createPartialR EqExpr.createPlain

def createIsZero (e : Expr) : Expr := EqExpr.create e (constant (ConstantExpr.zero e.getWidth))

theorem EqExpr.createPlain_refines (l r : Expr) :
    Refines P (EqExpr.createPlain l r) (comparison .Eq l r) := by
  rw [EqExpr.createPlain]
  split_ifs with h
  · subst h
    exact Refines.eq_self l
  · exact Refines.refl _

/-- A constant on the left or on the right is compared in the same way. -/
theorem unlessConstant_eq_refines {src : Expr} {c : BV}
    (h : Refines P (EqExpr.createPartialR c src) (comparison .Eq (constant c) src)) :
    Refines P (unlessConstant src (ConstantExpr.comparison .Eq · c) (EqExpr.createPartialR c src))
      (comparison .Eq src (constant c)) := by
  apply unlessConstant_refines
  · rintro a rfl
    exact Refines.fold_comparison a c .Eq
  · exact h.trans (Refines.eq_comm _ _)

theorem EqExpr.createPartialR_refines (cl : BV) (r : Expr) :
    Refines P (EqExpr.createPartialR cl r) (comparison .Eq (constant cl) r) := by
  induction cl, r using EqExpr.createPartialR.induct with
  | case1 r cl hwidth htrue =>
    rw [EqExpr.createPartialR.eq_def, if_pos hwidth, if_pos htrue]
    exact Refines.eq_true htrue
  | case2 cl hwidth htrue c right hc =>
    rw [EqExpr.createPartialR, if_pos hwidth, if_neg htrue, if_pos hc,
      ConstantExpr.eq_ofBool_false hwidth htrue, ConstantExpr.eq_ofBool_false_of_isFalse hc.2]
    exact Refines.eq_false_eq_false
  | case3 cl hwidth htrue c right hc =>
    rw [EqExpr.createPartialR, if_pos hwidth, if_neg htrue, if_neg hc]
    exact EqExpr.createPlain_refines _ _
  | case4 cl hwidth htrue left right zl zr ihl ihr =>
    rw [EqExpr.createPartialR, if_pos hwidth, if_neg htrue,
      ConstantExpr.eq_ofBool_false hwidth htrue]
    exact ((AndExpr.create_refines _ _).trans (Refines.arithmetic_congr
      (unlessConstant_eq_refines ihl) (unlessConstant_eq_refines ihr))).trans Refines.eq_false_or
  | case5 cl hwidth htrue r hEq hOr =>
    rw [EqExpr.createPartialR.eq_def, if_pos hwidth, if_neg htrue]
    split
    · exact absurd rfl (hEq _ _)
    · exact absurd rfl (hOr _ _)
    · exact EqExpr.createPlain_refines _ _
  | case6 cl hwidth src width trunc hcl ih =>
    rw [EqExpr.createPartialR, if_neg hwidth]
    apply Refines.trans _ (Refines.eq_sext hcl)
    dsimp only
    rw [if_pos hcl]
    exact unlessConstant_eq_refines ih
  | case7 cl hwidth src width trunc hcl =>
    rw [EqExpr.createPartialR, if_neg hwidth]
    dsimp only
    rw [if_neg hcl]
    exact Refines.eq_sext_false hcl
  | case8 cl hwidth src width trunc hcl ih =>
    rw [EqExpr.createPartialR, if_neg hwidth]
    apply Refines.trans _ (Refines.eq_zext hcl)
    dsimp only
    rw [if_pos hcl]
    exact unlessConstant_eq_refines ih
  | case9 cl hwidth src width trunc hcl =>
    rw [EqExpr.createPartialR, if_neg hwidth]
    dsimp only
    rw [if_neg hcl]
    exact Refines.eq_zext_false hcl
  | case10 cl hwidth c right ih =>
    rw [EqExpr.createPartialR, if_neg hwidth]
    exact ih.trans Refines.eq_add
  | case11 cl hwidth c right ih =>
    rw [EqExpr.createPartialR, if_neg hwidth]
    exact ih.trans Refines.eq_sub
  | case12 cl hwidth r hsext hzext hadd hsub =>
    rw [EqExpr.createPartialR.eq_def, if_neg hwidth]
    split
    · exact absurd rfl (hsext _ _)
    · exact absurd rfl (hzext _ _)
    · exact absurd rfl (hadd _ _)
    · exact absurd rfl (hsub _ _)
    · exact EqExpr.createPlain_refines _ _

theorem EqExpr.create_refines (l r : Expr) : Refines P (EqExpr.create l r) (comparison .Eq l r) :=
  cmpCreateT_refines (fun l cr ↦ (EqExpr.createPartialR_refines cr l).trans (Refines.eq_comm _ _))
    EqExpr.createPartialR_refines EqExpr.createPlain_refines l r

theorem createIsZero_refines (e : Expr) : Refines P (createIsZero e) (Refines.isZero e) :=
  EqExpr.create_refines _ _

end CoverageVP.Klee
