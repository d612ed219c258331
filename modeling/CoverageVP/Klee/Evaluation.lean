import CoverageVP.Clover.Trace
import CoverageVP.Klee.Constraints
import CoverageVP.Lib.Bytes

/-!
# Evaluation under an assignment

An assignment of the solver binds some arrays to bytes, and what it does not bind is zero. An
expression is evaluated by a visitor that replaces reads by constants and rebuilds what is left
from the leaves. Without divisions the result is always the constant that the expression denotes,
whether or not the expression was simplified when it was built. A division by zero may be left in
place.
-/

namespace CoverageVP.Klee

open Clover (BV SymArray Assignment Bindings bytesOf)
open Klee.Expr ExprVisitor

/-! ## Assignments -/

namespace Bindings

/-- The byte of an array. The first binding of the array counts. -/
def initialValue (bindings : Bindings) (array : SymArray) (index : Nat) : BitVec 8 :=
  match bindings.find? fun binding ↦ binding.1 = array with
  | some (_, bytes) => bytes.getD index 0
  | none => 0

def isBound (bindings : Bindings) (array : SymArray) (index : Nat) : Bool :=
  match bindings.find? fun binding ↦ binding.1 = array with
  | some (_, bytes) => index < bytes.length
  | none => false

/-- The values of all arrays. -/
def assignment (bindings : Bindings) : Assignment :=
  fun array ↦ Lib.Bytes.word (initialValue bindings array) (8 * array.size) 0

end Bindings

/-- A byte of a word that is given by its bytes. -/
theorem extract_word (f : Nat → BitVec 8) {n index : Nat} (h : index < n) :
    (Lib.Bytes.word f (8 * n) 0).extractLsb' (8 * index) 8 = f index := by
  apply BitVec.eq_of_getLsbD_eq
  intro i hi
  have hdiv : (8 * index + i) / 8 = index := by omega
  have hmod : (8 * index + i) % 8 = i := by omega
  rw [BitVec.getLsbD_extractLsb', decide_eq_true hi, Bool.true_and,
    Lib.Bytes.getLsbD_word _ (Nat.dvd_mul_right 8 _) 0 (by omega), Nat.zero_add, hdiv, hmod]

theorem Bindings.byte_assignment (bindings : Bindings) {array : SymArray} {index : Nat}
    (h : index < array.size) :
    (assignment bindings array).extractLsb' (8 * index) 8 = initialValue bindings array index :=
  extract_word _ h

/-! ## The values of arrays -/

namespace Bindings

/-- What is not bound is zero. -/
def valuesOf (a : Bindings) (objects : List SymArray) : List (List (BitVec 8)) :=
  objects.map fun array ↦
    match a.find? fun binding ↦ binding.1 = array with
    | some (_, bytes) => bytes
    | none => List.replicate array.size 0

/-- The bytes of every array are all there. -/
def Complete (bindings : Bindings) : Prop :=
  ∀ binding ∈ bindings, binding.2.length = binding.1.size

theorem length_bytesOf {n : Nat} (value : BitVec (8 * n)) : (bytesOf value).length = n := by
  rw [bytesOf, List.length_map, List.length_range]

theorem getD_bytesOf {n : Nat} (value : BitVec (8 * n)) {i : Nat} (h : i < n) :
    (bytesOf value).getD i 0 = value.extractLsb' (8 * i) 8 := by
  rw [bytesOf, List.getD_eq_getElem?_getD, List.getElem?_map, List.getElem?_range h]
  rfl

/-- A value is determined by its bytes. -/
theorem eq_of_bytes {n : Nat} {x y : BitVec (8 * n)}
    (h : ∀ i < n, x.extractLsb' (8 * i) 8 = y.extractLsb' (8 * i) 8) : x = y := by
  apply BitVec.eq_of_getLsbD_eq
  intro i hi
  have hbit := congrArg (fun b : BitVec 8 ↦ b.getLsbD (i % 8)) (h (i / 8) (by omega))
  have hlt : i % 8 < 8 := Nat.mod_lt i (by decide)
  have hsum : 8 * (i / 8) + i % 8 = i := Nat.div_add_mod i 8
  simpa only [BitVec.getLsbD_extractLsb', hlt, hsum, decide_true, Bool.true_and] using hbit

/-- The first binding of an array gives its value. -/
theorem assignment_eq {bindings : Bindings} {array : SymArray} {value : BitVec (8 * array.size)}
    {found : SymArray}
    (h : bindings.find? (fun binding ↦ binding.1 = array) = some (found, bytesOf value)) :
    assignment bindings array = value := by
  refine eq_of_bytes fun i hi ↦ ?_
  rw [byte_assignment bindings hi, initialValue, h]
  exact getD_bytesOf value hi

theorem find_zip {objects : List SymArray} {array : SymArray} (h : array ∈ objects)
    (f : SymArray → List (BitVec 8)) :
    (objects.zip (objects.map f)).find? (fun binding ↦ binding.1 = array) =
      some (array, f array) := by
  induction objects with
  | nil => exact absurd h List.not_mem_nil
  | cons x rest ih =>
    rw [List.map_cons, List.zip_cons_cons, List.find?_cons]
    by_cases hx : x = array
    · subst hx
      simp
    · simp only [hx, decide_false]
      exact ih ((List.mem_cons.mp h).resolve_left (Ne.symm hx))

/-- The values of a solution are those of the assignment that was found. -/
theorem assignment_zip {objects : List SymArray} {array : SymArray} (h : array ∈ objects)
    (σ : Assignment) :
    assignment (objects.zip (objects.map fun array ↦ bytesOf (σ array))) array = σ array :=
  assignment_eq (find_zip h fun array ↦ bytesOf (σ array))

theorem complete_zip (objects : List SymArray) (σ : Assignment) :
    Complete (objects.zip (objects.map fun array ↦ bytesOf (σ array))) := by
  intro binding h
  rw [← List.map_prod_left_eq_zip] at h
  obtain ⟨array, -, rfl⟩ := List.mem_map.mp h
  exact length_bytesOf (σ array)

/-- The bytes that are bound are the bytes of the value. -/
theorem bytesOf_assignment {bindings : Bindings} (hcomplete : Complete bindings)
    {array found : SymArray} {bytes : List (BitVec 8)}
    (h : bindings.find? (fun binding ↦ binding.1 = array) = some (found, bytes)) :
    bytes = bytesOf (assignment bindings array) := by
  have hfound : found = array := by simpa using List.find?_some h
  have hlength : bytes.length = array.size :=
    hfound ▸ hcomplete _ (List.mem_of_find?_eq_some h)
  apply List.ext_getElem
  · rw [hlength, length_bytesOf]
  · intro i hi hi'
    have hsize : i < array.size := hlength ▸ hi
    have hget : bytes.getD i 0 = (bytesOf (assignment bindings array)).getD i 0 := by
      rw [getD_bytesOf _ hsize, byte_assignment bindings hsize, initialValue, h]
    simpa [List.getD_eq_getElem?_getD, hi, hi'] using hget

theorem bytesOf_assignment_of_none {bindings : Bindings} {array : SymArray}
    (h : bindings.find? (fun binding ↦ binding.1 = array) = none) :
    List.replicate array.size 0 = bytesOf (assignment bindings array) := by
  apply List.ext_getElem
  · rw [List.length_replicate, length_bytesOf]
  · intro i hi hi'
    have hsize : i < array.size := by rwa [List.length_replicate] at hi
    have hget : (bytesOf (assignment bindings array)).getD i 0 = 0 := by
      rw [getD_bytesOf _ hsize, byte_assignment bindings hsize, initialValue, h]
    simpa [List.getD_eq_getElem?_getD, hi', eq_comm] using hget

theorem valuesOf_eq {a : Bindings} (h : Complete a)
    (objects : List SymArray) :
    valuesOf a objects = objects.map fun array ↦ bytesOf (assignment a array) := by
  refine List.map_congr_left fun array _ ↦ ?_
  cases hfind : a.find? fun binding ↦ binding.1 = array with
  | none => exact bytesOf_assignment_of_none hfind
  | some binding => exact bytesOf_assignment h hfind

end Bindings

/-- An expression all of whose children are constants is rebuilt. -/
def rebuildConstant : Expr → Option Expr
  | concat (constant l) (constant r) => some (ConcatExpr.create (constant l) (constant r))
  | extract (constant a) offset width => some (ExtractExpr.create (constant a) offset width)
  | .not (constant a) => some (NotExpr.create (constant a))
  | zext (constant a) width => some (ZExtExpr.create (constant a) width)
  | sext (constant a) width => some (SExtExpr.create (constant a) width)
  | arithmetic kind (constant l) (constant r) => some (kind.create (constant l) (constant r))
  | comparison kind (constant l) (constant r) => some (kind.create (constant l) (constant r))
  | _ => none

/-- The value of a byte. If free values are allowed, what is not bound stays a read. -/
def Bindings.evaluateByte (allowFreeValues : Bool) (bindings : Bindings) (array : SymArray)
    (index : Nat) : Expr :=
  if allowFreeValues && !Bindings.isBound bindings array index then .read array index
  else constant ⟨8, Bindings.initialValue bindings array index⟩

def assignmentEvaluator (allowFreeValues : Bool) (bindings : Bindings) : ExprVisitor where
  recursive := false
  protectedDiv := true
  visitExpr
    | .read array index => some (Bindings.evaluateByte allowFreeValues bindings array index)
    | e => rebuildConstant e
  visitExprPost _ := none

namespace Bindings

/-- `Assignment::evaluate` -/
def evaluate (bindings : Bindings) (e : Expr) : Except Stop Expr :=
  (assignmentEvaluator false bindings).visit e.weight e

/-- `Assignment::evaluate` of an assignment that allows free values. -/
def evaluateFree (bindings : Bindings) (e : Expr) : Except Stop Expr :=
  (assignmentEvaluator true bindings).visit e.weight e

def satisfies (bindings : Bindings) : List Expr → Except Stop Bool
  | [] => return true
  | e :: rest => do
    match ← evaluate bindings e with
    | constant a => if ConstantExpr.isTrue a then satisfies bindings rest else return false
    | _ => return false

end Bindings

/-! ## Constants stay constants -/

def IsConstant (e : Expr) : Prop := ∃ a, e = constant a

theorem isConstant_extract (a : BV) (offset width : Nat) :
    IsConstant (ExtractExpr.create (constant a) offset width) := by
  rw [ExtractExpr.create, ExtractExpr.createAux]
  split_ifs
  · exact ⟨a, rfl⟩
  · exact ⟨_, rfl⟩

theorem isConstant_concat (l r : BV) : IsConstant (ConcatExpr.create (constant l) (constant r)) := by
  rw [ConcatExpr.create, ConcatExpr.createAux]
  exact ⟨_, rfl⟩

theorem isConstant_zext (a : BV) (width : Nat) :
    IsConstant (ZExtExpr.create (constant a) width) := by
  rw [ZExtExpr.create]
  split_ifs
  · exact ⟨a, rfl⟩
  · exact isConstant_extract a 0 width
  · exact ⟨_, rfl⟩

theorem isConstant_sext (a : BV) (width : Nat) :
    IsConstant (SExtExpr.create (constant a) width) := by
  rw [SExtExpr.create]
  split_ifs
  · exact ⟨a, rfl⟩
  · exact isConstant_extract a 0 width
  · exact ⟨_, rfl⟩

theorem isConstant_arithmetic (kind : ArithmeticKind) (l r : BV) :
    IsConstant (kind.create (constant l) (constant r)) := by
  cases kind with
  | Add =>
    rw [ArithmeticKind.create, AddExpr.create]
    exact ⟨_, rfl⟩
  | Sub =>
    rw [ArithmeticKind.create, SubExpr.create]
    exact ⟨_, rfl⟩
  | _ => exact ⟨_, rfl⟩

theorem isConstant_comparison (kind : CmpKind) (l r : BV) :
    IsConstant (kind.create (constant l) (constant r)) := by
  cases kind <;> exact ⟨_, rfl⟩

theorem isConstant_rebuildConstant {e e' : Expr} (h : rebuildConstant e = some e') :
    IsConstant e' := by
  rw [rebuildConstant.eq_def] at h
  split at h
  · cases h
    exact isConstant_concat _ _
  · cases h
    exact isConstant_extract _ _ _
  · cases h
    exact ⟨_, rfl⟩
  · cases h
    exact isConstant_zext _ _
  · cases h
    exact isConstant_sext _ _
  · cases h
    exact isConstant_arithmetic _ _ _
  · cases h
    exact isConstant_comparison _ _ _
  · cases h

variable {P : Assignment → Prop}

theorem rebuildConstant_refines {e e' : Expr} (h : rebuildConstant e = some e') :
    Refines P e' e := by
  rw [rebuildConstant.eq_def] at h
  split at h
  · cases h
    exact create_refines.2 _ _
  · cases h
    exact create_refines.1 _ _ _
  · cases h
    exact NotExpr.create_refines _
  · cases h
    exact ZExtExpr.create_refines _ _
  · cases h
    exact SExtExpr.create_refines _ _
  · cases h
    exact ArithmeticKind.create_refines _ _ _
  · cases h
    exact CmpKind.create_refines _ _ _
  · cases h

/-! ## The evaluator computes the value -/

section Evaluator

variable {bindings : Bindings}

theorem isConstant_visitExpr {e e' : Expr}
    (h : (assignmentEvaluator false bindings).visitExpr e = some e') : IsConstant e' := by
  cases e with
  | read array index => exact ⟨_, (Option.some.inj h).symm⟩
  | constant a => cases h
  | _ => exact isConstant_rebuildConstant h

theorem read_refines (array : SymArray) (index : Nat) :
    Refines (· = Bindings.assignment bindings)
      (constant ⟨8, Bindings.initialValue bindings array index⟩) (.read array index) := by
  intro hindex
  refine ⟨Nat.succ_pos 7, rfl, fun σ hσ ↦ ?_, Nat.le_succ 1, fun part h ↦
    absurd h List.not_mem_nil⟩
  subst hσ
  simp only [bits, Bindings.byte_assignment bindings hindex]

theorem assignmentEvaluator_lawful :
    (assignmentEvaluator false bindings).Lawful (· = Bindings.assignment bindings) := by
  refine ⟨fun e e' h ↦ ?_, fun e e' h ↦ absurd h (Option.some_ne_none _).symm⟩
  obtain ⟨a, rfl⟩ := isConstant_visitExpr h
  refine ⟨a, rfl, ?_⟩
  cases e with
  | read array index => exact Option.some.inj h ▸ read_refines array index
  | constant a => cases h
  | _ => exact rebuildConstant_refines h

/-- A visited child of an expression that was not rebuilt at once makes a difference. -/
theorem isConstant_visitUnary {visit : Expr → Except Stop Expr} {e kid r : Expr}
    {create : Expr → Expr} {rebuilt : Bool} (hkid : ∀ kid', visit kid = .ok kid' → IsConstant kid')
    (hcreate : ∀ a, IsConstant (create (constant a))) (hne : ¬ IsConstant kid)
    (h : visitUnary visit e kid create = .ok (rebuilt, r)) : IsConstant r := by
  rw [visitUnary] at h
  cases hvisit : visit kid with
  | error stop =>
    rw [hvisit] at h
    cases h
  | ok kid' =>
    obtain ⟨a, rfl⟩ := hkid kid' hvisit
    have hdiffers : constant a ≠ kid := fun heq ↦ hne ⟨a, heq.symm⟩
    rw [hvisit] at h
    change Except.ok (if constant a = kid then (false, e) else (true, create (constant a))) = _ at h
    rw [if_neg hdiffers] at h
    cases h
    exact hcreate a

theorem isConstant_visitBinary {visit visitRight : Expr → Except Stop Expr} {e left right r : Expr}
    {create : Expr → Expr → Expr} {rebuilt : Bool}
    (hleft : ∀ kid', visit left = .ok kid' → IsConstant kid')
    (hright : ∀ kid', visitRight right = .ok kid' → IsConstant kid')
    (hcreate : ∀ a b, IsConstant (create (constant a) (constant b)))
    (hne : ¬ (IsConstant left ∧ IsConstant right))
    (h : visitBinary visit visitRight e left right create = .ok (rebuilt, r)) : IsConstant r := by
  rw [visitBinary] at h
  cases hvisitl : visit left with
  | error stop =>
    rw [hvisitl] at h
    cases h
  | ok left' =>
    cases hvisitr : visitRight right with
    | error stop =>
      rw [hvisitl, hvisitr] at h
      cases h
    | ok right' =>
      obtain ⟨a, rfl⟩ := hleft left' hvisitl
      obtain ⟨b, rfl⟩ := hright right' hvisitr
      have hdiffers : ¬ (constant a = left ∧ constant b = right) :=
        fun heq ↦ hne ⟨⟨a, heq.1.symm⟩, b, heq.2.symm⟩
      rw [hvisitl, hvisitr] at h
      change Except.ok (if constant a = left ∧ constant b = right then (false, e)
        else (true, create (constant a) (constant b))) = _ at h
      rw [if_neg hdiffers] at h
      cases h
      exact hcreate a b

theorem isConstant_doChildren {visit : Expr → Except Stop Expr} {e r : Expr} {rebuilt : Bool}
    (hpre : (assignmentEvaluator false bindings).visitExpr e = none)
    (hconstant : ¬ IsConstant e) (hdivision : .division ∉ e.parts)
    (hkid : ∀ kid kid', (∀ part ∈ kid.parts, part ∈ e.parts) → visit kid = .ok kid' → IsConstant kid')
    (h : doChildren true visit e = .ok (rebuilt, r)) : IsConstant r := by
  have hunary (kid : Expr) {create : Expr → Expr} (hparts : ∀ part ∈ kid.parts, part ∈ e.parts)
      (hcreate : ∀ a, IsConstant (create (constant a)))
      (hne : ∀ a, kid = constant a → (assignmentEvaluator false bindings).visitExpr e ≠ none)
      (h : visitUnary visit e kid create = .ok (rebuilt, r)) : IsConstant r :=
    isConstant_visitUnary (fun kid' ↦ hkid kid kid' hparts) hcreate
      (fun ⟨a, ha⟩ ↦ hne a ha hpre) h
  have hbinary {left right : Expr} {create : Expr → Expr → Expr} 
      (hparts : ∀ part, part ∈ left.parts ∨ part ∈ right.parts → part ∈ e.parts)
      (hcreate : ∀ a b, IsConstant (create (constant a) (constant b)))
      (hne : ∀ a b, left = constant a → right = constant b →
        (assignmentEvaluator false bindings).visitExpr e ≠ none)
      (h : visitBinary visit visit e left right create = .ok (rebuilt, r)) : IsConstant r :=
    isConstant_visitBinary (fun kid' ↦ hkid left kid' fun part h ↦ hparts part (.inl h))
      (fun kid' ↦ hkid right kid' fun part h ↦ hparts part (.inr h)) hcreate
      (fun ⟨⟨a, ha⟩, b, hb⟩ ↦ hne a b ha hb hpre) h
  cases e with
  | constant a => exact absurd ⟨a, rfl⟩ hconstant
  | read array index => exact absurd hpre (Option.some_ne_none _)
  | concat left right =>
    refine hbinary (fun part ↦ List.mem_append.mpr) isConstant_concat ?_ h
    rintro a b rfl rfl
    exact Option.some_ne_none _
  | extract expr offset width =>
    refine hunary expr (fun part h ↦ h) (fun a ↦ isConstant_extract a offset width) ?_ h
    rintro a rfl
    exact Option.some_ne_none _
  | not expr =>
    refine hunary expr (fun part h ↦ h) (fun a ↦ ⟨_, rfl⟩) ?_ h
    rintro a rfl
    exact Option.some_ne_none _
  | zext src width =>
    refine hunary src (fun part h ↦ h) (fun a ↦ isConstant_zext a width) ?_ h
    rintro a rfl
    exact Option.some_ne_none _
  | sext src width =>
    refine hunary src (fun part h ↦ h) (fun a ↦ isConstant_sext a width) ?_ h
    rintro a rfl
    exact Option.some_ne_none _
  | arithmetic kind left right =>
    have hkind : ¬ kind.IsDivision := fun hkind ↦
      hdivision (mem_addArithmetic.mpr (.inl ⟨rfl, hkind⟩))
    rw [doChildren, if_neg fun h ↦ hkind h.2] at h
    refine hbinary (fun part ↦ mem_parts_arithmetic_of_mem) (isConstant_arithmetic kind) ?_ h
    rintro a b rfl rfl
    exact Option.some_ne_none _
  | comparison kind left right =>
    refine hbinary (fun part ↦ mem_parts_comparison_of_mem) (isConstant_comparison kind) ?_ h
    rintro a b rfl rfl
    exact Option.some_ne_none _

/-- Whatever a visit returns is a constant. -/
theorem isConstant_visit {fuel : Nat} {e e' : Expr} (hdivision : .division ∉ e.parts)
    (h : (assignmentEvaluator false bindings).visit fuel e = .ok e') : IsConstant e' := by
  induction fuel generalizing e e' with
  | zero =>
    cases e with
    | constant a => exact ⟨a, (Except.ok.inj h).symm⟩
    | _ => cases h
  | succ fuel ih =>
    by_cases hconstant : IsConstant e
    · obtain ⟨a, rfl⟩ := hconstant
      rw [visit_constant] at h
      exact ⟨a, (Except.ok.inj h).symm⟩
    · rw [visit_succ _ fuel fun a ha ↦ hconstant ⟨a, ha⟩] at h
      cases hpre : (assignmentEvaluator false bindings).visitExpr e with
      | some r =>
        rw [hpre] at h
        exact Except.ok.inj h ▸ isConstant_visitExpr hpre
      | none =>
        rw [hpre] at h
        cases hvisit : doChildren true ((assignmentEvaluator false bindings).visit fuel) e with
        | error stop =>
          change (doChildren true _ e >>= _) = _ at h
          rw [hvisit] at h
          cases h
        | ok result =>
          obtain ⟨rebuilt, r⟩ := result
          obtain ⟨a, rfl⟩ := isConstant_doChildren hpre hconstant hdivision
            (fun kid kid' hparts ↦ ih fun hkid ↦ hdivision (hparts _ hkid)) hvisit
          change (doChildren true _ e >>= _) = _ at h
          rw [hvisit] at h
          have hfinish : (assignmentEvaluator false bindings).finish (constant a) = e' := by
            cases rebuilt <;> exact Except.ok.inj h
          exact ⟨a, hfinish.symm⟩

/-- The evaluation of an expression is the constant it denotes. -/
theorem evaluate_eq {e : Expr} (hwell : e.WellTyped) (hdivision : .division ∉ e.parts) :
    Bindings.evaluate bindings e = .ok (constant (e.eval (Bindings.assignment bindings))) := by
  obtain ⟨e', hvisit, hpreserves, -⟩ := assignmentEvaluator_lawful.visits hwell
  have hrun := hvisit e.weight le_rfl
  obtain ⟨a, rfl⟩ := isConstant_visit hdivision hrun
  rw [Bindings.evaluate, hrun, ← hpreserves.eval_eq rfl]
  simp only [eval, bits, getWidth, BitVec.setWidth_eq]

theorem isTrue_eval_iff {e : Expr} (he : e.getWidth = 1) (σ : Assignment) :
    ConstantExpr.isTrue (e.eval σ) = true ↔ e.Holds σ := by
  rw [holds_iff_eval σ he]
  rcases ConstantExpr.isTrue_or_isFalse (a := e.eval σ) he with h | h
  all_goals
    rw [h]
    decide

theorem satisfies_eq (bindings : Bindings) {es : List Expr} (hconditions : Conditions es)
    (hdivision : ¬ Occurs es .division) :
    Bindings.satisfies bindings es =
      .ok (decide (AllHold (Bindings.assignment bindings) es)) := by
  induction es with
  | nil => rfl
  | cons e rest ih =>
    have he : e.IsCondition := hconditions e List.mem_cons_self
    have hrest := ih (fun c hc ↦ hconditions c (List.mem_cons_of_mem _ hc))
      fun ⟨c, hc, hpart⟩ ↦ hdivision ⟨c, List.mem_cons_of_mem _ hc, hpart⟩
    have hiff : AllHold (Bindings.assignment bindings) (e :: rest) ↔
        e.Holds (Bindings.assignment bindings) ∧ AllHold (Bindings.assignment bindings) rest :=
      List.forall_mem_cons
    rw [Bindings.satisfies, evaluate_eq he.1 fun h ↦ hdivision ⟨e, List.mem_cons_self, h⟩]
    change (if _ then _ else _) = _
    by_cases htrue : e.Holds (Bindings.assignment bindings)
    · rw [if_pos ((isTrue_eval_iff he.2 _).mpr htrue), hrest]
      simp only [hiff, htrue, true_and]
    · rw [if_neg fun h ↦ htrue ((isTrue_eval_iff he.2 _).mp h)]
      simp only [hiff, htrue, false_and, decide_false]
      rfl

theorem doChildren_congr {protectedDiv : Bool} {visit visit' : Expr → Except Stop Expr} {e : Expr}
    (h : ∀ kid, (∀ part ∈ kid.parts, part ∈ e.parts) → visit kid = visit' kid) :
    doChildren protectedDiv visit e = doChildren protectedDiv visit' e := by
  have hdivisor {kid : Expr} (hkid : visit kid = visit' kid) :
      visitDivisor visit kid = visitDivisor visit' kid := by
    rw [visitDivisor, visitDivisor, hkid]
  cases e with
  | constant a => rfl
  | read array index => rfl
  | concat left right =>
    have hl := h left fun part hpart ↦ List.mem_append_left _ hpart
    have hr := h right fun part hpart ↦ List.mem_append_right _ hpart
    simp only [doChildren, visitBinary, hl, hr]
  | extract expr offset width => simp only [doChildren, visitUnary, h expr fun _ hpart ↦ hpart]
  | not expr => simp only [doChildren, visitUnary, h expr fun _ hpart ↦ hpart]
  | zext src width => simp only [doChildren, visitUnary, h src fun _ hpart ↦ hpart]
  | sext src width => simp only [doChildren, visitUnary, h src fun _ hpart ↦ hpart]
  | arithmetic kind left right =>
    have hl := h left fun part hpart ↦ mem_parts_arithmetic_of_mem (.inl hpart)
    have hr := h right fun part hpart ↦ mem_parts_arithmetic_of_mem (.inr hpart)
    simp only [doChildren, visitBinary]
    split_ifs
    · rw [hl, hdivisor hr]
    · rw [hl, hr]
  | comparison kind left right =>
    have hl := h left fun part hpart ↦ mem_parts_comparison_of_mem (.inl hpart)
    have hr := h right fun part hpart ↦ mem_parts_comparison_of_mem (.inr hpart)
    simp only [doChildren, visitBinary, hl, hr]

/-- Nothing is free if all bytes that are read are bound. -/
theorem evaluateFree_eq {e : Expr}
    (h : ∀ array index, .byte array index ∈ e.parts → Bindings.isBound bindings array index = true) :
    Bindings.evaluateFree bindings e = Bindings.evaluate bindings e := by
  rw [Bindings.evaluateFree, Bindings.evaluate]
  generalize e.weight = fuel
  induction fuel generalizing e with
  | zero => cases e <;> rfl
  | succ fuel ih =>
    by_cases hconstant : IsConstant e
    · obtain ⟨a, rfl⟩ := hconstant
      rw [visit_constant, visit_constant]
    · have hne : ∀ a, e ≠ constant a := fun a ha ↦ hconstant ⟨a, ha⟩
      rw [visit_succ _ fuel hne, visit_succ _ fuel hne]
      have hpre : (assignmentEvaluator true bindings).visitExpr e =
          (assignmentEvaluator false bindings).visitExpr e := by
        cases e with
        | read array index =>
          have hbound := h array index (List.mem_singleton.mpr rfl)
          simp only [assignmentEvaluator, Bindings.evaluateByte, hbound, Bool.not_true,
            Bool.and_false, Bool.false_eq_true, if_false]
        | _ => rfl
      have hchildren : doChildren true ((assignmentEvaluator true bindings).visit fuel) e =
          doChildren true ((assignmentEvaluator false bindings).visit fuel) e :=
        doChildren_congr fun kid hkid ↦ ih fun array index hpart ↦ h array index (hkid _ hpart)
      rw [hpre]
      cases (assignmentEvaluator false bindings).visitExpr e with
      | some e' => rfl
      | none =>
        change doChildren true _ e >>= _ = doChildren true _ e >>= _
        rw [hchildren]
        cases doChildren true ((assignmentEvaluator false bindings).visit fuel) e with
        | error stop => rfl
        | ok result =>
          obtain ⟨rebuilt, e'⟩ := result
          cases rebuilt <;> rfl

end Evaluator

end CoverageVP.Klee
