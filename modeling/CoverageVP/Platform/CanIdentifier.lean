import Mathlib.Data.Nat.Bitwise

/-!
# Identifiers of the CAN controller

A standard identifier has eleven bits, an extended one twenty-nine. They are stored in four bytes, of
which the second one has the flag of the extended format between bits of the identifier.
-/

namespace CoverageVP.Platform.Can

/-- The four bytes of an identifier, in the order in which they are stored. -/
structure IdField where
  sidh : BitVec 8
  sidl : BitVec 8
  eid8 : BitVec 8
  eid0 : BitVec 8
  deriving DecidableEq, Repr

/-- The flag of the extended format. -/
def TXB_EXIDE_M : BitVec 8 := 0x08#8

/-- The second byte of an extended identifier, of the bits from the sixteenth on. -/
def extendedSidl (canid : BitVec 16) : BitVec 8 :=
  let sidl := (canid &&& 0x03#16).setWidth 8
  let sidl := sidl + ((canid &&& 0x1C#16) <<< 3).setWidth 8
  sidl ||| TXB_EXIDE_M

def mcp2515IdToBuf (id : BitVec 64) (extended : Bool) : IdField :=
  let canid := (id &&& 0x0FFFF#64).setWidth 16
  if extended then
    let high := (id >>> 16).setWidth 16
    { eid0 := (canid &&& 0xFF#16).setWidth 8
      eid8 := (canid >>> 8).setWidth 8
      sidl := extendedSidl high
      sidh := (high >>> 5).setWidth 8 }
  else
    { sidh := (canid >>> 3).setWidth 8
      sidl := ((canid &&& 0x07#16) <<< 5).setWidth 8
      eid0 := 0#8
      eid8 := 0#8 }

def mcp2515BufToId (idField : IdField) : BitVec 32 × Bool :=
  let id := (idField.sidh.setWidth 32 <<< 3) + (idField.sidl >>> 5).setWidth 32
  if idField.sidl &&& TXB_EXIDE_M = TXB_EXIDE_M then
    let id := (id <<< 2) + (idField.sidl &&& 0x03#8).setWidth 32
    let id := (id <<< 8) + idField.eid8.setWidth 32
    let id := (id <<< 8) + idField.eid0.setWidth 32
    (id, true)
  else (id, false)

/-! ## Numbers -/

/-- The low bits of a word. -/
theorem toNat_and_low {w : Nat} (x : BitVec w) (k : Nat) (hk : 2 ^ k - 1 < 2 ^ w) :
    (x &&& BitVec.ofNat w (2 ^ k - 1)).toNat = x.toNat % 2 ^ k := by
  rw [BitVec.toNat_and, BitVec.toNat_ofNat, Nat.mod_eq_of_lt hk, Nat.and_two_pow_sub_one_eq_mod]

namespace IdField

variable (f : IdField)

/-- The number in the bits of a standard identifier. -/
def standard : Nat := f.sidh.toNat * 8 + f.sidl.toNat / 32

/-- The number in the bits of an extended identifier. -/
def extended : Nat := ((f.standard * 4 + f.sidl.toNat % 4) * 256 + f.eid8.toNat) * 256 + f.eid0.toNat

theorem standard_lt : f.standard < 2 ^ 11 := by
  have hsidh := f.sidh.isLt
  have hsidl := f.sidl.isLt
  unfold standard
  omega

theorem extended_lt : f.extended < 2 ^ 29 := by
  have hstandard := f.standard_lt
  have heid8 := f.eid8.isLt
  have heid0 := f.eid0.isLt
  unfold extended
  omega

end IdField

variable {f : IdField}

/-- A number is continued by further bits. -/
theorem toNat_shiftLeft_add {x y : BitVec 32} {k m n : Nat} (hx : x.toNat = m) (hy : y.toNat = n)
    (h : m * 2 ^ k + n < 2 ^ 32) : ((x <<< k) + y).toNat = m * 2 ^ k + n := by
  have hshift : m * 2 ^ k < 2 ^ 32 := Nat.lt_of_le_of_lt (Nat.le_add_right _ _) h
  rw [BitVec.toNat_add, BitVec.toNat_shiftLeft, Nat.shiftLeft_eq, hx, hy, Nat.mod_eq_of_lt hshift,
    Nat.mod_eq_of_lt h]

theorem toNat_setWidth_byte (x : BitVec 8) : (x.setWidth 32).toNat = x.toNat :=
  BitVec.toNat_setWidth_of_le (by decide)

theorem toNat_standard (f : IdField) :
    ((f.sidh.setWidth 32 <<< 3) + (f.sidl >>> 5).setWidth 32).toNat = f.standard := by
  have hlt := f.standard_lt
  have hsidl : ((f.sidl >>> 5).setWidth 32).toNat = f.sidl.toNat / 32 := by
    rw [toNat_setWidth_byte, BitVec.toNat_ushiftRight, Nat.shiftRight_eq_div_pow]
  unfold IdField.standard at hlt ⊢
  exact toNat_shiftLeft_add (toNat_setWidth_byte f.sidh) hsidl (by omega)

theorem bufToId_of_standard (h : f.sidl &&& TXB_EXIDE_M ≠ TXB_EXIDE_M) :
    (mcp2515BufToId f).1.toNat = f.standard ∧ (mcp2515BufToId f).2 = false := by
  unfold mcp2515BufToId
  dsimp only
  rw [if_neg h]
  exact ⟨toNat_standard f, rfl⟩

theorem bufToId_of_extended (h : f.sidl &&& TXB_EXIDE_M = TXB_EXIDE_M) :
    (mcp2515BufToId f).1.toNat = f.extended ∧ (mcp2515BufToId f).2 = true := by
  unfold mcp2515BufToId
  dsimp only
  rw [if_pos h]
  refine ⟨?_, rfl⟩
  have hstandard := f.standard_lt
  have heid8 := f.eid8.isLt
  have heid0 := f.eid0.isLt
  have hlow : ((f.sidl &&& 0x03#8).setWidth 32).toNat = f.sidl.toNat % 4 := by
    rw [toNat_setWidth_byte]
    exact toNat_and_low f.sidl 2 (by decide)
  have hfirst : (((f.sidh.setWidth 32 <<< 3) + (f.sidl >>> 5).setWidth 32) <<< 2 +
      (f.sidl &&& 0x03#8).setWidth 32).toNat = f.standard * 4 + f.sidl.toNat % 4 :=
    toNat_shiftLeft_add (toNat_standard f) hlow (by omega)
  have hsecond : ((((f.sidh.setWidth 32 <<< 3) + (f.sidl >>> 5).setWidth 32) <<< 2 +
      (f.sidl &&& 0x03#8).setWidth 32) <<< 8 + f.eid8.setWidth 32).toNat =
      (f.standard * 4 + f.sidl.toNat % 4) * 256 + f.eid8.toNat :=
    toNat_shiftLeft_add hfirst (toNat_setWidth_byte f.eid8) (by omega)
  exact toNat_shiftLeft_add hsecond (toNat_setWidth_byte f.eid0) (by omega)

/-! ## Fields of the bytes -/

/-- The fields of the second byte: five bits of the identifier around the flag. -/
theorem extendedSidl_spec (canid : BitVec 16) :
    (extendedSidl canid).toNat / 32 = canid.toNat / 4 % 8 ∧
      (extendedSidl canid).toNat % 4 = canid.toNat % 4 ∧
      extendedSidl canid &&& TXB_EXIDE_M = TXB_EXIDE_M := by
  have hlow : ∀ n < 32, (extendedSidl (BitVec.ofNat 16 n)).toNat / 32 = n / 4 % 8 ∧
      (extendedSidl (BitVec.ofNat 16 n)).toNat % 4 = n % 4 ∧
      extendedSidl (BitVec.ofNat 16 n) &&& TXB_EXIDE_M = TXB_EXIDE_M := by
    decide
  have hmask : extendedSidl canid = extendedSidl (canid &&& 0x1F#16) := by
    unfold extendedSidl
    rw [BitVec.and_assoc, BitVec.and_assoc]
    rfl
  have hbits : canid &&& 0x1F#16 = BitVec.ofNat 16 (canid.toNat % 32) := by
    have hmod : (canid &&& 0x1F#16).toNat = canid.toNat % 32 := toNat_and_low canid 5 (by decide)
    apply BitVec.eq_of_toNat_eq
    rw [hmod, BitVec.toNat_ofNat]
    omega
  rw [hmask, hbits]
  obtain ⟨hhigh, htwo, hflag⟩ := hlow (canid.toNat % 32) (Nat.mod_lt _ (by decide))
  refine ⟨?_, ?_, hflag⟩
  · rw [hhigh]
    omega
  · rw [htwo]
    omega

theorem standardSidl_spec (canid : BitVec 16) :
    (((canid &&& 0x07#16) <<< 5).setWidth 8).toNat / 32 = canid.toNat % 8 ∧
      ((canid &&& 0x07#16) <<< 5).setWidth 8 &&& TXB_EXIDE_M ≠ TXB_EXIDE_M := by
  have hlow : ∀ n < 8, (((BitVec.ofNat 16 n) <<< 5).setWidth 8).toNat / 32 = n ∧
      ((BitVec.ofNat 16 n) <<< 5).setWidth 8 &&& TXB_EXIDE_M ≠ TXB_EXIDE_M := by
    decide
  have hbits : canid &&& 0x07#16 = BitVec.ofNat 16 (canid.toNat % 8) := by
    have hmod : (canid &&& 0x07#16).toNat = canid.toNat % 8 := toNat_and_low canid 3 (by decide)
    apply BitVec.eq_of_toNat_eq
    rw [hmod, BitVec.toNat_ofNat]
    omega
  rw [hbits]
  exact hlow (canid.toNat % 8) (Nat.mod_lt _ (by decide))

/-! ## Round trips -/

/-- The identifiers of a format are the numbers below this one. -/
def idBound (extended : Bool) : Nat := if extended then 2 ^ 29 else 2 ^ 11

theorem toNat_canid (id : BitVec 64) : ((id &&& 0x0FFFF#64).setWidth 16).toNat = id.toNat % 2 ^ 16 := by
  have hlow : (id &&& 0x0FFFF#64).toNat = id.toNat % 2 ^ 16 := toNat_and_low id 16 (by decide)
  rw [BitVec.toNat_setWidth, hlow, Nat.mod_mod]

theorem bufToId_idToBuf_standard {id : BitVec 64} (h : id.toNat < 2 ^ 11) :
    (mcp2515BufToId (mcp2515IdToBuf id false)).1.toNat = id.toNat ∧
      (mcp2515BufToId (mcp2515IdToBuf id false)).2 = false := by
  obtain ⟨hsidl, hflag⟩ := standardSidl_spec ((id &&& 0x0FFFF#64).setWidth 16)
  have hsidh : ((((id &&& 0x0FFFF#64).setWidth 16) >>> 3).setWidth 8).toNat = id.toNat / 8 := by
    rw [BitVec.toNat_setWidth, BitVec.toNat_ushiftRight, toNat_canid, Nat.shiftRight_eq_div_pow]
    omega
  obtain ⟨hid, hextended⟩ := bufToId_of_standard (f := mcp2515IdToBuf id false) hflag
  refine ⟨hid.trans ?_, hextended⟩
  change (((id &&& 0x0FFFF#64).setWidth 16 >>> 3).setWidth 8).toNat * 8 +
    ((((id &&& 0x0FFFF#64).setWidth 16 &&& 0x07#16) <<< 5).setWidth 8).toNat / 32 = _
  rw [hsidh, hsidl, toNat_canid]
  omega

theorem bufToId_idToBuf_extended {id : BitVec 64} (h : id.toNat < 2 ^ 29) :
    (mcp2515BufToId (mcp2515IdToBuf id true)).1.toNat = id.toNat ∧
      (mcp2515BufToId (mcp2515IdToBuf id true)).2 = true := by
  have hhigh : ((id >>> 16).setWidth 16).toNat = id.toNat / 2 ^ 16 := by
    rw [BitVec.toNat_setWidth, BitVec.toNat_ushiftRight, Nat.shiftRight_eq_div_pow]
    omega
  obtain ⟨hsidl, hlow, hflag⟩ := extendedSidl_spec ((id >>> 16).setWidth 16)
  have hsidh : ((((id >>> 16).setWidth 16) >>> 5).setWidth 8).toNat = id.toNat / 2 ^ 21 := by
    rw [BitVec.toNat_setWidth, BitVec.toNat_ushiftRight, hhigh, Nat.shiftRight_eq_div_pow]
    omega
  have heid8 : ((((id &&& 0x0FFFF#64).setWidth 16) >>> 8).setWidth 8).toNat =
      id.toNat / 2 ^ 8 % 2 ^ 8 := by
    rw [BitVec.toNat_setWidth, BitVec.toNat_ushiftRight, toNat_canid, Nat.shiftRight_eq_div_pow]
    omega
  have heid0 : ((((id &&& 0x0FFFF#64).setWidth 16) &&& 0xFF#16).setWidth 8).toNat =
      id.toNat % 2 ^ 8 := by
    have hmod : ((id &&& 0x0FFFF#64).setWidth 16 &&& 0xFF#16).toNat =
        ((id &&& 0x0FFFF#64).setWidth 16).toNat % 2 ^ 8 := toNat_and_low _ 8 (by decide)
    rw [BitVec.toNat_setWidth, hmod, toNat_canid]
    omega
  obtain ⟨hid, hextended⟩ := bufToId_of_extended (f := mcp2515IdToBuf id true) hflag
  refine ⟨hid.trans ?_, hextended⟩
  unfold IdField.extended IdField.standard mcp2515IdToBuf
  simp only [if_true]
  rw [hsidh, hsidl, hlow, heid8, heid0, hhigh]
  omega

theorem bufToId_idToBuf {id : BitVec 64} {extended : Bool} (h : id.toNat < idBound extended) :
    (mcp2515BufToId (mcp2515IdToBuf id extended)).1.toNat = id.toNat ∧
      (mcp2515BufToId (mcp2515IdToBuf id extended)).2 = extended := by
  cases extended with
  | false => exact bufToId_idToBuf_standard h
  | true => exact bufToId_idToBuf_extended h

theorem bufToId_lt (f : IdField) : (mcp2515BufToId f).1.toNat < idBound (mcp2515BufToId f).2 := by
  by_cases h : f.sidl &&& TXB_EXIDE_M = TXB_EXIDE_M
  · obtain ⟨hid, hextended⟩ := bufToId_of_extended h
    rw [hid, hextended]
    exact f.extended_lt
  · obtain ⟨hid, hextended⟩ := bufToId_of_standard h
    rw [hid, hextended]
    exact f.standard_lt

/-- An identifier of a format is read back from its bytes, and bytes that are written again are read as
the same identifier. -/
theorem identifier_round_trips (id : BitVec 64) (extended : Bool) (idField : IdField) :
    (id.toNat < idBound extended →
      mcp2515BufToId (mcp2515IdToBuf id extended) = (id.setWidth 32, extended)) ∧
    mcp2515BufToId (mcp2515IdToBuf ((mcp2515BufToId idField).1.setWidth 64)
      (mcp2515BufToId idField).2) = mcp2515BufToId idField := by
  have hforward : ∀ (id : BitVec 64) (extended : Bool), id.toNat < idBound extended →
      mcp2515BufToId (mcp2515IdToBuf id extended) = (id.setWidth 32, extended) := by
    intro id extended h
    obtain ⟨hid, hextended⟩ := bufToId_idToBuf h
    apply Prod.ext
    · apply BitVec.eq_of_toNat_eq
      have hlt := (mcp2515BufToId (mcp2515IdToBuf id extended)).1.isLt
      rw [hid] at hlt ⊢
      rw [BitVec.toNat_setWidth, Nat.mod_eq_of_lt hlt]
    · exact hextended
  refine ⟨hforward id extended, ?_⟩
  have hwidth : ((mcp2515BufToId idField).1.setWidth 64).toNat = (mcp2515BufToId idField).1.toNat :=
    BitVec.toNat_setWidth_of_le (by decide)
  rw [hforward]
  · rw [BitVec.setWidth_setWidth_of_le _ (by decide), BitVec.setWidth_eq]
  · rw [hwidth]
    exact bufToId_lt idField

end CoverageVP.Platform.Can
