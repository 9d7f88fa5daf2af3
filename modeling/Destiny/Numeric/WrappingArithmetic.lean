import Destiny.Numeric.Operators

/-!
# Arithmetic that wraps

Addition, subtraction and multiplication in the classes other than `Int32` and
`Int64`. Operands narrower than `int` are promoted to it, so the built-in
operator is signed for half of these classes; where its result fits, the
member reduces it into the class. It does not fit in one place: `int` cannot
represent every product of two `Uint16` values.

* `WrapsOn`, `AssignWrapsOn` — an operator is defined and gives the reduced
  exact result.
* `IntOverflow`   — the product of two `Uint16` values exceeds `int`.
* `assign_wraps_iff` — the compound members.

Main result: `wrapping_arithmetic_iff`.
-/

namespace Destiny.Numeric

open Foundation

variable {T L R : IntegerType}

namespace IntegerType

/-- The classes narrower than `int` and the unsigned ones. -/
def wraps : IntegerType → Bool
  | int32 | int64 => false
  | _ => true

end IntegerType

/-- `l op r` is defined and is the exact result reduced into the common type. -/
def WrapsOn (op : BinaryOp) (l : Integer L) (r : Integer R) : Prop :=
  ∃ x, op.apply (.family l) (.family r) = some x ∧
    x.value.val = (L.commonInteger R).reduce (op.exact l.value.val r.value.val)

/-- `a op= b` is defined and leaves the exact result reduced into the class. -/
def AssignWrapsOn (op : BinaryOp) (a b : Integer T) : Prop :=
  ∃ x, op.assign a b = some x ∧ x.value.val = T.reduce (op.exact a.value.val b.value.val)

/-- The product of two values of class `Uint16` exceeds `int`. -/
def IntOverflow (op : BinaryOp) (T : IntegerType) (a b : Int) : Prop :=
  op = .mul ∧ T = .uint16 ∧ a * b > 2 ^ 31 - 1

instance (op : BinaryOp) (T : IntegerType) (a b : Int) : Decidable (IntOverflow op T a b) :=
  inferInstanceAs (Decidable (_ ∧ _ ∧ _))

-- ---------------------------------------------------------------------------
-- Results that fit
-- ---------------------------------------------------------------------------

theorem abs_mul_le {a b m n : Int} (ha : |a| ≤ m) (hb : |b| ≤ n) : |a * b| ≤ m * n := by
  rw [abs_mul]
  exact mul_le_mul ha hb (abs_nonneg b) ((abs_nonneg a).trans ha)

/-- Two values of a class narrower than `Uint16` have results that `int` can represent. -/
theorem int_inRange_of_small {op : BinaryOp} (hop : op = .add ∨ op = .sub ∨ op = .mul) {a b : Int}
    (ha : |a| ≤ 2 ^ 15) (hb : |b| ≤ 2 ^ 15) : CTy.int32.InRange (op.exact a b) := by
  have hmul := abs_mul_le ha hb
  rw [abs_le] at ha hb hmul
  unfold CTy.InRange CTy.min CTy.max
  simp only [CTy.int32, if_true]
  rcases hop with rfl | rfl | rfl
  · show _ ≤ a + b ∧ a + b ≤ _
    omega
  · show _ ≤ a - b ∧ a - b ≤ _
    omega
  · show _ ≤ a * b ∧ a * b ≤ _
    omega

/-- Of two `Uint16` values only the product may not fit. -/
theorem int_inRange_of_uint16 {op : BinaryOp} (hop : op = .add ∨ op = .sub ∨ op = .mul) {a b : Int}
    (ha : CTy.uint16.InRange a) (hb : CTy.uint16.InRange b) :
    CTy.int32.InRange (op.exact a b) ↔ ¬ IntOverflow op .uint16 a b := by
  unfold CTy.InRange CTy.min CTy.max at ha hb ⊢
  simp only [CTy.int32, CTy.uint16, Bool.false_eq_true, if_true, if_false] at ha hb ⊢
  have hmul : 0 ≤ a * b := mul_nonneg ha.1 hb.1
  unfold IntOverflow
  rcases hop with rfl | rfl | rfl
  · show (_ ≤ a + b ∧ a + b ≤ _) ↔ _
    exact iff_of_true (by omega) fun h => absurd h.1 (by decide)
  · show (_ ≤ a - b ∧ a - b ≤ _) ↔ _
    exact iff_of_true (by omega) fun h => absurd h.1 (by decide)
  · show (_ ≤ a * b ∧ a * b ≤ _) ↔ _
    simp only [true_and]
    omega

/-- In a class that wraps, the promoted type can represent the exact result,
or is unsigned, but for the overflow of `int`. -/
theorem promoted_fits_iff {op : BinaryOp} (hop : op = .add ∨ op = .sub ∨ op = .mul)
    (hT : T.wraps) {a b : Int} (ha : T.underlying.InRange a) (hb : T.underlying.InRange b) :
    (T.underlying.promote.signed = true → T.underlying.promote.InRange (op.exact a b)) ↔
      ¬ IntOverflow op T a b := by
  by_cases hT16 : T = .uint16
  · subst hT16
    have hiff := int_inRange_of_uint16 hop ha hb
    exact ⟨fun h => hiff.mp (h rfl), fun h _ => hiff.mpr h⟩
  · have hno : ¬ IntOverflow op T a b := fun h => hT16 h.2.1
    refine iff_of_true (fun hs => ?_) hno
    -- the classes left are `Int8`, `Int16` and `Uint8`
    have hsmall : T.underlying.promote = CTy.int32 ∧
        ∀ z, T.underlying.InRange z → |z| ≤ 2 ^ 15 := by
      cases T
      case uint32 | uint64 => exact absurd hs (by decide)
      case int32 | int64 => exact absurd hT (by decide)
      case uint16 => exact absurd rfl hT16
      all_goals
        refine ⟨rfl, fun z hz => ?_⟩
        unfold CTy.InRange CTy.min CTy.max at hz
        norm_num [IntegerType.underlying, CTy.int8, CTy.int16, CTy.uint8] at hz
        rw [abs_le]
        omega
    rw [hsmall.1]
    exact int_inRange_of_small hop (hsmall.2 a ha) (hsmall.2 b hb)

-- ---------------------------------------------------------------------------
-- Members and operators
-- ---------------------------------------------------------------------------

theorem not_overflows_iff {op : BinaryOp} (hop : op = .add ∨ op = .sub ∨ op = .mul) {a b : Int} :
    ¬ op.Overflows T a b ↔
      (T.underlying.promote.signed = true → T.underlying.promote.InRange (op.exact a b)) := by
  rcases hop with rfl | rfl | rfl <;> exact not_and_not_right

/-- **The compound members.** -/
theorem assign_wraps_iff {op : BinaryOp} (hop : op = .add ∨ op = .sub ∨ op = .mul) (hT : T.wraps)
    (a b : Integer T) : AssignWrapsOn op a b ↔ ¬ IntOverflow op T a.value.val b.value.val := by
  have hfits := promoted_fits_iff hop hT a.data.val_inRange b.data.val_inRange
  have hdef : (∃ x, op.assign a b = some x) ↔ ¬ IntOverflow op T a.value.val b.value.val :=
    (op.assign_defined_iff a b).trans ((not_overflows_iff hop).trans hfits)
  constructor
  · rintro ⟨x, hx, -⟩
    exact hdef.mp ⟨x, hx⟩
  · intro h
    obtain ⟨x, hx⟩ := hdef.mpr h
    exact ⟨x, hx, x.val_eq_reduce (op.assign_modEq hx)⟩

/-- The free operators, through the member of the common type. -/
theorem apply_wraps_iff {op : BinaryOp} (hop : op = .add ∨ op = .sub ∨ op = .mul)
    (hC : (L.commonInteger R).wraps) (l : Integer L) (r : Integer R) :
    WrapsOn op l r ↔ ¬ IntOverflow op (L.commonInteger R)
      (Integer.convert (L.commonInteger R) l).value.val
      (Integer.convert (L.commonInteger R) r).value.val := by
  rw [← assign_wraps_iff hop hC]
  have hconv := op.apply_eq_assign (.family l) (.family r)
  constructor
  · rintro ⟨x, hx, -⟩
    have hassign := hconv.symm.trans hx
    exact ⟨x, hassign, x.val_eq_reduce (op.assign_modEq hassign)⟩
  · rintro ⟨x, hx, -⟩
    have happly := hconv.trans hx
    exact ⟨x, happly, x.val_eq_reduce (op.apply_modEq happly)⟩

/-- **Wrapping arithmetic.** In every common type other than `Int32` and
`Int64`, sums, differences and products are defined and are the exact results
reduced into the type, in the free operators and in the compound members,
unless `int` overflows on the product of two `Uint16` values. -/
theorem wrapping_arithmetic_iff (op : BinaryOp) (hop : op = .add ∨ op = .sub ∨ op = .mul) :
    (∀ L R : IntegerType, (L.commonInteger R).wraps → ∀ (l : Integer L) (r : Integer R),
      WrapsOn op l r ↔ ¬ IntOverflow op (L.commonInteger R)
        (Integer.convert (L.commonInteger R) l).value.val
        (Integer.convert (L.commonInteger R) r).value.val) ∧
    (∀ T : IntegerType, T.wraps → ∀ a b : Integer T,
      AssignWrapsOn op a b ↔ ¬ IntOverflow op T a.value.val b.value.val) :=
  ⟨fun _ _ hC l r => apply_wraps_iff hop hC l r, fun _ hT a b => assign_wraps_iff hop hT a b⟩

/-- The greatest value of class `Uint16`. -/
def top : Integer .uint16 := ⟨CInt.ofInt _ 65535⟩

/-- `Int8(-1) * Uint16(2)` is the product of 65535 and 2; 65535 squared does not fit. -/
theorem wrapping_arithmetic_iff_converted :
    WrapsOn .mul (⟨CInt.ofInt _ (-1)⟩ : Integer .int8) (⟨CInt.ofInt _ 2⟩ : Integer .uint16) ∧
      ¬ AssignWrapsOn .mul top top :=
  ⟨((wrapping_arithmetic_iff .mul (by decide)).1 .int8 .uint16 rfl _ _).mpr (by decide),
    fun h => ((wrapping_arithmetic_iff .mul (by decide)).2 .uint16 rfl top top).mp h (by decide)⟩

/-- The square of the greatest `Uint16` value overflows `int`, in the free
operator and in the member. -/
theorem uint16_product_overflows : ¬ WrapsOn .mul top top ∧ ¬ AssignWrapsOn .mul top top := by
  have hfree : BinaryOp.mul.apply (.family top) (.family top) = none := by decide
  have hassign : BinaryOp.mul.assign top top = none := by decide
  constructor
  · rintro ⟨x, hx, -⟩
    rw [hfree] at hx
    exact absurd hx (by simp)
  · rintro ⟨x, hx, -⟩
    rw [hassign] at hx
    exact absurd hx (by simp)

end Destiny.Numeric
