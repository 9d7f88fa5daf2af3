import Destiny.Foundation.CIntDiv
import Destiny.Numeric.Operators

/-!
# Compound and binary division

`a / b` converts both operands to their common type; `a /= b` takes its
argument as a `const T&`, so that the truncating constructor converts `b` to
the class of `a` first. Division is not compatible with truncation.

* `DivisionOp`      — `/` and `%` with their compound members.
* `CompoundAgrees`  — the member leaves the converted result of the operator.
* `agrees_of_common_eq` — if the common type is the class of `a`, both convert
  the same way.
* `agrees_iff_of_represented` — where the conversions keep the values, the one
  difference is an overflow of `int` that the wider common type avoids.
* `exists_disagreement` — otherwise some operands disagree.

Main result: `compound_division_agrees`.
-/

namespace Destiny.Numeric

open Foundation

variable {T R : IntegerType}

-- ---------------------------------------------------------------------------
-- Operators
-- ---------------------------------------------------------------------------

inductive DivisionOp where
  | div
  | mod
deriving DecidableEq, Repr

namespace DivisionOp

/-- The free operator. -/
def apply : DivisionOp → Operand T → Operand R → Option (Integer (T.commonInteger R))
  | div => Operand.div
  | mod => Operand.mod

/-- The compound member. -/
def assign : DivisionOp → Integer T → Integer T → Option (Integer T)
  | div => Integer.divAssign
  | mod => Integer.modAssign

/-- The truncated quotient and its remainder. -/
def exact : DivisionOp → Int → Int → Int
  | div => Int.tdiv
  | mod => Int.tmod

theorem apply_eq_assign (op : DivisionOp) (l : Operand T) (r : Operand R) :
    op.apply l r = op.assign (l.toInteger _) (r.toInteger _) := by
  cases op with
  | div => exact Operand.binary_eq_compound CInt.div l r
  | mod => exact Operand.binary_eq_compound CInt.mod l r

/-- The constructor reduces the promoted result. -/
theorem map_construct {p : Prop} [Decidable p] (z : Int) :
    (if p then none else some (CInt.ofInt (CTy.usual T.underlying T.underlying) z)).map
        (Integer.construct T) =
      if p then none else some ⟨CInt.ofInt T.underlying z⟩ := by
  have hle : T.underlying.width ≤ (CTy.usual T.underlying T.underlying).width :=
    CTy.width_le_usual_left _ _
  by_cases hp : p
  · rw [if_pos hp, if_pos hp]
    rfl
  · rw [if_neg hp, if_neg hp]
    exact congrArg some (congrArg Integer.mk (CInt.cast_ofInt hle z))

/-- A member with a nonzero divisor: the exact result, unless the quotient
overflows the promoted type. -/
theorem assign_eq (op : DivisionOp) (a b : Integer T) (h : b.value.val ≠ 0) :
    op.assign a b =
      if T.underlying.promote.QuotientOverflow a.value.val b.value.val then none
      else some ⟨CInt.ofInt T.underlying (op.exact a.value.val b.value.val)⟩ := by
  cases op with
  | div =>
    show (CInt.div a.value b.value).map (Integer.construct T) = _
    rw [CInt.div_self_eq h]
    exact map_construct _
  | mod =>
    show (CInt.mod a.value b.value).map (Integer.construct T) = _
    rw [CInt.mod_self_eq h]
    exact map_construct _

end DivisionOp

/-- Wherever `a op b` is defined, `a op= b` is defined and leaves `T(a op b)`. -/
def CompoundAgrees (op : DivisionOp) (a : Integer T) (b : Operand R) : Prop :=
  ∀ x ∈ op.apply (.family a) b, op.assign a (b.toInteger T) = some (Integer.convert T x)

instance (op : DivisionOp) (a : Integer T) (b : Operand R) : Decidable (CompoundAgrees op a b) :=
  inferInstanceAs (Decidable (∀ x ∈ op.apply (.family a) b, _))

-- ---------------------------------------------------------------------------
-- Equal conversions
-- ---------------------------------------------------------------------------

/-- If the common type is the class of `a`, the two paths are one. -/
theorem agrees_of_common_eq (h : T.commonInteger R = T) (op : DivisionOp) (a : Integer T)
    (b : Operand R) : CompoundAgrees op a b := by
  unfold CompoundAgrees
  rw [op.apply_eq_assign]
  generalize T.commonInteger R = C at h
  subst h
  intro x hx
  show op.assign a (b.toInteger C) = some (Integer.convert C x)
  rw [Integer.convert_self, ← Option.mem_def.mp hx]
  congr 1
  exact (Integer.convert_self a).symm

-- ---------------------------------------------------------------------------
-- Conversions that keep the values
-- ---------------------------------------------------------------------------

/-- A common type other than `T` represents every value of the other operand. -/
theorem commonInteger_represents (h : T.commonInteger R ≠ T) {z : Int}
    (hz : R.underlying.InRange z) : (T.commonInteger R).underlying.InRange z := by
  have hbounds : (T.commonInteger R).underlying.min ≤ R.underlying.min ∧
      R.underlying.max ≤ (T.commonInteger R).underlying.max := by
    revert h
    cases T <;> cases R <;> decide
  exact ⟨hbounds.1.trans hz.1, hz.2.trans hbounds.2⟩

/-- A quotient that overflows the promoted `T` but not the promoted common
type: `Int32` against `Int64`. -/
theorem overflow_avoided_iff {C : IntegerType} (hle : T.width ≤ C.width) {a b : Int}
    (ha : T.underlying.InRange a) (hb : C.underlying.InRange b) :
    T.underlying.promote.QuotientOverflow a b ∧ ¬ C.underlying.promote.QuotientOverflow a b ↔
      T = .int32 ∧ C = .int64 ∧ a = -2 ^ 31 ∧ b = -1 := by
  constructor
  · rintro ⟨⟨hs, hmin, hneg⟩, hC⟩
    subst hmin hneg
    cases T
    case int32 =>
      cases C
      case int64 => exact ⟨rfl, rfl, rfl, rfl⟩
      case int32 => exact absurd ⟨rfl, rfl, rfl⟩ hC
      all_goals first | exact absurd hle (by decide) | exact absurd hb (by decide)
    case int64 =>
      cases C
      case int64 => exact absurd ⟨rfl, rfl, rfl⟩ hC
      all_goals first | exact absurd hle (by decide) | exact absurd hb (by decide)
    all_goals first | exact absurd hs (by decide) | exact absurd ha (by decide)
  · rintro ⟨rfl, rfl, rfl, rfl⟩
    decide

theorem agrees_iff_of_represented (op : DivisionOp) (a : Integer T) (b : Operand R)
    (hzero : b.toValue.val ≠ 0) (hb : T.underlying.InRange b.toValue.val)
    (ha : (T.commonInteger R).underlying.InRange a.value.val) :
    CompoundAgrees op a b ↔
      ¬ (T = .int32 ∧ T.commonInteger R = .int64 ∧ a.value.val = -2 ^ 31 ∧
          b.toValue.val = -1) := by
  have hbC : (T.commonInteger R).underlying.InRange b.toValue.val := by
    by_cases h : T.commonInteger R = T
    · rwa [h]
    · exact commonInteger_represents h b.toValue.val_inRange
  have hle := IntegerType.width_le_commonInteger_left T R
  have haC : ((Operand.family a).toInteger (T.commonInteger R)).value.val = a.value.val :=
    Operand.val_toInteger ha
  have hbC' := Operand.val_toInteger hbC
  have hbT := Operand.val_toInteger hb
  rw [← overflow_avoided_iff hle a.value.val_inRange hbC]
  unfold CompoundAgrees
  rw [op.apply_eq_assign, op.assign_eq _ _ (by rw [hbC']; exact hzero),
    op.assign_eq _ _ (by rw [hbT]; exact hzero), haC, hbC', hbT]
  by_cases hC : (T.commonInteger R).underlying.promote.QuotientOverflow a.value.val b.toValue.val
  · rw [if_pos hC]
    exact iff_of_true (fun x hx => absurd hx (by simp)) fun h => h.2 hC
  · rw [if_neg hC]
    by_cases hT : T.underlying.promote.QuotientOverflow a.value.val b.toValue.val
    · rw [if_pos hT]
      exact iff_of_false (fun h => absurd (h _ rfl) (by simp)) fun h => h ⟨hT, hC⟩
    · rw [if_neg hT]
      refine iff_of_true (fun x hx => ?_) fun h => hT h.1
      -- truncating the common type's result is reducing it at once
      rw [← Option.some.inj (Option.mem_def.mp hx)]
      have hwidth : T.underlying.width ≤ (T.commonInteger R).underlying.width := by
        rwa [T.width_underlying, IntegerType.width_underlying]
      exact congrArg some (congrArg Integer.mk (CInt.cast_ofInt hwidth _).symm)

-- ---------------------------------------------------------------------------
-- Conversions that do not
-- ---------------------------------------------------------------------------

/-- A dividend for which the paths part. -/
def partingDividend (T R : IntegerType) : Int :=
  if T.width < R.width then 0 else if T.signed then 1 else 2

/-- Its divisor: one with only zeros in the low bits, or one that changes sign. -/
def partingDivisor (T R : IntegerType) : Int :=
  if T.width < R.width then 2 ^ T.width else if T.signed then 2 ^ T.width - 1 else -1

/-- Whenever the common type is not the class of `a`, the paths part. -/
theorem exists_disagreement (h : T.commonInteger R ≠ T) :
    ∃ (a : Integer T) (b : Operand R), b.toValue.val ≠ 0 ∧ ¬ CompoundAgrees .div a b := by
  refine ⟨⟨CInt.ofInt _ (partingDividend T R)⟩, .family ⟨CInt.ofInt _ (partingDivisor T R)⟩, ?_, ?_⟩
  · revert h
    cases T <;> cases R <;> decide
  · revert h
    cases T <;> cases R <;> decide

/-- **Compound division.** The compound members agree with the free operators
on all operands exactly for the pairs of classes whose common type is that of
the left one. For any pair they agree wherever the conversions keep the values,
but for the overflow of `int` in `Int32::min / -1`, which the free operator
computes in `Int64`. -/
theorem compound_division_agrees (T R : IntegerType) :
    ((∀ (op : DivisionOp) (a : Integer T) (b : Operand R), b.toValue.val ≠ 0 →
        CompoundAgrees op a b) ↔ T.commonInteger R = T) ∧
    (∀ (op : DivisionOp) (a : Integer T) (b : Operand R), b.toValue.val ≠ 0 →
      T.underlying.InRange b.toValue.val → (T.commonInteger R).underlying.InRange a.value.val →
        (CompoundAgrees op a b ↔
          ¬ (T = .int32 ∧ T.commonInteger R = .int64 ∧ a.value.val = -2 ^ 31 ∧
              b.toValue.val = -1))) := by
  refine ⟨⟨fun hall => ?_, fun h op a b _ => agrees_of_common_eq h op a b⟩,
    fun op a b hzero hb ha => agrees_iff_of_represented op a b hzero hb ha⟩
  by_contra h
  obtain ⟨a, b, hzero, hparts⟩ := exists_disagreement h
  exact hparts (hall .div a b hzero)

/-- `Int8(-100) / Int16(7)`: both conversions keep the values. -/
theorem compound_division_agrees_narrow :
    CompoundAgrees .mod (⟨CInt.ofInt _ (-100)⟩ : Integer .int8)
      (.family (⟨CInt.ofInt _ 7⟩ : Integer .int16)) :=
  ((compound_division_agrees .int8 .int16).2 .mod _ _ (by decide) (by decide) (by decide)).mpr
    (by decide)

/-- `Uint8(5) / 256` is `0`, but `Uint8(5) /= 256` divides by zero. -/
theorem uint8_divisor_truncated_to_zero :
    let a : Integer .uint8 := ⟨CInt.ofInt _ 5⟩
    let b : Operand .int32 := .builtin (CInt.ofInt _ 256)
    b.toValue.val ≠ 0 ∧ DivisionOp.div.apply (.family a) b = some ⟨CInt.ofInt _ 0⟩ ∧
      DivisionOp.div.assign a (b.toInteger .uint8) = none := by
  decide

end Destiny.Numeric
