import Destiny.Foundation.CIntOrder
import Destiny.Numeric.Types

/-!
# Comparisons

The free operators `==` and `<=>` of the header: both operands are converted to
the underlying type of the common type and compared there.

* `Operand.eq`, `Operand.compare` — the operators.
* `Excepted S U`  — a signed and an unsigned class whose common type is unsigned.
* `common_represents`, `common_of_excepted` — what the common type does to the
  operands: it represents both, or reduces the signed one.

Main result: `comparison_exact`.
-/

namespace Destiny.Numeric

open Foundation

variable {L R : IntegerType}

namespace Operand

/-- `static_cast<U>(vl) == static_cast<U>(vr)` -/
def eq (l : Operand L) (r : Operand R) : Bool :=
  let C := L.commonInteger R
  let vl := l.toValue
  let vr := r.toValue
  (vl.cast C.underlying).eq (vr.cast C.underlying)

/-- `static_cast<U>(vl) <=> static_cast<U>(vr)` -/
def compare (l : Operand L) (r : Operand R) : Ordering :=
  let C := L.commonInteger R
  let vl := l.toValue
  let vr := r.toValue
  (vl.cast C.underlying).spaceship (vr.cast C.underlying)

/-- The value an operand is compared with, in a comparison with class `R`. -/
def compared (l : Operand L) (R : IntegerType) : Int :=
  (l.toValue.cast (L.commonInteger R).underlying).val

end Operand

theorem IntegerType.commonInteger_comm (L R : IntegerType) : L.commonInteger R = R.commonInteger L := by
  cases L <;> cases R <;> rfl

namespace Operand

theorem eq_iff (l : Operand L) (r : Operand R) : l.eq r = true ↔ l.compared R = r.compared L := by
  rw [compared, compared, IntegerType.commonInteger_comm R L]
  exact CInt.eq_self_iff _ _

theorem compare_eq (l : Operand L) (r : Operand R) :
    l.compare r = Ord.compare (l.compared R) (r.compared L) := by
  rw [compared, compared, IntegerType.commonInteger_comm R L]
  exact CInt.spaceship_self _ _

end Operand

-- ---------------------------------------------------------------------------
-- What the conversions do to the values
-- ---------------------------------------------------------------------------

/-- A signed class of width `s` and an unsigned one of width `u` with `u > s`
or `s = u = 64`. -/
def Excepted (S U : IntegerType) : Prop :=
  S.signed = true ∧ U.signed = false ∧
    (U.width > S.width ∨ (S.width = 64 ∧ U.width = 64))

instance (S U : IntegerType) : Decidable (Excepted S U) :=
  inferInstanceAs (Decidable (_ ∧ _ ∧ _))

/-- Of all other pairs the common type represents every value of both. -/
theorem common_represents (h : ¬ Excepted L R) (h' : ¬ Excepted R L) {z : Int}
    (hz : L.underlying.InRange z) : (L.commonInteger R).underlying.InRange z := by
  have hbounds : (L.commonInteger R).underlying.min ≤ L.underlying.min ∧
      L.underlying.max ≤ (L.commonInteger R).underlying.max := by
    revert h h'
    cases L <;> cases R <;> decide
  exact ⟨hbounds.1.trans hz.1, hz.2.trans hbounds.2⟩

/-- The common type of an excepted pair is the unsigned class. -/
theorem common_of_excepted (h : Excepted L R) : L.commonInteger R = R := by
  revert h
  cases L <;> cases R <;> decide

theorem compared_of_represented (h : ¬ Excepted L R) (h' : ¬ Excepted R L) (l : Operand L) :
    l.compared R = l.toValue.val :=
  CInt.val_cast (common_represents h h' l.toValue.val_inRange)

theorem compared_signed (h : Excepted L R) (l : Operand L) :
    l.compared R = l.toValue.val % 2 ^ R.width := by
  have hsigned : R.underlying.signed = false := by rw [R.signed_underlying, h.2.1]
  rw [Operand.compared, common_of_excepted h]
  rw [CInt.cast, CInt.val_ofInt_of_unsigned hsigned, R.width_underlying]

theorem compared_unsigned (h : Excepted L R) (r : Operand R) :
    r.compared L = r.toValue.val := by
  rw [Operand.compared, IntegerType.commonInteger_comm, common_of_excepted h, CInt.cast_self]

/-- The signed operand of an excepted pair lies within one period around zero. -/
theorem signed_bounds (h : Excepted L R) (l : Operand L) :
    -2 ^ R.width ≤ l.toValue.val ∧ l.toValue.val < 2 ^ R.width := by
  have hbounds : -2 ^ R.width ≤ L.underlying.min ∧ L.underlying.max < 2 ^ R.width := by
    revert h
    cases L <;> cases R <;> decide
  have hrange := l.toValue.val_inRange
  exact ⟨hbounds.1.trans hrange.1, hrange.2.trans_lt hbounds.2⟩

theorem unsigned_nonneg (h : Excepted L R) (r : Operand R) : 0 ≤ r.toValue.val :=
  r.toValue.val_nonneg (by rw [R.signed_underlying, h.2.1])

-- ---------------------------------------------------------------------------
-- Swapping
-- ---------------------------------------------------------------------------

theorem compare_swap (l : Operand L) (r : Operand R) : r.compare l = (l.compare r).swap := by
  rw [Operand.compare_eq, Operand.compare_eq]
  exact Std.OrientedOrd.eq_swap

theorem eq_iff_compare (l : Operand L) (r : Operand R) : l.eq r = true ↔ l.compare r = .eq := by
  rw [Operand.eq_iff, Operand.compare_eq]
  exact compare_eq_iff_eq.symm

-- ---------------------------------------------------------------------------
-- The comparisons
-- ---------------------------------------------------------------------------

/-- **Comparison.** Numerically right for all pairs that are not excepted; for
an excepted pair, the comparison of the reduced signed operand, which is wrong
for the negative operands that are not below the other one after reduction. -/
theorem comparison_exact (l : Operand L) (r : Operand R) :
    (¬ Excepted L R → ¬ Excepted R L →
      (l.eq r = true ↔ l.toValue.val = r.toValue.val) ∧
      l.compare r = Ord.compare l.toValue.val r.toValue.val) ∧
    (Excepted L R →
      (l.eq r = true ↔ l.toValue.val % 2 ^ R.width = r.toValue.val) ∧
      l.compare r = Ord.compare (l.toValue.val % 2 ^ R.width) r.toValue.val ∧
      (l.compare r ≠ Ord.compare l.toValue.val r.toValue.val ↔
        l.toValue.val < 0 ∧ r.toValue.val ≤ l.toValue.val + 2 ^ R.width)) ∧
    (l.eq r = true ↔ l.compare r = .eq) ∧ r.compare l = (l.compare r).swap := by
  refine ⟨fun h h' => ?_, fun h => ?_, eq_iff_compare l r, compare_swap l r⟩
  · rw [Operand.eq_iff, Operand.compare_eq, compared_of_represented h h',
      compared_of_represented h' h]
    exact ⟨Iff.rfl, rfl⟩
  · have hbounds := signed_bounds h l
    rw [Operand.eq_iff, Operand.compare_eq, compared_signed h, compared_unsigned h]
    exact ⟨Iff.rfl, rfl, compare_emod_ne_iff hbounds.1 hbounds.2 (unsigned_nonneg h r)⟩

/-- `Int8(-1)` is below `Uint8(1)`, but `Uint16(65535)` equals it and `Uint16(1)`
is below it. -/
theorem comparison_exact_int8 :
    let a : Operand .int8 := .family ⟨CInt.ofInt _ (-1)⟩
    a.compare (.family ⟨CInt.ofInt _ 1⟩ : Operand .uint8) = .lt ∧
      a.eq (.family ⟨CInt.ofInt _ 65535⟩ : Operand .uint16) = true ∧
      a.compare (.family ⟨CInt.ofInt _ 1⟩ : Operand .uint16) ≠ Ord.compare (-1 : Int) 1 := by
  refine ⟨?_, ?_, ?_⟩
  · rw [((comparison_exact _ _).1 (by decide) (by decide)).2]
    decide
  · exact ((comparison_exact _ _).2.1 (by decide)).1.mpr (by decide)
  · exact ((comparison_exact _ _).2.1 (by decide)).2.2.mpr (by decide)

end Destiny.Numeric
