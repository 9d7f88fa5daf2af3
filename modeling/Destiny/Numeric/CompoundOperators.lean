import Destiny.Numeric.Operators

/-!
# Compound and binary operators

`a op= b` converts `b` to the class of `a` and computes there; `a op b` promotes
both operands to their common type and is truncated afterwards. The operators
that are compatible with reduction do not notice. The shifts keep the class of
the left operand, and a shift count below its width survives any conversion.

* `assign_eq_convert` — the ring and the bitwise operators.
* `ShiftOp`           — `<<` and `>>` with their compound members.
* `shiftAssign_eq`    — the shifts.

Main result: `compound_operators_agree`.
-/

namespace Destiny.Numeric

open Foundation

variable {T R : IntegerType}

/-- Objects with congruent values are equal. -/
theorem Integer.eq_of_modEq {x y : Integer T} (h : x.value.val ≡ y.value.val [ZMOD 2 ^ T.width]) :
    x = y :=
  Integer.ext_val ((x.val_eq_reduce h).trans (y.val_eq_reduce (Int.ModEq.refl _)).symm)

-- ---------------------------------------------------------------------------
-- Ring and bitwise operators
-- ---------------------------------------------------------------------------

/-- Narrowing first or truncating last. -/
theorem assign_eq_convert {op : BinaryOp} {a y : Integer T} {b : Operand R}
    {x : Integer (T.commonInteger R)} (hx : op.apply (.family a) b = some x)
    (hy : op.assign a (b.toInteger T) = some y) : y = Integer.convert T x := by
  apply Integer.eq_of_modEq
  have hwidth := pow_dvd_pow (2 : Int) (IntegerType.width_le_commonInteger_left T R)
  calc y.value.val
      ≡ op.exact a.value.val (b.toInteger T).value.val [ZMOD 2 ^ T.width] := op.assign_modEq hy
    _ ≡ op.exact a.value.val b.toValue.val [ZMOD 2 ^ T.width] :=
      op.modular_exact (Int.ModEq.refl _) (b.toInteger_modEq le_rfl)
    _ ≡ x.value.val [ZMOD 2 ^ T.width] := ((op.apply_modEq hx).of_dvd hwidth).symm
    _ ≡ (Integer.convert T x).value.val [ZMOD 2 ^ T.width] := (Integer.construct_modEq x.value).symm

-- ---------------------------------------------------------------------------
-- Shifts
-- ---------------------------------------------------------------------------

inductive ShiftOp where
  | shl
  | shr
deriving DecidableEq, Repr

namespace ShiftOp

/-- The free operator. -/
def apply : ShiftOp → Operand T → Operand R → Option (Integer T)
  | shl => Operand.shl
  | shr => Operand.shr

/-- The compound member. -/
def assign : ShiftOp → Integer T → Integer T → Option (Integer T)
  | shl => Integer.shlAssign
  | shr => Integer.shrAssign

/-- The built-in operator of both. -/
def builtin : ShiftOp → BuiltinShift
  | shl => CInt.shl
  | shr => CInt.shr

/-- A shift by less than the width is defined, and of the count only the value
matters. -/
theorem builtin_eq (op : ShiftOp) {t u v : CTy} (x : CInt t) {n : CInt u} {m : CInt v}
    (heq : m.val = n.val) (hlo : 0 ≤ n.val) (hhi : n.val < t.width) :
    ∃ r, op.builtin x n = some r ∧ op.builtin x m = some r := by
  have hwidth : n.val < t.promote.width :=
    hhi.trans_le (Int.ofNat_le.mpr t.width_le_promote)
  cases op with
  | shl =>
    refine ⟨_, if_pos ⟨hlo, hwidth⟩, ?_⟩
    show CInt.shl x m = _
    rw [CInt.shl, heq, if_pos ⟨hlo, hwidth⟩]
  | shr =>
    refine ⟨_, if_pos ⟨hlo, hwidth⟩, ?_⟩
    show CInt.shr x m = _
    rw [CInt.shr, heq, if_pos ⟨hlo, hwidth⟩]

end ShiftOp

/-- Every class represents the shift counts below its width. -/
theorem inRange_of_lt_width {z : Int} (hlo : 0 ≤ z) (hhi : z < T.width) :
    T.underlying.InRange z := by
  have hbounds : T.underlying.min ≤ 0 ∧ (T.width : Int) ≤ T.underlying.max := by
    cases T <;> decide
  exact ⟨hbounds.1.trans hlo, hhi.le.trans hbounds.2⟩

/-- **Shifts.** Both are defined and leave the same. -/
theorem shiftAssign_eq (op : ShiftOp) (a : Integer T) {b : Operand R} (hlo : 0 ≤ b.toValue.val)
    (hhi : b.toValue.val < T.width) :
    ∃ x, op.apply (.family a) b = some x ∧ op.assign a (b.toInteger T) = some x := by
  have hcount := Operand.val_toInteger (inRange_of_lt_width hlo hhi)
  obtain ⟨r, hr, hr'⟩ := op.builtin_eq a.value (m := (b.toInteger T).value) hcount hlo
    (by rwa [T.width_underlying])
  have hcast : (a.value.cast T.underlying) = a.value := CInt.cast_self _
  refine ⟨Integer.construct T r, ?_, ?_⟩
  · have hfree : op.apply (.family a) b = (op.builtin (a.value.cast T.underlying) b.toValue).map
        fun v => Integer.construct T (v.cast T.underlying) := by
      cases op <;> rfl
    rw [hfree, hcast, hr]
    exact congrArg some (congrArg Integer.mk (CInt.cast_cast le_rfl r))
  · have hmember : op.assign a (b.toInteger T) =
        (op.builtin a.value (b.toInteger T).value).map (Integer.construct T) := by
      cases op <;> rfl
    rw [hmember, hr']
    rfl

/-- **Compound operators.** If neither built-in operator overflows, on the converted
operands of `a op b` and on those of `a op= b`, both are defined and `a op= b` leaves
`T(a op b)`; by less than the width the shifts are defined on both paths. -/
theorem compound_operators_agree (a : Integer T) (b : Operand R) :
    (∀ op : BinaryOp,
      ¬ op.Overflows (T.commonInteger R) ((T.commonInteger R).reduce a.value.val)
        ((T.commonInteger R).reduce b.toValue.val) →
      ¬ op.Overflows T a.value.val (T.reduce b.toValue.val) →
      ∃ x : Integer (T.commonInteger R), op.apply (.family a) b = some x ∧
        op.assign a (b.toInteger T) = some (Integer.convert T x)) ∧
    (∀ op : ShiftOp, 0 ≤ b.toValue.val → b.toValue.val < T.width →
      ∃ x : Integer T, op.apply (.family a) b = some x ∧
        op.assign a (b.toInteger T) = some (Integer.convert T x)) := by
  refine ⟨fun op hfree hmember => ?_, fun op hlo hhi => ?_⟩
  · obtain ⟨x, hx⟩ := (op.apply_defined_iff (.family a) b).mpr hfree
    rw [← Operand.val_toInteger_eq_reduce] at hmember
    obtain ⟨y, hy⟩ := (op.assign_defined_iff a (b.toInteger T)).mpr hmember
    exact ⟨x, hx, by rw [hy, assign_eq_convert hx hy]⟩
  · obtain ⟨x, hx, hassign⟩ := shiftAssign_eq op a hlo hhi
    exact ⟨x, hx, by rw [Integer.convert_self, hassign]⟩

/-- `Uint8(200) + Int16(300)` is `Int16(500)` and `Uint8(200) += Int16(300)` leaves 244;
`Int8(-100) >> Uint64(3)` shifts the sign in, and `>>=` leaves the same. -/
theorem compound_operators_agree_narrow :
    BinaryOp.add.apply (.family ⟨CInt.ofInt _ 200⟩ : Operand .uint8)
        (.family ⟨CInt.ofInt _ 300⟩ : Operand .int16) = some ⟨CInt.ofInt _ 500⟩ ∧
      BinaryOp.add.assign (⟨CInt.ofInt _ 200⟩ : Integer .uint8)
        ((.family ⟨CInt.ofInt _ 300⟩ : Operand .int16).toInteger .uint8) =
          some ⟨CInt.ofInt _ 244⟩ ∧
      ShiftOp.shr.apply (.family ⟨CInt.ofInt _ (-100)⟩ : Operand .int8)
        (.family ⟨CInt.ofInt _ 3⟩ : Operand .uint64) = some ⟨CInt.ofInt _ (-13)⟩ ∧
      ShiftOp.shr.assign (⟨CInt.ofInt _ (-100)⟩ : Integer .int8)
        ((.family ⟨CInt.ofInt _ 3⟩ : Operand .uint64).toInteger .int8) =
          some ⟨CInt.ofInt _ (-13)⟩ := by
  have hadd : BinaryOp.add.apply (.family ⟨CInt.ofInt _ 200⟩ : Operand .uint8)
      (.family ⟨CInt.ofInt _ 300⟩ : Operand .int16) = some ⟨CInt.ofInt _ 500⟩ := by decide
  have hshr : ShiftOp.shr.apply (.family ⟨CInt.ofInt _ (-100)⟩ : Operand .int8)
      (.family ⟨CInt.ofInt _ 3⟩ : Operand .uint64) = some ⟨CInt.ofInt _ (-13)⟩ := by decide
  obtain ⟨x, hx, hassign⟩ := (compound_operators_agree (⟨CInt.ofInt _ 200⟩ : Integer .uint8)
    (.family ⟨CInt.ofInt _ 300⟩ : Operand .int16)).1 .add (by decide) (by decide)
  obtain rfl := Option.some.inj (hadd.symm.trans hx)
  obtain ⟨y, hy, hshift⟩ := (compound_operators_agree (⟨CInt.ofInt _ (-100)⟩ : Integer .int8)
    (.family ⟨CInt.ofInt _ 3⟩ : Operand .uint64)).2 .shr (by decide) (by decide)
  obtain rfl := Option.some.inj (hshr.symm.trans hy)
  refine ⟨hadd, hassign.trans ?_, hshr, hshift.trans ?_⟩
  · decide
  · decide

end Destiny.Numeric
