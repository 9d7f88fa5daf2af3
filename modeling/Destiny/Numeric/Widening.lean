import Destiny.Numeric.Comparison
import Destiny.Numeric.Division
import Destiny.Numeric.WrappingArithmetic

/-!
# Mixed signs of one width

A signed and an unsigned operand of one width below 64 meet in the signed class
of twice the width. It has room for every result of the arithmetic operators.

* `ExactOn`        — a result that is defined and is a given integer.
* `apply_exact`, `division_exact` — operators whose exact result the common
  type can represent.
* `Widened w l r`  — the common type has twice the width, and the bounds on the
  operands; `Widened.ring` and `Widened.division` are the operators on them.

Main result: `widened_arithmetic_exact`.
-/

namespace Destiny.Numeric

open Foundation

variable {T L R : IntegerType}

/-- Defined, with the value `z`. -/
def ExactOn (result : Option (Integer T)) (z : Int) : Prop :=
  ∃ x, result = some x ∧ x.value.val = z

-- ---------------------------------------------------------------------------
-- Results that fit
-- ---------------------------------------------------------------------------

section Fits

variable {l : Operand L} {r : Operand R}
  (hl : (L.commonInteger R).underlying.InRange l.toValue.val)
  (hr : (L.commonInteger R).underlying.InRange r.toValue.val)

include hl hr

theorem apply_exact {op : BinaryOp} (hop : op = .add ∨ op = .sub ∨ op = .mul)
    (hz : (L.commonInteger R).underlying.InRange (op.exact l.toValue.val r.toValue.val)) :
    ExactOn (op.apply l r) (op.exact l.toValue.val r.toValue.val) := by
  have hl' := Operand.val_toInteger hl
  have hr' := Operand.val_toInteger hr
  obtain ⟨x, hx⟩ : ∃ x, op.apply l r = some x := by
    rw [op.apply_eq_assign, op.assign_defined_iff, not_overflows_iff hop, hl', hr']
    exact fun _ => hz.promote
  have hmod := op.apply_modEq hx
  rw [← IntegerType.width_underlying] at hmod
  exact ⟨x, hx, CInt.eq_of_modEq x.value.val_inRange hz hmod⟩

theorem division_exact (op : DivisionOp) (hzero : r.toValue.val ≠ 0)
    (hz : (L.commonInteger R).underlying.InRange (l.toValue.val.tdiv r.toValue.val)) :
    ExactOn (op.apply l r) (op.exact l.toValue.val r.toValue.val) := by
  have hl' := Operand.val_toInteger hl
  have hr' := Operand.val_toInteger hr
  have hover : ¬ (L.commonInteger R).underlying.promote.QuotientOverflow l.toValue.val
      r.toValue.val := (CTy.inRange_tdiv_iff hl.promote hr.promote hzero).mp hz.promote
  rw [op.apply_eq_assign, op.assign_eq _ _ (by rw [hr']; exact hzero), hl', hr', if_neg hover]
  refine ⟨_, rfl, CInt.val_ofInt ?_⟩
  cases op with
  | div => exact hz
  | mod => exact CTy.inRange_tmod hl _

end Fits

-- ---------------------------------------------------------------------------
-- Twice the width
-- ---------------------------------------------------------------------------

/-- Operands of `w` bits whose common type is signed and has `2 * w`. -/
structure Widened (w : Nat) (l : Operand L) (r : Operand R) : Prop where
  two_le  : 2 ≤ w
  signed  : (L.commonInteger R).signed = true
  width   : (L.commonInteger R).width = 2 * w
  left    : |l.toValue.val| < 2 ^ w
  right   : |r.toValue.val| < 2 ^ w
  product : |l.toValue.val * r.toValue.val| < 2 ^ (2 * w - 1)

namespace Widened

variable {w : Nat} {l : Operand L} {r : Operand R}

theorem symm (h : Widened w l r) : Widened w r l where
  two_le := h.two_le
  signed := by rw [IntegerType.commonInteger_comm, h.signed]
  width := by rw [IntegerType.commonInteger_comm, h.width]
  left := h.right
  right := h.left
  product := by rw [mul_comm]; exact h.product

theorem inRange (h : Widened w l r) {z : Int} (hz : |z| < 2 ^ (2 * w - 1)) :
    (L.commonInteger R).underlying.InRange z := by
  unfold CTy.InRange CTy.min CTy.max
  rw [IntegerType.signed_underlying, IntegerType.width_underlying, h.signed, h.width]
  rw [abs_lt] at hz
  simp only [if_true]
  omega

/-- There is room for a sum of two operands. -/
theorem twice_le (h : Widened w l r) : (2 : Int) * 2 ^ w ≤ 2 ^ (2 * w - 1) := by
  have hexp : w + 1 ≤ 2 * w - 1 := by
    have := h.two_le
    omega
  calc (2 : Int) * 2 ^ w = 2 ^ (w + 1) := (pow_succ' 2 w).symm
    _ ≤ 2 ^ (2 * w - 1) := pow_le_pow_right₀ (by norm_num) hexp

theorem inRange_of_abs (h : Widened w l r) {z : Int} (hz : |z| < 2 ^ w) :
    (L.commonInteger R).underlying.InRange z := by
  have hroom := h.twice_le
  have hpos : (0 : Int) < 2 ^ w := by positivity
  exact h.inRange (by omega)

theorem ring (h : Widened w l r) {op : BinaryOp} (hop : op = .add ∨ op = .sub ∨ op = .mul) :
    ExactOn (op.apply l r) (op.exact l.toValue.val r.toValue.val) := by
  have hl := h.left
  have hr := h.right
  have hroom := h.twice_le
  rw [abs_lt] at hl hr
  refine apply_exact (h.inRange_of_abs h.left) (h.inRange_of_abs h.right) hop (h.inRange ?_)
  rcases hop with rfl | rfl | rfl
  · show |l.toValue.val + r.toValue.val| < _
    rw [abs_lt]
    omega
  · show |l.toValue.val - r.toValue.val| < _
    rw [abs_lt]
    omega
  · exact h.product

theorem division (h : Widened w l r) (op : DivisionOp) (hzero : r.toValue.val ≠ 0) :
    ExactOn (op.apply l r) (op.exact l.toValue.val r.toValue.val) := by
  refine division_exact (h.inRange_of_abs h.left) (h.inRange_of_abs h.right) op hzero
    (h.inRange_of_abs ?_)
  -- a quotient is no larger than the dividend
  have hle := Int.natAbs_tdiv_le_natAbs l.toValue.val r.toValue.val
  have hl := h.left
  rw [Int.abs_eq_natAbs] at hl ⊢
  omega

end Widened

-- ---------------------------------------------------------------------------
-- Mixed signs
-- ---------------------------------------------------------------------------

/-- The common type of the two classes of one width. -/
theorem commonInteger_mixed {w : Nat} (hw : w = 8 ∨ w = 16 ∨ w = 32) {S U : IntegerType}
    (hS : S.signed = true ∧ S.width = w) (hU : U.signed = false ∧ U.width = w) :
    S.commonInteger U = S.widenSigned ∧ U.commonInteger S = S.widenSigned ∧
      S.widenSigned.signed = true ∧ S.widenSigned.width = 2 * w := by
  obtain ⟨hS, rfl⟩ := hS
  revert hw hS hU
  cases S <;> cases U <;> decide

/-- The extreme product stays `2 ^ (w - 1)` away from the limit. -/
theorem mixed_product_lt {w : Nat} (hw : 0 < w) {a b : Int} (ha : |a| ≤ 2 ^ (w - 1))
    (hb : |b| ≤ 2 ^ w - 1) : |a * b| < 2 ^ (2 * w - 1) := by
  have hpos : (0 : Int) < 2 ^ (w - 1) := by positivity
  calc |a * b| ≤ 2 ^ (w - 1) * (2 ^ w - 1) := abs_mul_le ha hb
    _ < 2 ^ (w - 1) * 2 ^ w := by
      apply mul_lt_mul_of_pos_left _ hpos
      omega
    _ = 2 ^ (2 * w - 1) := by
      rw [← pow_add]
      congr 1
      omega

theorem widened_of_mixed {w : Nat} (hw : w = 8 ∨ w = 16 ∨ w = 32) {S U : IntegerType}
    (hS : S.signed = true ∧ S.width = w) (hU : U.signed = false ∧ U.width = w) (a : Operand S)
    (b : Operand U) : Widened w a b := by
  obtain ⟨hcommon, -, hsigned, hwidth⟩ := commonInteger_mixed hw hS hU
  have hpos : 2 ≤ w := by omega
  have htwo : (2 : Int) ^ w = 2 * 2 ^ (w - 1) := by
    rw [← pow_succ', Nat.sub_add_cancel (by omega)]
  have ha := a.toValue.val_inRange
  have hb := b.toValue.val_inRange
  unfold CTy.InRange CTy.min CTy.max at ha hb
  rw [IntegerType.signed_underlying, IntegerType.width_underlying, hS.1, hS.2] at ha
  rw [IntegerType.signed_underlying, IntegerType.width_underlying, hU.1, hU.2] at hb
  simp only [if_true, Bool.false_eq_true, if_false] at ha hb
  have ha' : |a.toValue.val| ≤ 2 ^ (w - 1) := by
    rw [abs_le]
    omega
  have hb' : |b.toValue.val| ≤ 2 ^ w - 1 := by
    rw [abs_le]
    omega
  have hhalf : (0 : Int) < 2 ^ (w - 1) := by positivity
  exact ⟨hpos, by rw [hcommon, hsigned], by rw [hcommon, hwidth], by omega, by omega,
    mixed_product_lt (by omega) ha' hb'⟩

/-- **Widening.** For a signed and an unsigned class of one width below 64 the
arithmetic operators are defined on all operands, in either order, and give the
exact result in the signed class of twice the width. -/
theorem widened_arithmetic_exact {w : Nat} (hw : w = 8 ∨ w = 16 ∨ w = 32) {S U : IntegerType}
    (hS : S.signed = true ∧ S.width = w) (hU : U.signed = false ∧ U.width = w) (a : Operand S)
    (b : Operand U) :
    (S.commonInteger U = S.widenSigned ∧ U.commonInteger S = S.widenSigned ∧
      S.widenSigned.signed = true ∧ S.widenSigned.width = 2 * w) ∧
    (∀ op : BinaryOp, op = .add ∨ op = .sub ∨ op = .mul →
      ExactOn (op.apply a b) (op.exact a.toValue.val b.toValue.val) ∧
      ExactOn (op.apply b a) (op.exact b.toValue.val a.toValue.val)) ∧
    (∀ op : DivisionOp,
      (b.toValue.val ≠ 0 → ExactOn (op.apply a b) (op.exact a.toValue.val b.toValue.val)) ∧
      (a.toValue.val ≠ 0 → ExactOn (op.apply b a) (op.exact b.toValue.val a.toValue.val))) := by
  have hwide := widened_of_mixed hw hS hU a b
  exact ⟨commonInteger_mixed hw hS hU, fun op hop => ⟨hwide.ring hop, hwide.symm.ring hop⟩,
    fun op => ⟨hwide.division op, hwide.symm.division op⟩⟩

/-- The extreme product of 16-bit operands, and a quotient by a negative divisor. -/
theorem widened_arithmetic_exact_extreme :
    ExactOn (BinaryOp.mul.apply (.family ⟨CInt.ofInt _ (-32768)⟩ : Operand .int16)
      (.family ⟨CInt.ofInt _ 65535⟩ : Operand .uint16)) (-2147450880) ∧
    ExactOn (DivisionOp.div.apply (.family ⟨CInt.ofInt _ 65535⟩ : Operand .uint16)
      (.family ⟨CInt.ofInt _ (-2)⟩ : Operand .int16)) (-32767) := by
  constructor
  · exact ((widened_arithmetic_exact (w := 16) (by decide) (by decide) (by decide) _ _).2.1 .mul
      (by decide)).1
  · exact ((widened_arithmetic_exact (w := 16) (by decide) (by decide) (by decide) _ _).2.2
      .div).2 (by decide)

end Destiny.Numeric
