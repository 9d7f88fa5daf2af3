import Destiny.Foundation.CInt

/-!
# Shifts of C++ integers

Since C++20 a shift is arithmetic: to the left it multiplies by a power of two, in
the promoted type and without overflow, to the right it divides, rounding down.
It is undefined if the count is negative or not below the promoted width.

* `shl_eq`, `shr_eq` — the operators in closed form.
-/

namespace Foundation

namespace CInt

variable {t u : CTy}

/-- Shifting bits to the left is multiplying by a power of two. -/
theorem ofInt_shiftLeft (w : Nat) (z : Int) (k : Nat) :
    BitVec.ofInt w z <<< k = BitVec.ofInt w (z * 2 ^ k) := by
  have hpow : BitVec.twoPow w k = BitVec.ofInt w (2 ^ k) := by
    have hcast : (2 : Int) ^ k = (2 ^ k : Nat) := by push_cast; rfl
    rw [hcast, BitVec.ofInt_natCast]
    apply BitVec.eq_of_toNat_eq
    rw [BitVec.toNat_twoPow, BitVec.toNat_ofNat]
  rw [BitVec.shiftLeft_eq_mul_twoPow, hpow, BitVec.ofInt_mul]

/-- `x << n` -/
theorem shl_eq (x : CInt t) (n : CInt u) :
    shl x n = if 0 ≤ n.val ∧ n.val < t.promote.width then
      some (ofInt _ (x.val * 2 ^ n.val.toNat)) else none := by
  unfold shl
  refine congrArg (fun r => if 0 ≤ n.val ∧ n.val < t.promote.width then some r else none) ?_
  exact congrArg CInt.mk (ofInt_shiftLeft _ x.val n.val.toNat)

/-- `x >> n` -/
theorem shr_eq (x : CInt t) (n : CInt u) :
    shr x n = if 0 ≤ n.val ∧ n.val < t.promote.width then
      some (ofInt _ (x.val / 2 ^ n.val.toNat)) else none := by
  unfold shr
  refine congrArg (fun r => if 0 ≤ n.val ∧ n.val < t.promote.width then some r else none) ?_
  generalize n.val.toNat = k
  rw [← val_cast_promote x]
  generalize x.cast t.promote = y
  cases hs : t.promote.signed with
  | true =>
    rw [if_pos rfl, ← ofInt_val (⟨y.bits.sshiftRight k⟩ : CInt t.promote), val_of_signed _ hs,
      val_of_signed _ hs, BitVec.toInt_sshiftRight, Int.shiftRight_eq_div_pow]
    push_cast
    rfl
  | false =>
    rw [if_neg Bool.false_ne_true, ← ofInt_val (⟨y.bits >>> k⟩ : CInt t.promote),
      val_of_unsigned _ hs, val_of_unsigned _ hs, BitVec.toNat_ushiftRight,
      Nat.shiftRight_eq_div_pow]
    push_cast
    rfl

end CInt

end Foundation
