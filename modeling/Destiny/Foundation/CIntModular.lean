import Mathlib.Data.Int.Bitwise
import Destiny.Foundation.CIntBits

/-!
# Operators modulo powers of two

Addition, subtraction, multiplication and the bitwise operations on unbounded
two's complement integers respect congruence modulo every power of two. The
C++ operators compute them up to such a congruence, whatever conversions their
operands go through.

* `modEq_iff_testBit` — congruent modulo `2 ^ n`: the same low bits.
* `Modular`, `Modular.land` … — operations that respect the congruences.
* `and_modEq`, `or_modEq`, `xor_modEq`, `neg_modEq`, `not_modEq` — the operators.
-/

namespace Foundation

-- ---------------------------------------------------------------------------
-- Integers
-- ---------------------------------------------------------------------------

theorem getLsbD_ofInt (w : Nat) (z : Int) (j : Nat) :
    (BitVec.ofInt w z).getLsbD j = (decide (j < w) && z.testBit j) := by
  cases z with
  | ofNat n =>
    show (BitVec.ofInt w (n : Int)).getLsbD j = (decide (j < w) && n.testBit j)
    rw [BitVec.ofInt_natCast, BitVec.getLsbD_ofNat]
  | negSucc n =>
    show _ = (decide (j < w) && !n.testBit j)
    rw [BitVec.ofInt_negSucc_eq_not_ofNat, BitVec.getLsbD_not, BitVec.getLsbD_ofNat]
    by_cases h : j < w
    · simp [h]
    · simp [h]

/-- Integers are congruent modulo `2 ^ n` iff their low `n` bits agree. -/
theorem modEq_iff_testBit {n : Nat} {a b : Int} :
    a ≡ b [ZMOD 2 ^ n] ↔ ∀ j < n, a.testBit j = b.testBit j := by
  rw [← ofInt_eq_ofInt_iff]
  constructor
  · intro h j hj
    have hbit : (BitVec.ofInt n a).getLsbD j = (BitVec.ofInt n b).getLsbD j := by rw [h]
    rw [getLsbD_ofInt, getLsbD_ofInt, decide_eq_true hj, Bool.true_and, Bool.true_and] at hbit
    exact hbit
  · intro h
    refine BitVec.eq_of_getLsbD_eq fun j hj => ?_
    rw [getLsbD_ofInt, getLsbD_ofInt, h j hj]

/-- Operations that respect congruence modulo every power of two. -/
def Modular (f : Int → Int → Int) : Prop :=
  ∀ {n : Nat} {a b c d : Int}, a ≡ b [ZMOD 2 ^ n] → c ≡ d [ZMOD 2 ^ n] →
    f a c ≡ f b d [ZMOD 2 ^ n]

namespace Modular

theorem add : Modular (· + ·) := fun h h' => h.add h'

theorem sub : Modular (· - ·) := fun h h' => h.sub h'

theorem mul : Modular (· * ·) := fun h h' => h.mul h'

/-- A bitwise operation only looks at corresponding bits. -/
theorem of_testBit {f : Int → Int → Int} (g : Bool → Bool → Bool)
    (h : ∀ a b j, (f a b).testBit j = g (a.testBit j) (b.testBit j)) : Modular f := by
  intro n a b c d hab hcd
  rw [modEq_iff_testBit] at hab hcd ⊢
  intro j hj
  rw [h, h, hab j hj, hcd j hj]

theorem land : Modular Int.land := of_testBit _ Int.testBit_land

theorem lor : Modular Int.lor := of_testBit _ Int.testBit_lor

theorem xor : Modular Int.xor := of_testBit _ Int.testBit_lxor

end Modular

theorem lnot_modEq {n : Nat} {a b : Int} (h : a ≡ b [ZMOD 2 ^ n]) :
    Int.lnot a ≡ Int.lnot b [ZMOD 2 ^ n] := by
  rw [modEq_iff_testBit] at h ⊢
  intro j hj
  rw [Int.testBit_lnot, Int.testBit_lnot, h j hj]

-- ---------------------------------------------------------------------------
-- Operators
-- ---------------------------------------------------------------------------

namespace CInt

variable {t u : CTy}

/-- The bits of a value are those of the integer it denotes. -/
theorem bit_eq_testBit (x : CInt t) {j : Nat} (h : j < t.width) : x.bit j = x.val.testBit j := by
  have hbits : x.bits = BitVec.ofInt t.width x.val := congrArg CInt.bits (ofInt_val x).symm
  rw [bit, hbits, getLsbD_ofInt, decide_eq_true h, Bool.true_and]

/-- A value whose bits are computed from those of an integer is congruent to it. -/
theorem modEq_of_bit {x : CInt t} {z : Int} (h : ∀ j < t.width, x.bit j = z.testBit j) :
    x.val ≡ z [ZMOD 2 ^ t.width] := by
  rw [modEq_iff_testBit]
  intro j hj
  rw [← bit_eq_testBit x hj, h j hj]

section Bitwise

variable (x : CInt t) (y : CInt u)

theorem and_modEq : (and x y).val ≡ Int.land x.val y.val [ZMOD 2 ^ (CTy.usual t u).width] := by
  have hcast : (and x y).val ≡ Int.land (x.cast (CTy.usual t u)).val (y.cast (CTy.usual t u)).val
      [ZMOD 2 ^ (CTy.usual t u).width] := by
    refine modEq_of_bit fun j hj => ?_
    rw [Int.testBit_land, ← bit_eq_testBit _ hj, ← bit_eq_testBit _ hj]
    exact BitVec.getLsbD_and
  exact hcast.trans (Modular.land (val_cast_modEq x le_rfl) (val_cast_modEq y le_rfl))

theorem or_modEq : (or x y).val ≡ Int.lor x.val y.val [ZMOD 2 ^ (CTy.usual t u).width] := by
  have hcast : (or x y).val ≡ Int.lor (x.cast (CTy.usual t u)).val (y.cast (CTy.usual t u)).val
      [ZMOD 2 ^ (CTy.usual t u).width] := by
    refine modEq_of_bit fun j hj => ?_
    rw [Int.testBit_lor, ← bit_eq_testBit _ hj, ← bit_eq_testBit _ hj]
    exact BitVec.getLsbD_or
  exact hcast.trans (Modular.lor (val_cast_modEq x le_rfl) (val_cast_modEq y le_rfl))

theorem xor_modEq : (xor x y).val ≡ Int.xor x.val y.val [ZMOD 2 ^ (CTy.usual t u).width] := by
  have hcast : (xor x y).val ≡ Int.xor (x.cast (CTy.usual t u)).val (y.cast (CTy.usual t u)).val
      [ZMOD 2 ^ (CTy.usual t u).width] := by
    refine modEq_of_bit fun j hj => ?_
    rw [Int.testBit_lxor, ← bit_eq_testBit _ hj, ← bit_eq_testBit _ hj]
    exact BitVec.getLsbD_xor
  exact hcast.trans (Modular.xor (val_cast_modEq x le_rfl) (val_cast_modEq y le_rfl))

end Bitwise

theorem neg_modEq {x : CInt t} {r : CInt t.promote} (h : neg x = some r) :
    r.val ≡ -x.val [ZMOD 2 ^ t.promote.width] := by
  obtain ⟨-, rfl⟩ := result_eq_some.mp h
  exact (val_ofInt_modEq _).trans (val_cast_modEq x le_rfl).neg

theorem not_modEq (x : CInt t) : (not x).val ≡ Int.lnot x.val [ZMOD 2 ^ t.promote.width] := by
  have hcast : (not x).val ≡ Int.lnot (x.cast t.promote).val [ZMOD 2 ^ t.promote.width] := by
    refine modEq_of_bit fun j hj => ?_
    rw [Int.testBit_lnot, ← bit_eq_testBit _ hj]
    show (~~~(x.cast t.promote).bits).getLsbD j = _
    rw [BitVec.getLsbD_not, decide_eq_true hj, Bool.true_and]
    rfl
  exact hcast.trans (lnot_modEq (val_cast_modEq x le_rfl))

end CInt

end Foundation
