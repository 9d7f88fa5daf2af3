import Mathlib.Algebra.BigOperators.Fin
import Destiny.Foundation.CInt

/-!
# C++ integers, bit by bit

What the operators do to single bits. Bits are read by position
(`CInt.bit`), so that values of different types can be compared.

* `bit_cast`         — truncation and zero extension keep the bits.
* `bit_and` …        — the bitwise operators.
* `shr_unsigned`, `shl_unsigned` — the shifts of unsigned operands.
* `val_eq_sum_bits`  — an unsigned value is the sum of its bits' weights.
-/

namespace Foundation

namespace CInt

variable {t u : CTy}

/-- Bit `j` of the representation; beyond the width there is nothing. -/
def bit (x : CInt t) (j : Nat) : Bool := x.bits.getLsbD j

theorem bit_of_ge (x : CInt t) {j : Nat} (h : t.width ≤ j) : x.bit j = false :=
  BitVec.getLsbD_of_ge _ _ h

theorem eq_of_bit {x y : CInt t} (h : ∀ j < t.width, x.bit j = y.bit j) : x = y := by
  cases x
  cases y
  congr 1
  exact BitVec.eq_of_getLsbD_eq fun j hj => h j hj

/-- Only zero has no bit. -/
theorem val_eq_zero_iff {x : CInt t} : x.val = 0 ↔ ∀ j, x.bit j = false := by
  have hbits : (ofInt t 0).bits = 0#t.width := by
    simp [ofInt]
  have hzero : ∀ j, (ofInt t 0).bit j = false := by
    intro j
    rw [bit, hbits, BitVec.getLsbD_zero]
  constructor
  · intro h j
    rw [← ofInt_val x, h, hzero]
  · intro h
    have hx : x = ofInt t 0 := eq_of_bit fun j _ => (h j).trans (hzero j).symm
    rw [hx]
    cases hs : t.signed with
    | false => rw [val_ofInt_of_unsigned hs, Int.zero_emod]
    | true => rw [val_of_signed _ hs, hbits, BitVec.toInt_zero]

-- ---------------------------------------------------------------------------
-- Conversions
-- ---------------------------------------------------------------------------

theorem bits_cast_of_unsigned (x : CInt t) (u : CTy) (h : t.signed = false) :
    (x.cast u).bits = x.bits.setWidth u.width := by
  rw [cast, ofInt, val_of_unsigned x h, BitVec.ofInt_natCast, BitVec.ofNat_toNat]

theorem bits_cast_of_le (x : CInt t) {u : CTy} (h : u.width ≤ t.width) :
    (x.cast u).bits = x.bits.setWidth u.width := by
  cases hs : t.signed with
  | false => exact bits_cast_of_unsigned x u hs
  | true =>
    rw [cast, ofInt, val_of_signed x hs]
    exact BitVec.signExtend_eq_setWidth_of_le x.bits h

/-- A conversion keeps the bits, unless it extends a sign. -/
theorem bit_cast {x : CInt t} (h : t.signed = false ∨ u.width ≤ t.width) (j : Nat) :
    (x.cast u).bit j = (decide (j < u.width) && x.bit j) := by
  have hbits : (x.cast u).bits = x.bits.setWidth u.width := by
    rcases h with h | h
    · exact bits_cast_of_unsigned x u h
    · exact bits_cast_of_le x h
  rw [bit, hbits, BitVec.getLsbD_setWidth]
  rfl

/-- Conversion to a type that is no narrower and extends no sign keeps every bit. -/
theorem bit_cast_of_le {x : CInt t} (hle : t.width ≤ u.width)
    (h : t.signed = false ∨ u.width ≤ t.width) (j : Nat) : (x.cast u).bit j = x.bit j := by
  rw [bit_cast h]
  by_cases hj : j < t.width
  · have hlt := lt_of_lt_of_le hj hle
    simp [hlt]
  · rw [x.bit_of_ge (Nat.le_of_not_lt hj), Bool.and_false]

/-- Promotion of an unsigned value keeps the bits. -/
theorem bit_cast_promote {x : CInt t} (h : t.signed = false) (j : Nat) :
    (x.cast t.promote).bit j = x.bit j :=
  bit_cast_of_le t.width_le_promote (Or.inl h) j

-- ---------------------------------------------------------------------------
-- Bitwise operators
-- ---------------------------------------------------------------------------

/-- An operand whose sign is not extended by the conversion to the common type. -/
def KeepsBits (t c : CTy) : Prop := t.signed = false ∨ c.width ≤ t.width

theorem bit_and {x : CInt t} {y : CInt u} (hx : KeepsBits t (CTy.usual t u))
    (hy : KeepsBits u (CTy.usual t u)) (j : Nat) : (and x y).bit j = (x.bit j && y.bit j) := by
  rw [← bit_cast_of_le (CTy.width_le_usual_left t u) hx,
    ← bit_cast_of_le (CTy.width_le_usual_right t u) hy]
  exact BitVec.getLsbD_and

theorem bit_or {x : CInt t} {y : CInt u} (hx : KeepsBits t (CTy.usual t u))
    (hy : KeepsBits u (CTy.usual t u)) (j : Nat) : (or x y).bit j = (x.bit j || y.bit j) := by
  rw [← bit_cast_of_le (CTy.width_le_usual_left t u) hx,
    ← bit_cast_of_le (CTy.width_le_usual_right t u) hy]
  exact BitVec.getLsbD_or

theorem bit_not {x : CInt t} (h : t.signed = false) (j : Nat) :
    (not x).bit j = (decide (j < t.promote.width) && !x.bit j) := by
  rw [← bit_cast_promote h]
  exact BitVec.getLsbD_not

/-- A literal of `g` ones. -/
theorem bit_ones {g : Nat} (h : g ≤ t.width) (j : Nat) :
    (ofInt t (2 ^ g - 1)).bit j = decide (j < g) := by
  have hcast : (2 : Int) ^ g - 1 = ((2 ^ g - 1 : Nat) : Int) := by
    have hpos : 0 < 2 ^ g := by positivity
    push_cast [Nat.cast_sub hpos]
    rfl
  rw [bit, ofInt, hcast, BitVec.ofInt_natCast, BitVec.getLsbD_ofNat, Nat.testBit_two_pow_sub_one]
  by_cases hj : j < g
  · have hlt := lt_of_lt_of_le hj h
    simp [hj, hlt]
  · simp [hj]

/-- Promotion of an unsigned value leaves the sign bit clear. -/
theorem msb_cast_promote {x : CInt t} (h : t.signed = false) (hs : t.promote.signed = true) :
    (x.cast t.promote).bits.msb = false := by
  have hlt : t.width < t.promote.width := by
    unfold CTy.promote at hs ⊢
    by_cases hw : t.width < 32
    · rw [if_pos hw]
      exact hw
    · rw [if_neg hw, h] at hs
      simp at hs
  rw [bits_cast_of_unsigned x _ h, BitVec.msb_setWidth, BitVec.getLsbD_of_ge x.bits _ (by omega),
    Bool.and_false]

/-- Shifting an unsigned value down moves its bits down. -/
theorem shr_unsigned {x : CInt t} {n : CInt u} (h : t.signed = false) (hlo : 0 ≤ n.val)
    (hhi : n.val < t.promote.width) :
    ∃ r, shr x n = some r ∧ ∀ j, r.bit j = x.bit (n.val.toNat + j) := by
  refine ⟨_, if_pos ⟨hlo, hhi⟩, fun j => ?_⟩
  rw [← bit_cast_promote h]
  unfold bit
  cases hs : t.promote.signed with
  | false =>
    simp only [Bool.false_eq_true, if_false]
    exact BitVec.getLsbD_ushiftRight ..
  | true =>
    simp only [if_true]
    rw [BitVec.sshiftRight_eq_of_msb_false (msb_cast_promote h hs)]
    exact BitVec.getLsbD_ushiftRight ..

/-- Shifting an unsigned value that is not promoted up moves its bits up. -/
theorem shl_unsigned {x : CInt t} {n : CInt u} (h : t.signed = false) (hp : t.promote = t)
    (hlo : 0 ≤ n.val) (hhi : n.val < t.width) :
    ∃ r, shl x n = some r ∧
      ∀ j, r.bit j = (decide (j < t.width) && !decide (j < n.val.toNat) && x.bit (j - n.val.toNat)) := by
  refine ⟨_, if_pos ⟨hlo, by rw [hp]; exact hhi⟩, fun j => ?_⟩
  have hw : t.promote.width = t.width := by rw [hp]
  rw [bit, BitVec.getLsbD_shiftLeft]
  simp only [hw]
  congr 1
  exact bit_cast_promote h _

-- ---------------------------------------------------------------------------
-- Values
-- ---------------------------------------------------------------------------

/-- A number below `2 ^ w` is the sum of its bits' weights. -/
theorem eq_sum_testBit (w n : Nat) (h : n < 2 ^ w) :
    n = ∑ i : Fin w, (n.testBit i).toNat * 2 ^ i.val := by
  induction w generalizing n with
  | zero =>
    rw [Fin.sum_univ_zero]
    omega
  | succ w ih =>
    have hrest := ih (n % 2 ^ w) (Nat.mod_lt _ (by positivity))
    have hlow : ∀ i : Fin w, (n % 2 ^ w).testBit i = n.testBit i := by
      intro i
      simp [Nat.testBit_mod_two_pow]
    simp only [hlow] at hrest
    rw [Fin.sum_univ_castSucc]
    simp only [Fin.val_castSucc, Fin.val_last]
    rw [← hrest]
    have htop : (n.testBit w).toNat = n / 2 ^ w := by
      have hlt : n / 2 ^ w < 2 := by
        rw [Nat.div_lt_iff_lt_mul (by positivity), ← pow_succ']
        exact h
      rw [Nat.testBit_eq_decide_div_mod_eq]
      rcases Nat.lt_or_ge (n / 2 ^ w) 1 with hzero | hone
      · simp [Nat.lt_one_iff.mp hzero]
      · have heq : n / 2 ^ w = 1 := by omega
        simp [heq]
    rw [htop, Nat.mul_comm]
    exact (Nat.mod_add_div n (2 ^ w)).symm

/-- **The value of the bits.** -/
theorem val_eq_sum_bits (x : CInt t) (h : t.signed = false) :
    x.val = ∑ i : Fin t.width, if x.bit i then 2 ^ i.val else 0 := by
  have hsum := eq_sum_testBit t.width x.bits.toNat x.bits.isLt
  rw [val_of_unsigned x h, hsum]
  push_cast
  refine Finset.sum_congr rfl fun i _ => ?_
  show ((x.bit i).toNat : Int) * 2 ^ i.val = _
  cases x.bit i <;> simp

end CInt

end Foundation
