import Destiny.Foundation.CInt

/-!
# Division of C++ integers

Quotients are truncated. Of all quotients with a nonzero divisor a type cannot
represent one: that of a signed type's least value by `-1`.

* `CTy.QuotientOverflow` — that quotient.
* `inRange_tdiv_iff`     — every other one is in range.
* `inRange_tmod`         — remainders are in range with the dividend.
* `div_self_eq`, `mod_self_eq` — the operators on two operands of one type.
* `mod_exact`            — `%` on operands the common type can represent.
-/

namespace Foundation

namespace CTy

variable {t : CTy} {a b : Int}

/-- The quotient of the least value by `-1`, in a signed type. -/
def QuotientOverflow (t : CTy) (a b : Int) : Prop := t.signed = true ∧ a = t.min ∧ b = -1

instance (t : CTy) (a b : Int) : Decidable (t.QuotientOverflow a b) :=
  inferInstanceAs (Decidable (_ ∧ _ ∧ _))

/-- A divisor other than `1` and `-1` at least halves the dividend. -/
theorem natAbs_tdiv_le_half (a : Int) (hb : 2 ≤ b.natAbs) : 2 * (a.tdiv b).natAbs ≤ a.natAbs := by
  have habs : (a.tdiv b).natAbs = a.natAbs / b.natAbs := Int.natAbs_tdiv a b
  have hmul : b.natAbs * (a.natAbs / b.natAbs) ≤ a.natAbs := Nat.mul_div_le _ _
  rw [habs]
  exact (Nat.mul_le_mul_right _ hb).trans hmul

theorem inRange_tdiv_iff (ha : t.InRange a) (hb : t.InRange b) (hzero : b ≠ 0) :
    t.InRange (a.tdiv b) ↔ ¬ t.QuotientOverflow a b := by
  unfold QuotientOverflow
  cases hs : t.signed with
  | false =>
    unfold InRange min max at ha hb ⊢
    simp only [hs, Bool.false_eq_true, if_false] at ha hb ⊢
    have hlo := Int.tdiv_nonneg ha.1 hb.1
    have hhi := Int.tdiv_le_self b ha.1
    exact iff_of_true ⟨hlo, hhi.trans ha.2⟩ (fun h => h.1)
  | true =>
    have hpos : (0 : Int) < 2 ^ (t.width - 1) := by positivity
    unfold InRange min max at ha hb ⊢
    simp only [hs, if_true] at ha hb ⊢
    by_cases hone : b = 1
    · subst hone
      rw [Int.tdiv_one]
      exact iff_of_true ha fun h => absurd h.2.2 (by decide)
    · by_cases hneg : b = -1
      · subst hneg
        rw [Int.tdiv_neg, Int.tdiv_one]
        simp only [true_and, and_true]
        omega
      · have hhalf := natAbs_tdiv_le_half a (b := b) (by omega)
        refine iff_of_true ?_ fun h => hneg h.2.2
        omega

/-- A truncated remainder lies between zero and the dividend. -/
theorem inRange_tmod (ha : t.InRange a) (b : Int) : t.InRange (a.tmod b) := by
  have hle : (a.tmod b).natAbs ≤ a.natAbs := by
    rw [Int.natAbs_tmod]
    exact Nat.mod_le _ _
  have hsign : (0 ≤ a → 0 ≤ a.tmod b) ∧ (a ≤ 0 → a.tmod b ≤ 0) := by
    refine ⟨fun h => Int.tmod_nonneg b h, fun h => ?_⟩
    have hneg := Int.tmod_nonneg b (Int.neg_nonneg_of_nonpos h)
    rw [Int.neg_tmod] at hneg
    omega
  have hzero : t.min ≤ 0 ∧ 0 ≤ t.max := by
    have hpos : (0 : Int) < 2 ^ (t.width - 1) := by positivity
    have hpos' : (0 : Int) < 2 ^ t.width := by positivity
    unfold min max
    cases t.signed
    · simp only [Bool.false_eq_true, if_false]
      omega
    · simp only [if_true]
      omega
  unfold InRange at ha ⊢
  omega

end CTy

namespace CInt

variable {t : CTy} {x y : CInt t}

/-- `x / y` in one type: the exact quotient in the promoted type, or undefined. -/
theorem div_self_eq (h : y.val ≠ 0) :
    div x y = if t.promote.QuotientOverflow x.val y.val then none
      else some (ofInt _ (x.val.tdiv y.val)) := by
  have hrange := CTy.inRange_tdiv_iff (val_inRange x).promote (val_inRange y).promote h
  unfold div
  simp only [val_cast_usual_self, h, if_false]
  by_cases hover : t.promote.QuotientOverflow x.val y.val
  · have hout : ¬ t.promote.InRange (x.val.tdiv y.val) := fun hin => hrange.mp hin hover
    rw [if_pos hover, result, if_pos]
    rw [CTy.usual_self]
    exact ⟨hover.1, hout⟩
  · rw [if_neg hover]
    apply result_of_inRange
    rw [CTy.usual_self]
    exact hrange.mpr hover

/-- `x % y` in one type, undefined where the quotient is. -/
theorem mod_self_eq (h : y.val ≠ 0) :
    mod x y = if t.promote.QuotientOverflow x.val y.val then none
      else some (ofInt _ (x.val.tmod y.val)) := by
  unfold mod
  rw [div_self_eq h]
  simp only [val_cast_usual_self]
  split <;> rfl

/-- `x % y` where the common type can represent the operands and the quotient. -/
theorem mod_exact {u : CTy} {x : CInt t} {y : CInt u} (hx : (CTy.usual t u).InRange x.val)
    (hy : (CTy.usual t u).InRange y.val) (hzero : y.val ≠ 0)
    (hz : (CTy.usual t u).InRange (x.val.tdiv y.val)) :
    ∃ r, mod x y = some r ∧ r.val = x.val.tmod y.val := by
  obtain ⟨q, hq, -⟩ := div_exact hx hy hzero hz
  refine ⟨_, ?_, val_ofInt (CTy.inRange_tmod hx _)⟩
  unfold mod
  rw [hq, val_cast hx, val_cast hy]
  rfl

end CInt

end Foundation
