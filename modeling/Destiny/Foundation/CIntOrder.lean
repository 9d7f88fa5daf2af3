import Mathlib.Order.Compare
import Destiny.Foundation.CInt

/-!
# Comparison of C++ integers

`==` and `<=>` compare the operands after the usual arithmetic conversions. A
`std::strong_ordering` is an `Ordering`.

* `eq_self_iff`, `spaceship_self` — on operands of one type: the values.
* `compare_emod_ne_iff` — an order that a reduction modulo `m` of the left
  operand changes.
-/

namespace Foundation

namespace CInt

variable {t u : CTy}

/-- `x == y` -/
def eq (x : CInt t) (y : CInt u) : Bool :=
  decide ((x.cast (CTy.usual t u)).val = (y.cast (CTy.usual t u)).val)

/-- `x <=> y` -/
def spaceship (x : CInt t) (y : CInt u) : Ordering :=
  compare (x.cast (CTy.usual t u)).val (y.cast (CTy.usual t u)).val

theorem eq_self_iff (x y : CInt t) : eq x y = true ↔ x.val = y.val := by
  rw [eq, val_cast_usual_self, val_cast_usual_self, decide_eq_true_iff]

theorem spaceship_self (x y : CInt t) : spaceship x y = compare x.val y.val := by
  rw [spaceship, val_cast_usual_self, val_cast_usual_self]

end CInt

/-- Reduction of an `a` that lies less than `m` below zero moves it up by `m`:
that changes its order to a `b` below `m` unless `b` is still above it. -/
theorem compare_emod_ne_iff {a b m : Int} (ha : -m ≤ a) (ha' : a < m) (hb : 0 ≤ b) :
    compare (a % m) b ≠ compare a b ↔ a < 0 ∧ b ≤ a + m := by
  rcases Int.lt_or_le a 0 with hneg | hpos
  · have hmod : a % m = a + m := by
      rw [← Int.add_emod_right]
      exact Int.emod_eq_of_lt (by omega) (by omega)
    have hless : compare a b = .lt := compare_lt_iff_lt.mpr (by omega)
    rw [hmod, hless, ne_eq, compare_lt_iff_lt, Int.not_lt]
    exact (and_iff_right hneg).symm
  · have hmod : a % m = a := Int.emod_eq_of_lt hpos ha'
    rw [hmod]
    exact iff_of_false (fun h => h rfl) fun h => by omega

end Foundation
