import Mathlib.Data.List.Perm.Basic
import Mathlib.Data.List.Nodup
import Destiny.Foundation.WrapCounter

/-!
# The order of a lap

The values of a wrapping counter in the order in which a lap from `a` meets
them.

* `LapSorted a xs`  — a list in that order; such a list is determined by its
  members (`LapSorted.eq`).
* `lapFilter a p`   — the values that satisfy `p`, in that order.
* `lapFilter_cons`  — after the first of them, a new lap meets the others in the
  same order.
-/

namespace Foundation

variable {n : Nat} {a x y : BitVec n} {xs ys : List (BitVec n)}

/-- From `x` on, `y` is as far as it was from `a`, less the way to `x`. -/
theorem dist_succ_add (h : dist a x < dist a y) : dist (x + 1) y + (dist a x + 1) = dist a y := by
  obtain ⟨d, hd⟩ : ∃ d, dist a y = d + (dist a x + 1) := ⟨dist a y - (dist a x + 1), by omega⟩
  have hx : lap a (dist a x + 1) = x + 1 := by rw [lap_succ, lap_dist]
  have hy : lap (x + 1) d = y := by
    rw [← hx, lap_lap, Nat.add_comm, ← hd, lap_dist]
  have hlt := dist_lt a y
  rw [← hy, dist_lap (by omega), hy, hd]

/-- One increment leads one nearer to every other value. -/
theorem dist_succ_of_ne (h : x ≠ a) : dist (a + 1) x + 1 = dist a x := by
  have hself : dist a a = 0 := by
    have hzero := dist_lap (a := a) (Nat.two_pow_pos n)
    rwa [lap_zero] at hzero
  have hpos : 0 < dist a x := by
    rw [Nat.pos_iff_ne_zero]
    intro hdist
    have hlap := lap_dist a x
    rw [hdist, lap_zero] at hlap
    exact h hlap.symm
  have hnear := dist_succ_add (hself.trans_lt hpos)
  rwa [hself, Nat.zero_add] at hnear

/-- A value is what a lap that starts behind it meets last. -/
theorem dist_succ_self (a : BitVec n) : dist (a + 1) a = 2 ^ n - 1 := by
  have hpos := Nat.two_pow_pos n
  have hlap : lap (a + 1) (2 ^ n - 1) = a := by
    rw [lap_succ_left, Nat.sub_add_cancel hpos, lap_two_pow]
  have hdist : dist (a + 1) (lap (a + 1) (2 ^ n - 1)) = 2 ^ n - 1 := dist_lap (by omega)
  rwa [hlap] at hdist

/-- In the order of a lap from `a`, without repetition. -/
def LapSorted (a : BitVec n) (xs : List (BitVec n)) : Prop :=
  xs.Pairwise fun x y => dist a x < dist a y

namespace LapSorted

theorem nodup (h : LapSorted a xs) : xs.Nodup := by
  refine h.imp fun {x y} hlt => ?_
  rintro rfl
  exact Nat.lt_irrefl _ hlt

/-- A list in the order of a lap is determined by its members. -/
theorem eq (hx : LapSorted a xs) (hy : LapSorted a ys) (h : ∀ x, x ∈ xs ↔ x ∈ ys) : xs = ys := by
  refine List.Perm.eq_of_pairwise (fun x y _ _ hlt hgt => ?_) hx hy
    ((List.perm_ext_iff_of_nodup hx.nodup hy.nodup).mpr h)
  exact absurd hgt (Nat.lt_asymm hlt)

/-- What follows the first value is in the order of a lap that starts behind it. -/
theorem tail (h : LapSorted a (x :: xs)) : LapSorted (x + 1) xs := by
  obtain ⟨hfirst, hrest⟩ := List.pairwise_cons.mp h
  refine hrest.imp_of_mem fun {y z} hy hz hlt => ?_
  have hy' := dist_succ_add (hfirst y hy)
  have hz' := dist_succ_add (hfirst z hz)
  omega

end LapSorted

/-- The values that satisfy `p`, in the order of a lap from `a`. -/
@[irreducible] def lapFilter (a : BitVec n) (p : BitVec n → Bool) : List (BitVec n) :=
  ((List.range (2 ^ n)).map (lap a)).filter p

variable {p p' : BitVec n → Bool}

theorem mem_lapFilter : x ∈ lapFilter a p ↔ p x = true := by
  rw [lapFilter, List.mem_filter]
  refine and_iff_right (List.mem_map.mpr ⟨dist a x, ?_, lap_dist a x⟩)
  exact List.mem_range.mpr (dist_lt a x)

theorem lapSorted_lapFilter (a : BitVec n) (p : BitVec n → Bool) : LapSorted a (lapFilter a p) := by
  rw [lapFilter, LapSorted]
  refine List.Pairwise.filter _ (List.pairwise_map.mpr ?_)
  refine List.pairwise_lt_range.imp_of_mem fun {j k} hj hk hlt => ?_
  rwa [dist_lap (List.mem_range.mp hj), dist_lap (List.mem_range.mp hk)]

theorem lapFilter_eq_nil : lapFilter a p = [] ↔ ∀ x, p x = false := by
  constructor
  · intro h x
    rw [← Bool.not_eq_true, ← mem_lapFilter (a := a), h]
    exact List.not_mem_nil
  · intro h
    rw [List.eq_nil_iff_forall_not_mem]
    intro x hx
    rw [mem_lapFilter, h x] at hx
    exact Bool.false_ne_true hx

/-- Nothing before the first value satisfies `p`. -/
theorem lapFilter_first (h : lapFilter a p = x :: xs) {j : Nat} (hj : j < dist a x) :
    p (lap a j) = false := by
  have hsorted := lapSorted_lapFilter a p
  rw [h] at hsorted
  rw [← Bool.not_eq_true, ← mem_lapFilter (a := a), h, List.mem_cons]
  have hdist : dist a (lap a j) = j := dist_lap (hj.trans (dist_lt a x))
  rintro (heq | hmem)
  · rw [heq] at hdist
    omega
  · have hlt := (List.pairwise_cons.mp hsorted).1 _ hmem
    omega

/-- **The next lap.** Without the first value, and from behind it, the others
come in the same order. -/
theorem lapFilter_cons (h : lapFilter a p = x :: xs)
    (hp : ∀ y, p' y = true ↔ p y = true ∧ y ≠ x) : lapFilter (x + 1) p' = xs := by
  have hsorted := lapSorted_lapFilter a p
  rw [h] at hsorted
  refine (lapSorted_lapFilter _ _).eq hsorted.tail fun y => ?_
  rw [mem_lapFilter, hp, ← mem_lapFilter (a := a), h, List.mem_cons]
  have hnot : x ∉ xs := (List.nodup_cons.mp hsorted.nodup).1
  constructor
  · rintro ⟨heq | hmem, hne⟩
    · exact absurd heq hne
    · exact hmem
  · intro hmem
    refine ⟨Or.inr hmem, ?_⟩
    rintro rfl
    exact hnot hmem

end Foundation
