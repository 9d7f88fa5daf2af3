import Mathlib.Data.BitVec

/-!
# Wrapping counters

A fixed-width counter that is only ever incremented walks the cyclic order of
its `2 ^ n` values. `lap a k` is the value `k` increments after `a`; within one
lap (`k < 2 ^ n`) it hits every value exactly once:

* `lap_injOn` — two positions of one lap never coincide;
* `lap_dist` / `dist_lt` — every value `x` is met, at position `dist a x`.
-/

namespace Foundation

variable {n : Nat}

/-- The value of a wrapping counter `k` increments after `a`. -/
def lap (a : BitVec n) (k : Nat) : BitVec n := a + BitVec.ofNat n k

/-- How many increments lead from `a` to `x`, within one lap. -/
def dist (a x : BitVec n) : Nat := (x - a).toNat

@[simp] theorem lap_zero (a : BitVec n) : lap a 0 = a := by
  simp [lap]

theorem lap_succ (a : BitVec n) (k : Nat) : lap a (k + 1) = lap a k + 1 := by
  rw [lap, lap, BitVec.ofNat_add, BitVec.add_assoc]
  rfl

theorem lap_succ_left (a : BitVec n) (k : Nat) : lap (a + 1) k = lap a (k + 1) := by
  rw [lap_succ, lap, lap, BitVec.add_assoc, BitVec.add_assoc, BitVec.add_comm 1]

theorem lap_lap (a : BitVec n) (j k : Nat) : lap (lap a j) k = lap a (j + k) := by
  simp only [lap, BitVec.ofNat_add, BitVec.add_assoc]

/-- A full lap leads back. -/
theorem lap_two_pow (a : BitVec n) : lap a (2 ^ n) = a := by
  have hzero : BitVec.ofNat n (2 ^ n) = 0#n := by
    apply BitVec.eq_of_toNat_eq
    rw [BitVec.toNat_ofNat, Nat.mod_self, BitVec.toNat_ofNat, Nat.zero_mod]
  rw [lap, hzero, BitVec.add_zero]

/-- Within one lap the counter never repeats a value. -/
theorem lap_injOn {a : BitVec n} {j k : Nat} (hj : j < 2 ^ n) (hk : k < 2 ^ n)
    (h : lap a j = lap a k) : j = k := by
  have hofNat : BitVec.ofNat n j = BitVec.ofNat n k := BitVec.add_right_inj a |>.mp h
  have hnat := congrArg BitVec.toNat hofNat
  rwa [BitVec.toNat_ofNat, BitVec.toNat_ofNat, Nat.mod_eq_of_lt hj, Nat.mod_eq_of_lt hk] at hnat

theorem dist_lt (a x : BitVec n) : dist a x < 2 ^ n := (x - a).isLt

/-- Within one lap the counter meets every value. -/
@[simp] theorem lap_dist (a x : BitVec n) : lap a (dist a x) = x := by
  rw [lap, dist, BitVec.ofNat_toNat, BitVec.setWidth_eq, BitVec.add_comm,
    BitVec.sub_add_cancel]

theorem dist_lap {a : BitVec n} {k : Nat} (hk : k < 2 ^ n) : dist a (lap a k) = k :=
  lap_injOn (dist_lt _ _) hk (lap_dist a _)

/-- The only value a full lap away from `a` is the one just before it. -/
theorem dist_add_one_lt {a x : BitVec n} (h : x ≠ a) : dist (a + 1) x + 1 < 2 ^ n := by
  have hlt := dist_lt (a + 1) x
  rcases Nat.lt_or_ge (dist (a + 1) x + 1) (2 ^ n) with hok | hge
  · exact hok
  · have hx : lap (a + 1) (dist (a + 1) x) = x := lap_dist _ _
    have hfull : dist (a + 1) x + 1 = 2 ^ n := by omega
    rw [lap_succ_left, hfull] at hx
    exact absurd (hx.symm.trans (lap_two_pow a)) h

end Foundation
