import Mathlib.Data.Fintype.BigOperators

/-!
# Bit arrays

An array of `w` bits with range reads and range writes, and the rule by which
a representation of such arrays is compared with it over any sequence of
operations.

* `BitArray w`, `slice`, `write` — the array and its accesses.
* `write_outside` — a write changes nothing outside its range.
* `foldlM_refines` — partial operations that each refine a total one are
  defined over every sequence and refine the sequence of the total ones.
-/

namespace Foundation

/-- An array of `w` bits. -/
abbrev BitArray (w : Nat) := Fin w → Bool

namespace BitArray

variable {w g : Nat}

/-- Bits `lo` to `lo + g - 1`, least significant first. -/
def slice (a : BitArray w) (lo g : Nat) (h : lo + g ≤ w) : BitArray g :=
  fun k => a ⟨lo + k, by omega⟩

/-- Bits `lo` to `lo + g - 1` replaced. -/
def write (a : BitArray w) (lo : Nat) (f : BitArray g) : BitArray w :=
  fun j => if h : lo ≤ j.val ∧ j.val < lo + g then f ⟨j.val - lo, by omega⟩ else a j

theorem write_outside (a : BitArray w) (lo : Nat) (f : BitArray g) {j : Fin w}
    (h : j.val < lo ∨ lo + g ≤ j.val) : a.write lo f j = a j :=
  dif_neg (by omega)

/-- The sum of the bits' weights. -/
def toNat (a : BitArray w) : Nat := ∑ i : Fin w, if a i then 2 ^ i.val else 0

end BitArray

variable {ι α β : Type*} {op : ι → β → Option β} {spec : ι → α → α} {abs : β → α}

/-- **Sequences of refining operations.** -/
theorem foldlM_refines (h : ∀ i x, ∃ y, op i x = some y ∧ abs y = spec i (abs x))
    (is : List ι) (x : β) :
    ∃ y, is.foldlM (fun x i => op i x) x = some y ∧
      abs y = is.foldl (fun a i => spec i a) (abs x) := by
  induction is generalizing x with
  | nil => exact ⟨x, rfl, rfl⟩
  | cons i is ih =>
    obtain ⟨y, hop, habs⟩ := h i x
    obtain ⟨z, hrun, hfinal⟩ := ih y
    refine ⟨z, ?_, ?_⟩
    · rw [List.foldlM_cons, hop]
      exact hrun
    · rw [hfinal, habs]
      rfl

end Foundation
