import Destiny.Foundation.LapOrder
import Destiny.Replay.Sequential

/-!
# BoundMPSC — draining

While nobody pushes, calls of `pop` enumerate what the queue holds.

* `pending`             — the occupied slots, in cyclic order from the cursor.
* `pop_next`            — a pop takes the first of them.
* `pending_afterPops`  — the others are left, in the same order, untouched.
* `drain`               — every call of a sequence of pops.
-/

namespace Destiny.Replay

open Foundation

namespace BoundMPSC

variable {Ptr : Type*}

/-- The occupied slots, in cyclic order from the cursor. -/
def pending (q : BoundMPSC Ptr) : List (BitVec 16) :=
  lapFilter q.head fun index => (q.buffer index).isSome

theorem mem_pending {q : BoundMPSC Ptr} {index : BitVec 16} :
    index ∈ q.pending ↔ q.buffer index ≠ none := by
  rw [pending, mem_lapFilter, Option.isSome_iff_ne_none]

theorem pending_sorted (q : BoundMPSC Ptr) : LapSorted q.head q.pending :=
  lapSorted_lapFilter _ _

theorem length_pending (q : BoundMPSC Ptr) : q.pending.length = q.occupied.card := by
  have hset : q.pending.toFinset = q.occupied := by
    ext index
    rw [List.mem_toFinset, mem_pending, mem_occupied]
  rw [← hset, List.toFinset_card_of_nodup q.pending_sorted.nodup]

theorem pending_eq_nil {q : BoundMPSC Ptr} :
    q.pending = [] ↔ ∀ index, q.buffer index = none := by
  rw [pending, lapFilter_eq_nil]
  simp only [Option.isSome_eq_false_iff, Option.isNone_iff_eq_none]

/-- The queue without what it holds at `index`, the cursor behind it. -/
def take (q : BoundMPSC Ptr) (index : BitVec 16) : BoundMPSC Ptr :=
  { q with head := index + 1, buffer := Function.update q.buffer index none }

theorem pending_take {q : BoundMPSC Ptr} {index : BitVec 16} {rest : List (BitVec 16)}
    (h : q.pending = index :: rest) : (q.take index).pending = rest := by
  refine lapFilter_cons h fun y => ?_
  show (Function.update q.buffer index none y).isSome = true ↔ _
  by_cases hy : y = index
  · rw [hy, Function.update_self]
    simp
  · rw [Function.update_of_ne hy]
    simp [hy]

/-- **The next pop.** It takes the first pending slot. -/
theorem pop_next {q : BoundMPSC Ptr} {index : BitVec 16} {rest : List (BitVec 16)}
    (h : q.pending = index :: rest) (out : Option Ptr) :
    q.pop out = (true, (q.take index, q.buffer index)) := by
  have hmem : index ∈ q.pending := by
    rw [h]
    exact List.mem_cons_self
  obtain ⟨ptr, hptr⟩ := Option.ne_none_iff_exists'.mp (mem_pending.mp hmem)
  have hslot : q.headSlot (dist q.head index) = index := lap_dist _ _
  have hempty : ∀ j < dist q.head index, q.buffer (q.headSlot j) = none := by
    intro j hj
    have hfirst := lapFilter_first h hj
    rwa [Option.isSome_eq_false_iff, Option.isNone_iff_eq_none] at hfirst
  have hlimit : dist q.head index ≤ popRetryLimit := by
    have hle : 2 ^ 16 ≤ popRetryLimit := by decide
    exact (dist_lt _ _).le.trans hle
  rw [pop_success out hlimit hempty (by rw [hslot, hptr]), lap_succ, lap_dist, hslot, ← hptr]
  rfl

/-- A pop that finds nothing. -/
theorem pop_empty {q : BoundMPSC Ptr} (h : q.pending = []) (out : Option Ptr) :
    q.pop out = (false, ({ q with head := q.head + 1 }, none)) := by
  have hnone := pending_eq_nil.mp h
  rw [pop_failure out fun j _ => hnone _, lap_popRetryLimit]

/-- Whatever a pop finds, the rest is left as it was. -/
theorem pending_pop (q : BoundMPSC Ptr) (out : Option Ptr) :
    (q.pop out).2.1.pending = q.pending.tail ∧
      ∀ index ∈ q.pending.tail, (q.pop out).2.1.buffer index = q.buffer index := by
  cases h : q.pending with
  | nil =>
    have hnone := pending_eq_nil.mp h
    rw [pop_empty h]
    exact ⟨pending_eq_nil.mpr hnone, fun _ _ => rfl⟩
  | cons first rest =>
    rw [pop_next h]
    refine ⟨pending_take h, fun index hindex => ?_⟩
    have hnodup := q.pending_sorted.nodup
    rw [h, List.nodup_cons] at hnodup
    have hne : index ≠ first := by
      rintro rfl
      exact hnodup.1 hindex
    exact Function.update_of_ne hne ..

/-- The queue after `n` calls of `pop`. -/
def afterPops (q : BoundMPSC Ptr) : Nat → BoundMPSC Ptr
  | 0 => q
  | n + 1 => ((q.afterPops n).pop none).2.1

/-- What is left after `n` pops, and that it was not touched. -/
theorem pending_afterPops (q : BoundMPSC Ptr) (n : Nat) :
    (q.afterPops n).pending = q.pending.drop n ∧
      ∀ index ∈ q.pending.drop n, (q.afterPops n).buffer index = q.buffer index := by
  induction n with
  | zero => exact ⟨rfl, fun _ _ => rfl⟩
  | succ n ih =>
    obtain ⟨hleft, hkeep⟩ := ih
    obtain ⟨hpop, hsame⟩ := (q.afterPops n).pending_pop none
    rw [hleft, List.tail_drop] at hpop hsame
    refine ⟨hpop, fun index hindex => (hsame index hindex).trans (hkeep index ?_)⟩
    rw [← List.tail_drop] at hindex
    exact List.mem_of_mem_tail hindex

/-- **Draining.** The pending pointers come out one by one, in their order; then every
pop fails. -/
theorem drain (q : BoundMPSC Ptr) :
    LapSorted q.head q.pending ∧ (∀ index, index ∈ q.pending ↔ q.buffer index ≠ none) ∧
    q.pending.length = q.occupied.card ∧
    (∀ j (hj : j < q.pending.length) out,
      (q.afterPops j).pop out = (true, ({ q.afterPops j with
        head := q.pending[j] + 1
        buffer := Function.update (q.afterPops j).buffer q.pending[j] none },
          q.buffer q.pending[j]))) ∧
    ∀ j ≥ q.pending.length, ∀ out,
      (q.afterPops j).pop out =
        (false, ({ q.afterPops j with head := (q.afterPops j).head + 1 }, none)) ∧
      ∀ index, (q.afterPops j).buffer index = none := by
  refine ⟨q.pending_sorted, fun index => mem_pending, q.length_pending, ?_, ?_⟩
  · intro j hj out
    obtain ⟨hleft, hkeep⟩ := q.pending_afterPops j
    rw [List.drop_eq_getElem_cons hj] at hleft hkeep
    rw [pop_next hleft, hkeep _ List.mem_cons_self]
    rfl
  · intro j hj out
    have hleft := (q.pending_afterPops j).1
    rw [List.drop_eq_nil_of_le hj] at hleft
    exact ⟨pop_empty hleft out, pending_eq_nil.mp hleft⟩

end BoundMPSC

end Destiny.Replay
