import Destiny.Foundation.Run

/-!
# Infinite runs

What happens *eventually* and *again and again* in runs that never end. An
infinite run is made of finite ones, its segments, so that every fact about
finite runs applies; what it adds is that something cannot be put off for ever:

* `InfiniteRun`, `InfiniteRun.segment` — the states and labels of a run without
  end, and the labels from one position to another;
* `InfiniteRun.Recurs` — a label occurs again and again;
* `InfiniteRun.eventually` — the rule: if the wait for a label allows only so
  many steps of another kind, and these go on while the wait lasts, the label
  comes;
* `InfiniteRun.of_serial` — a system in which every state has a step has an
  infinite run from every state.
-/

namespace Foundation

variable {σ ε τ : Type*} {Step : σ → ε → σ → Prop}

/-- A run without end. -/
structure InfiniteRun (Step : σ → ε → σ → Prop) where
  state : Nat → σ
  label : Nat → ε
  step  : ∀ n, Step (state n) (label n) (state (n + 1))

namespace InfiniteRun

/-- A label that satisfies `p` comes after every position. -/
def Recurs (r : InfiniteRun Step) (p : ε → Prop) : Prop :=
  ∀ n, ∃ m, n ≤ m ∧ p (r.label m)

/-- The `k` labels from position `n` on. -/
def segment (r : InfiniteRun Step) (n k : Nat) : List ε :=
  (List.range' n k).map r.label

variable (r : InfiniteRun Step)

theorem segment_succ (n k : Nat) : r.segment n (k + 1) = r.segment n k ++ [r.label (n + k)] := by
  rw [segment, List.range'_1_concat, List.map_append]
  rfl

theorem segment_add (n j k : Nat) :
    r.segment n (j + k) = r.segment n j ++ r.segment (n + j) k := by
  rw [segment, segment, segment, ← List.map_append, List.range'_append_1]

/-- A segment is a run. -/
theorem run_segment (n k : Nat) : Run Step (r.state n) (r.segment n k) (r.state (n + k)) := by
  induction k with
  | zero => exact .nil _
  | succ k ih =>
    rw [segment_succ]
    exact ih.snoc (r.step (n + k))

/-- What every step keeps holds at all later positions. -/
theorem invariant {I : σ → Prop} (hstep : ∀ s e t, I s → Step s e t → I t) {n m : Nat}
    (hn : I (r.state n)) (h : n ≤ m) : I (r.state m) := by
  obtain ⟨k, rfl⟩ := Nat.exists_eq_add_of_le h
  exact (r.run_segment n k).invariant hstep hn

theorem forall_mem_segment_succ {q : ε → Prop} {n k : Nat} :
    (∀ e ∈ r.segment n (k + 1), q e) ↔ (∀ e ∈ r.segment n k, q e) ∧ q (r.label (n + k)) := by
  rw [segment_succ, List.forall_mem_append, List.forall_mem_singleton]

/-- What happens in no segment from `n` on happens at no position from `n` on. -/
theorem forall_mem_segment {q : ε → Prop} {n : Nat} (h : ∀ m, n ≤ m → q (r.label m)) (k : Nat) :
    ∀ e ∈ r.segment n k, q e := by
  intro e he
  obtain ⟨m, hm, rfl⟩ := List.mem_map.mp he
  exact h m (List.mem_range'_1.mp hm).1

/-- Labels that go on coming add up to any number. -/
theorem countP_segment {p : ε → Bool} {n : Nat} (h : ∀ m, n ≤ m → ∃ j, p (r.label (m + j)) = true)
    (N : Nat) : ∃ k, N ≤ (r.segment n k).countP p := by
  induction N with
  | zero => exact ⟨0, Nat.zero_le _⟩
  | succ N ih =>
    obtain ⟨k, hk⟩ := ih
    obtain ⟨j, hj⟩ := h (n + k) (Nat.le_add_right n k)
    refine ⟨k + (j + 1), ?_⟩
    have hlast : 1 ≤ (r.segment (n + k) (j + 1)).countP p := by
      rw [segment_succ, List.countP_append, List.countP_singleton, if_pos hj]
      exact Nat.le_add_left 1 _
    rw [segment_add, List.countP_append]
    exact Nat.add_le_add hk hlast

/-- **What cannot be put off for ever.** Let `q` be awaited from position `n` on.
If the steps `p` counts go on while the wait lasts, and a wait has room for at
most `N` of them, then `q` comes. -/
theorem eventually {p : ε → Bool} {q : ε → Prop} {n : Nat} (N : Nat)
    (hagain : ∀ k, (∀ e ∈ r.segment n k, ¬ q e) → ∃ j, p (r.label (n + k + j)) = true)
    (hbound : ∀ k, (∀ e ∈ r.segment n k, ¬ q e) → (r.segment n k).countP p ≤ N) :
    ∃ k, (∀ e ∈ r.segment n k, ¬ q e) ∧ q (r.label (n + k)) := by
  by_contra hnever
  push Not at hnever
  have hwait : ∀ k, ∀ e ∈ r.segment n k, ¬ q e := by
    intro k
    induction k with
    | zero => exact List.forall_mem_nil _
    | succ k ih => exact r.forall_mem_segment_succ.mpr ⟨ih, hnever k ih⟩
  have hgo : ∀ m, n ≤ m → ∃ j, p (r.label (m + j)) = true := by
    intro m hm
    obtain ⟨k, rfl⟩ := Nat.exists_eq_add_of_le hm
    exact hagain k (hwait k)
  obtain ⟨k, hk⟩ := r.countP_segment hgo (N + 1)
  exact absurd (hbound k (hwait k)) (Nat.not_le.mpr hk)

/-- Where every state has a step, a run can go on for ever. -/
theorem of_serial (h : ∀ s, ∃ e t, Step s e t) (s : σ) :
    ∃ r : InfiniteRun Step, r.state 0 = s := by
  choose e t hst using h
  exact ⟨⟨fun n => t^[n] s, fun n => e (t^[n] s), fun n => by
    rw [Function.iterate_succ_apply']
    exact hst _⟩, rfl⟩

/-- An infinite run seen through a map that turns steps into steps. -/
def map {Step' : τ → ε → τ → Prop} (f : τ → σ) (hf : ∀ x e y, Step' x e y → Step (f x) e (f y))
    (r : InfiniteRun Step') : InfiniteRun Step :=
  ⟨fun n => f (r.state n), r.label, fun n => hf _ _ _ (r.step n)⟩

end InfiniteRun

end Foundation
