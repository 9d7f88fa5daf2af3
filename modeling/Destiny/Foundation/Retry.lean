import Mathlib.Tactic.TypeStar

/-!
# Bounded retries

The loop

    retries = 0;
    while (true) {
        if (attempt()) return true;
        if (++retries > limit) return false;
    }

for an attempt with side effects, given as a function of the state.

* `retryLoop`            — the loop, with `retries` failed attempts behind it.
* `retryLoop_skip`       — failed attempts below the limit are absorbed.
* `retryLoop_success`    — the first attempt that succeeds ends the loop.
* `retryLoop_exhausted`  — `limit + 1` failed attempts end it.
-/

namespace Foundation

variable {σ : Type*}

def retryLoop (limit : Nat) (attempt : σ → Bool × σ) (retries : Nat) (s : σ) : Bool × σ :=
  match attempt s with
  | (true, s) => (true, s)
  | (false, s) =>
    if retries + 1 > limit then (false, s) else retryLoop limit attempt (retries + 1) s
termination_by limit + 1 - retries

section Rules

variable {limit : Nat} {attempt : σ → Bool × σ} {retries : Nat} {s t : σ}

theorem retryLoop_of_true (h : attempt s = (true, t)) :
    retryLoop limit attempt retries s = (true, t) := by
  rw [retryLoop, h]

theorem retryLoop_of_false (h : attempt s = (false, t)) (hretry : retries < limit) :
    retryLoop limit attempt retries s = retryLoop limit attempt (retries + 1) t := by
  rw [retryLoop, h]
  exact if_neg (by omega)

theorem retryLoop_of_last (h : attempt s = (false, t)) (hretry : limit ≤ retries) :
    retryLoop limit attempt retries s = (false, t) := by
  rw [retryLoop, h]
  exact if_pos (by omega)

end Rules

section Closed

variable {limit : Nat} (attempt : σ → Bool × σ) (state : Nat → σ)

/-- Failed attempts that do not reach the limit. `state j` is the state after
`j` of them. -/
theorem retryLoop_skip (k : Nat)
    (hfail : ∀ j < k, attempt (state j) = (false, state (j + 1))) (hk : k ≤ limit) :
    retryLoop limit attempt 0 (state 0) = retryLoop limit attempt k (state k) := by
  induction k with
  | zero => rfl
  | succ k ih =>
    have hskip := ih (fun j hj => hfail j (by omega)) (by omega)
    rw [hskip]
    exact retryLoop_of_false (hfail k (by omega)) (by omega)

theorem retryLoop_success {k : Nat} {t : σ}
    (hfail : ∀ j < k, attempt (state j) = (false, state (j + 1))) (hk : k ≤ limit)
    (hok : attempt (state k) = (true, t)) :
    retryLoop limit attempt 0 (state 0) = (true, t) := by
  rw [retryLoop_skip attempt state k hfail hk]
  exact retryLoop_of_true hok

theorem retryLoop_exhausted (hfail : ∀ j ≤ limit, attempt (state j) = (false, state (j + 1))) :
    retryLoop limit attempt 0 (state 0) = (false, state (limit + 1)) := by
  rw [retryLoop_skip attempt state limit (fun j hj => hfail j (by omega)) (Nat.le_refl _)]
  exact retryLoop_of_last (hfail limit (Nat.le_refl _)) (Nat.le_refl _)

end Closed

end Foundation
