import Mathlib.Algebra.BigOperators.Group.Finset.Basic
import Mathlib.Algebra.Order.BigOperators.Group.Finset
import Destiny.Replay.FullQueue
import Destiny.Replay.Sequential

/-!
# BoundMPSC — progress

No call waits for anybody else: how many accesses a call still makes depends on
its own retries only, and every access of the others leaves that number alone.

* `Producer.rank`, `Consumer.rank` — the accesses a call in progress can still
  make.
* `step_push_rank`  — inside a `push`, every access of its producer takes one off
  the rank and nothing else changes it.
* `push_wait_free`  — what an open `push` has made, and that it returns: after
  1026 accesses at the latest, with one ticket for every two accesses; if it is
  refused, after exactly 1026.
* `every_schedule_settles` — without new calls, every run is finite and can only
  end with all calls returned.
-/

namespace Destiny.Replay

open Foundation

variable {ι Ptr : Type*}

-- ---------------------------------------------------------------------------
-- Ranks
-- ---------------------------------------------------------------------------

/-- The accesses that `push` can still make. -/
def Producer.rank : Producer Ptr → Nat
  | .idle => 0
  | .ticketing _ retries => 2 * (pushRetryLimit - retries) + 2
  | .publishing _ retries _ => 2 * (pushRetryLimit - retries) + 1

/-- The accesses that `pop` can still make. -/
def Consumer.rank : Consumer → Nat
  | .idle => 0
  | .scanning retries => popRetryLimit - retries + 2
  | .clearing _ => 1

/-- The accesses that the calls in progress can still make. -/
def System.rank [Fintype ι] (s : System ι Ptr) : Nat :=
  ∑ i, (s.producer i).rank + s.consumer.rank

theorem Producer.rank_le (p : Producer Ptr) : p.rank ≤ 2 * pushRetryLimit + 2 := by
  cases p <;> simp only [Producer.rank] <;> omega

theorem Consumer.rank_le (c : Consumer) : c.rank ≤ popRetryLimit + 2 := by
  cases c <;> simp only [Consumer.rank] <;> omega

/-- Is this an access of producer `i` inside `push`? -/
def Event.isAccessOf [DecidableEq ι] (i : ι) : Event ι Ptr → Bool
  | .ticket j _ => j = i
  | .publish j _ _ => j = i
  | .collide j _ => j = i
  | .reject j _ => j = i
  | _ => false

/-- Does this event draw a ticket for producer `i`? -/
def Event.isTicketOf [DecidableEq ι] (i : ι) : Event ι Ptr → Bool
  | .ticket j _ => j = i
  | _ => false

/-- Is this a call of `push` or `pop`? -/
def Event.isCall : Event ι Ptr → Bool
  | .pushCall _ _ | .pushNull _ | .popCall => true
  | _ => false

-- ---------------------------------------------------------------------------
-- One push
-- ---------------------------------------------------------------------------

variable [DecidableEq ι]

omit [DecidableEq ι] in
theorem InPush.ne_idle {s : System ι Ptr} {i : ι} {ptr : Ptr} (h : InPush s i ptr) :
    s.producer i ≠ .idle := by
  rcases h with ⟨r, hpc⟩ | ⟨r, k, hpc⟩ <;> intro hidle <;> rw [hpc] at hidle <;> cases hidle

/-- **Inside a push**, an access of its producer takes one off the rank and no
other step changes it. -/
theorem step_push_rank {s t : System ι Ptr} {e : Event ι Ptr} {i : ι} {ptr : Ptr}
    (hpush : InPush s i ptr) (h : Step s e t) (hopen : ∀ b, e.pushReturn? ≠ some (i, b)) :
    (t.producer i).rank + (if e.isAccessOf i then 1 else 0) = (s.producer i).rank := by
  by_cases hi : e.producer? = some i
  · cases h.transition with
    | @pushCall j p hidle =>
      obtain rfl : j = i := Option.some.inj hi
      exact absurd hidle hpush.ne_idle
    | @pushNull j hidle =>
      obtain rfl : j = i := Option.some.inj hi
      exact absurd rfl (hopen false)
    | @ticket j p retries hpc =>
      obtain rfl : j = i := Option.some.inj hi
      rw [System.setProducer_self, hpc]
      simp only [Producer.rank, Event.isAccessOf, decide_true, if_true]
    | @publish j p retries ticket hpc hslot =>
      obtain rfl : j = i := Option.some.inj hi
      exact absurd rfl (hopen true)
    | @collide j p retries ticket hpc hslot hretry =>
      obtain rfl : j = i := Option.some.inj hi
      rw [System.setProducer_self, hpc]
      simp only [Producer.rank, Event.isAccessOf, decide_true, if_true]
      omega
    | @reject j p retries ticket hpc hslot hretry =>
      obtain rfl : j = i := Option.some.inj hi
      exact absurd rfl (hopen false)
    | _ => simp [Event.producer?] at hi
  · have hother : e.isAccessOf i = false := by
      cases e <;> simp_all [Event.isAccessOf, Event.producer?]
    rw [step_producer_frame h hi, hother]
    rfl

/-- The rank of an open push is what it had less the accesses it has made. -/
theorem run_push_rank {s t : System ι Ptr} {es : List (Event ι Ptr)} {i : ι} {ptr : Ptr}
    (hpush : InPush s i ptr) (h : Run Step s es t)
    (hopen : ∀ e ∈ es, ∀ b, e.pushReturn? ≠ some (i, b)) :
    (t.producer i).rank + es.countP (Event.isAccessOf i) = (s.producer i).rank := by
  have hcount := (h.restrict hopen).balance_count (I := fun s => InPush s i ptr)
    (fun s => (s.producer i).rank) (fun _ => false) (Event.isAccessOf i)
    (fun _ _ _ hI hst => step_inPush hst.1 hI hst.2)
    (fun _ _ _ hI hst => step_push_rank hI hst.1 hst.2) hpush
  rw [List.countP_false] at hcount
  exact hcount

/-- The tickets an open push has drawn: one for every two accesses, and one if
it has not used the last one yet. -/
theorem run_push_tickets {s t : System ι Ptr} {es : List (Event ι Ptr)} {i : ι} {ptr : Ptr}
    (hcall : s.producer i = .ticketing ptr 0) (h : Run Step s es t)
    (hopen : ∀ e ∈ es, ∀ b, e.pushReturn? ≠ some (i, b)) :
    (∃ retries, t.producer i = .ticketing ptr retries ∧
      es.countP (Event.isAccessOf i) = 2 * es.countP (Event.isTicketOf i)) ∨
    ∃ retries ticket, t.producer i = .publishing ptr retries ticket ∧
      es.countP (Event.isAccessOf i) + 1 = 2 * es.countP (Event.isTicketOf i) := by
  refine h.trace_invariant (P := fun es t => (∀ e ∈ es, ∀ b, e.pushReturn? ≠ some (i, b)) →
    (∃ retries, t.producer i = .ticketing ptr retries ∧
      es.countP (Event.isAccessOf i) = 2 * es.countP (Event.isTicketOf i)) ∨
    ∃ retries ticket, t.producer i = .publishing ptr retries ticket ∧
      es.countP (Event.isAccessOf i) + 1 = 2 * es.countP (Event.isTicketOf i))
    (fun _ => Or.inl ⟨0, hcall, rfl⟩) ?_ hopen
  intro es t e u _ ih hst hopen
  obtain ⟨hbefore, hlast⟩ := List.forall_mem_append.mp hopen
  have hlast := hlast e (List.mem_singleton_self e)
  have hin := ih hbefore
  rw [List.countP_append, List.countP_append, List.countP_singleton, List.countP_singleton]
  by_cases hi : e.producer? = some i
  · cases hst.transition with
    | @ticket j p retries hpc =>
      obtain rfl : j = i := Option.some.inj hi
      rcases hin with ⟨r, hpc', hcount⟩ | ⟨r, k, hpc', -⟩
      · rw [hpc'] at hpc
        obtain ⟨rfl, rfl⟩ := Producer.ticketing.inj hpc
        refine Or.inr ⟨_, _, System.setProducer_self .., ?_⟩
        simp only [Event.isAccessOf, Event.isTicketOf, decide_true, if_true]
        omega
      · rw [hpc'] at hpc
        cases hpc
    | @collide j p retries ticket hpc hslot hretry =>
      obtain rfl : j = i := Option.some.inj hi
      rcases hin with ⟨r, hpc', -⟩ | ⟨r, k, hpc', hcount⟩
      · rw [hpc'] at hpc
        cases hpc
      · rw [hpc'] at hpc
        obtain ⟨rfl, rfl, rfl⟩ := Producer.publishing.inj hpc
        refine Or.inl ⟨_, System.setProducer_self .., ?_⟩
        simp only [Event.isAccessOf, Event.isTicketOf, decide_true, if_true, Bool.false_eq_true,
          if_false]
        omega
    | @pushCall j p hidle =>
      obtain rfl : j = i := Option.some.inj hi
      rcases hin with ⟨r, hpc, -⟩ | ⟨r, k, hpc, -⟩ <;> rw [hpc] at hidle <;> cases hidle
    | @pushNull j hidle =>
      obtain rfl : j = i := Option.some.inj hi
      exact absurd rfl (hlast false)
    | @publish j p retries ticket hpc hslot =>
      obtain rfl : j = i := Option.some.inj hi
      exact absurd rfl (hlast true)
    | @reject j p retries ticket hpc hslot hretry =>
      obtain rfl : j = i := Option.some.inj hi
      exact absurd rfl (hlast false)
    | _ => simp [Event.producer?] at hi
  · have haccess : e.isAccessOf i = false := by
      cases e <;> simp_all [Event.isAccessOf, Event.producer?]
    have hticket : e.isTicketOf i = false := by
      cases e <;> simp_all [Event.isTicketOf, Event.producer?]
    rw [step_producer_frame hst hi, haccess, hticket]
    exact hin

/-- **A push is wait-free.** After any events that leave it open, its producer can
make an access; it has made at most 1025 of them, and after 1025 the next one
returns. When it returns it has drawn one ticket for every two accesses; if it
returns false, 513 tickets. -/
theorem push_wait_free {s₀ s t : System ι Ptr} {es : List (Event ι Ptr)} {i : ι} {ptr : Ptr}
    (hcall : Step s₀ (.pushCall i ptr) s) (hrun : Run Step s es t)
    (hopen : ∀ e ∈ es, ∀ b, e.pushReturn? ≠ some (i, b)) :
    (∃ e u, t.step (.producer i) = some (e, u)) ∧
    es.countP (Event.isAccessOf i) ≤ 1025 ∧
    (es.countP (Event.isAccessOf i) = 1025 → ∀ e u, t.step (.producer i) = some (e, u) →
      ∃ b, e.pushReturn? = some (i, b)) ∧
    ∀ e u b, Step t e u → e.pushReturn? = some (i, b) →
      (es ++ [e]).countP (Event.isAccessOf i) = 2 * (es ++ [e]).countP (Event.isTicketOf i) ∧
      (b = false → (es ++ [e]).countP (Event.isTicketOf i) = 513) := by
  have hpc : s.producer i = .ticketing ptr 0 := hcall.producer_of_pushCall
  have hpush : InPush s i ptr := .inl ⟨0, hpc⟩
  have hidle : t.producer i ≠ .idle := (run_inPush hrun hpush hopen).ne_idle
  have hrank := run_push_rank hpush hrun hopen
  have htickets := run_push_tickets hpc hrun hopen
  have hbudget : (s.producer i).rank = 1026 := by rw [hpc]; rfl
  have hlimit : pushRetryLimit = 512 := rfl
  rw [hbudget] at hrank
  refine ⟨?_, ?_, ?_, ?_⟩
  · exact producer_enabled hidle
  · rcases htickets with ⟨r, hpc', -⟩ | ⟨r, k, hpc', -⟩ <;>
      rw [hpc'] at hrank <;> simp only [Producer.rank] at hrank <;> omega
  · -- the last attempt is about to be made
    intro hall e u hstep
    have hstep' : Step t e u := ⟨_, hstep⟩
    rcases htickets with ⟨r, hpc', -⟩ | ⟨r, k, hpc', -⟩
    · rw [hpc'] at hrank
      simp only [Producer.rank] at hrank
      omega
    · rw [hpc'] at hrank
      simp only [Producer.rank] at hrank
      have htransition := transition_of_producerStep hstep
      rw [System.step, System.producerStep, hpc'] at hstep
      dsimp only at hstep
      split at hstep
      · obtain ⟨rfl, -⟩ := Prod.mk.inj (Option.some.inj hstep)
        exact ⟨true, rfl⟩
      · rw [if_pos (by omega)] at hstep
        obtain ⟨rfl, -⟩ := Prod.mk.inj (Option.some.inj hstep)
        exact ⟨false, rfl⟩
  · intro e u b hstep hreturn
    rw [List.countP_append, List.countP_append, List.countP_singleton, List.countP_singleton]
    cases hstep.transition with
    | pushNull hpc' =>
      obtain ⟨rfl, -⟩ := Prod.mk.inj (Option.some.inj hreturn)
      exact absurd hpc' hidle
    | @publish j p retries ticket hpc' hslot =>
      obtain ⟨rfl, rfl⟩ := Prod.mk.inj (Option.some.inj hreturn)
      rcases htickets with ⟨r, hpc'', -⟩ | ⟨r, k, -, hcount⟩
      · rw [hpc'] at hpc''
        cases hpc''
      · simp only [Event.isAccessOf, Event.isTicketOf, decide_true, if_true, Bool.false_eq_true,
          if_false]
        exact ⟨by omega, fun h => Bool.noConfusion h⟩
    | @reject j p retries ticket hpc' hslot hretry =>
      obtain ⟨rfl, rfl⟩ := Prod.mk.inj (Option.some.inj hreturn)
      rcases htickets with ⟨r, hpc'', -⟩ | ⟨r, k, -, hcount⟩
      · rw [hpc'] at hpc''
        cases hpc''
      · rw [hpc'] at hrank
        simp only [Producer.rank] at hrank
        simp only [Event.isAccessOf, Event.isTicketOf, decide_true, if_true, Bool.false_eq_true,
          if_false]
        exact ⟨by omega, fun _ => by omega⟩
    | _ => simp [Event.pushReturn?] at hreturn

/-- In a full queue a push makes 1025 accesses and then returns false, with 513 tickets. -/
theorem push_wait_free_rejected :
    ∃ (s₀ s t u : System (Fin 2) Nat) (es : List (Event (Fin 2) Nat)) (e : Event (Fin 2) Nat),
      Reachable Step .init s₀ ∧ Step s₀ (.pushCall 0 7) s ∧ Run Step s es t ∧
      es.countP (Event.isAccessOf 0) = 1025 ∧ Step t e u ∧
      e.pushReturn? = some (0, false) ∧ (es ++ [e]).countP (Event.isTicketOf 0) = 513 := by
  have hquiet : Quiescent (System.init : System (Fin 2) Nat) :=
    ⟨fun _ => rfl, fun _ => rfl, rfl⟩
  obtain ⟨fs, s₀, hfill, -, -, -, -, hidle, hfull⟩ := fill_capacity_run hquiet 1 9
  obtain ⟨s, hcall, hpc, hbuf⟩ : ∃ s, Step s₀ (.pushCall 0 7) s ∧
      s.producer 0 = .ticketing 7 0 ∧ s.queue.buffer = s₀.queue.buffer :=
    ⟨_, (Transition.pushCall (hidle 0)).step, System.setProducer_self .., rfl⟩
  obtain ⟨es, t, ticket, hrun, -, hopen, -, hpc', hkeep⟩ :=
    fullPush_run pushRetryLimit hpc (by rwa [hbuf]) (Nat.zero_add _)
  have hreject := (Transition.reject hpc' (hkeep _) le_rfl).step
  obtain ⟨-, -, -, hreturns⟩ := push_wait_free hcall hrun hopen
  obtain ⟨haccesses, htickets⟩ := hreturns _ _ false hreject rfl
  have hlast := htickets rfl
  have hall : es.countP (Event.isAccessOf 0) = 1025 := by
    rw [hlast, List.countP_append] at haccesses
    exact Nat.succ.inj haccesses
  exact ⟨s₀, s, t, _, es, _, ⟨fs, hfill⟩, hcall, hrun, hall, hreject, rfl, hlast⟩

-- ---------------------------------------------------------------------------
-- Schedules without new calls
-- ---------------------------------------------------------------------------

section Settling

variable [Fintype ι]

/-- A producer that comes nearer to its return. -/
theorem rank_setProducer_lt (s : System ι Ptr) (queue : BoundMPSC Ptr) {i : ι} {p : Producer Ptr}
    (h : p.rank < (s.producer i).rank) : ({ s with queue }.setProducer i p).rank < s.rank := by
  refine Nat.add_lt_add_right (Finset.sum_lt_sum (fun j _ => ?_) ⟨i, Finset.mem_univ i, ?_⟩) _
  · by_cases hj : j = i
    · subst hj
      rw [System.setProducer_self]
      exact h.le
    · rw [System.setProducer_of_ne _ _ hj]
  · rw [System.setProducer_self]
    exact h

/-- **Every access lowers the rank.** -/
theorem step_rank {s t : System ι Ptr} {e : Event ι Ptr} (he : e.isCall = false) (h : Step s e t) :
    t.rank < s.rank := by
  cases h.transition with
  | ticket hpc =>
    refine rank_setProducer_lt s _ ?_
    rw [hpc]
    exact Nat.lt_succ_self _
  | publish hpc =>
    refine rank_setProducer_lt s _ ?_
    rw [hpc]
    exact Nat.succ_pos _
  | @collide i ptr retries ticket hpc hslot hretry =>
    refine rank_setProducer_lt s s.queue ?_
    rw [hpc]
    simp only [Producer.rank]
    omega
  | reject hpc =>
    refine rank_setProducer_lt s s.queue ?_
    rw [hpc]
    exact Nat.succ_pos _
  | miss hpc hslot hretry =>
    refine Nat.add_lt_add_left ?_ _
    rw [hpc]
    simp only [Consumer.rank]
    omega
  | popEmpty hpc =>
    refine Nat.add_lt_add_left ?_ _
    rw [hpc]
    exact Nat.succ_pos _
  | load hpc =>
    refine Nat.add_lt_add_left ?_ _
    rw [hpc]
    exact Nat.succ_lt_succ (Nat.succ_pos _)
  | deliver hpc =>
    refine Nat.add_lt_add_left ?_ _
    rw [hpc]
    exact Nat.zero_lt_one
  | _ => simp [Event.isCall] at he

omit [DecidableEq ι] in
theorem rank_le (s : System ι Ptr) :
    s.rank ≤ Fintype.card ι * (2 * pushRetryLimit + 2) + (popRetryLimit + 2) := by
  have hproducers : ∑ i, (s.producer i).rank ≤ Fintype.card ι * (2 * pushRetryLimit + 2) :=
    (Finset.sum_le_sum fun i _ => (s.producer i).rank_le).trans_eq
      (Finset.sum_const_nat fun _ _ => rfl)
  exact Nat.add_le_add hproducers s.consumer.rank_le

omit [Fintype ι] [DecidableEq ι] in
/-- A consumer inside `pop` is never blocked. -/
theorem consumer_enabled {s : System ι Ptr} (h : s.consumer ≠ .idle) :
    ∃ e t, s.consumerStep = some (e, t) := by
  rw [System.consumerStep]
  cases hpc : s.consumer with
  | idle => exact absurd hpc h
  | scanning retries =>
    dsimp only
    split
    · exact ⟨_, _, rfl⟩
    · split <;> exact ⟨_, _, rfl⟩
  | clearing index => exact ⟨_, _, rfl⟩

omit [Fintype ι] in
/-- An access is not a call. -/
theorem isCall_of_producerStep {s t : System ι Ptr} {e : Event ι Ptr} {i : ι}
    (h : s.producerStep i = some (e, t)) : e.isCall = false := by
  unfold System.producerStep at h
  split at h
  · exact absurd h (by simp)
  · obtain ⟨rfl, -⟩ := Prod.mk.inj (Option.some.inj h)
    rfl
  · dsimp only at h
    split at h
    · obtain ⟨rfl, -⟩ := Prod.mk.inj (Option.some.inj h)
      rfl
    · split at h <;> obtain ⟨rfl, -⟩ := Prod.mk.inj (Option.some.inj h) <;> rfl

omit [Fintype ι] [DecidableEq ι] in
theorem isCall_of_consumerStep {s t : System ι Ptr} {e : Event ι Ptr}
    (h : s.consumerStep = some (e, t)) : e.isCall = false := by
  unfold System.consumerStep at h
  split at h
  · exact absurd h (by simp)
  · dsimp only at h
    split at h
    · obtain ⟨rfl, -⟩ := Prod.mk.inj (Option.some.inj h)
      rfl
    · split at h <;> obtain ⟨rfl, -⟩ := Prod.mk.inj (Option.some.inj h) <;> rfl
  · obtain ⟨rfl, -⟩ := Prod.mk.inj (Option.some.inj h)
    rfl

omit [Fintype ι] in
/-- Where no access is left to make, all calls have returned. -/
theorem atRest_of_stuck {s : System ι Ptr} (h : ∀ e t, Step s e t → ¬ e.isCall = false) :
    AtRest s := by
  constructor
  · intro i
    by_contra hbusy
    obtain ⟨e, t, hstep⟩ := producer_enabled hbusy
    exact h e t ⟨_, hstep⟩ (isCall_of_producerStep hstep)
  · by_contra hbusy
    obtain ⟨e, t, hstep⟩ := consumer_enabled hbusy
    exact h e t ⟨.consumer, hstep⟩ (isCall_of_consumerStep hstep)

/-- **Every schedule settles.** From any state, `P` producers and the consumer
make at most `1026 * P + 131074` accesses unless there are new calls; where no
access is left, all calls have returned, and such a state is always reached. -/
theorem every_schedule_settles (s : System ι Ptr) :
    (∀ es t, Run Step s es t → (∀ e ∈ es, e.isCall = false) →
      es.length ≤ 1026 * Fintype.card ι + 131074 ∧
      ((∀ e u, Step t e u → ¬ e.isCall = false) → AtRest t)) ∧
    ∃ es t, Run Step s es t ∧ (∀ e ∈ es, e.isCall = false) ∧ AtRest t := by
  constructor
  · intro es t hrun hes
    have hlength := hrun.length_add_rank_le System.rank (fun _ _ _ he hst => step_rank he hst) hes
    have hrank : s.rank ≤ Fintype.card ι * 1026 + 131074 := rank_le s
    exact ⟨by omega, atRest_of_stuck⟩
  · obtain ⟨es, t, hrun, hes, hstuck⟩ := Run.exists_settled
      (P := fun e : Event ι Ptr => e.isCall = false)
      (fun _ _ _ he (hst : Step _ _ _) => step_rank he hst) s
    exact ⟨es, t, hrun, hes, atRest_of_stuck hstuck⟩

end Settling

end Destiny.Replay
