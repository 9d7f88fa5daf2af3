import Destiny.Foundation.InfiniteRun
import Destiny.Replay.Delivery
import Destiny.Replay.Progress

/-!
# BoundMPSC — runs without end

What a program that uses the queue for ever can rely on, if no thread stops
inside a call (`Fair`): the scheduler may otherwise do what it likes, and the
threads may call what they like.

* `Execution.Fair`        — nobody stops inside `push` or `pop`.
* `push_returns`, `pop_returns` — every call returns.
* `slot_delivered`        — while `pop` is called again and again, every occupied
  slot is delivered.
* `fair_execution_delivers` — the three of them for the calls and publications of
  an execution.
* `pointers_flow`         — while both functions are called again and again,
  pointers are published and delivered again and again: rejected pushes do not
  go on for ever.
* `exists_fair_execution` — there are such executions.
-/

namespace Destiny.Replay

open Foundation

variable {ι Ptr : Type*} [DecidableEq ι]

/-- A run of the system without end. -/
abbrev Execution (ι Ptr : Type*) [DecidableEq ι] :=
  InfiniteRun (Step : System ι Ptr → Event ι Ptr → System ι Ptr → Prop)

/-- A thread inside a call makes its next access some time. -/
structure Execution.Fair (r : Execution ι Ptr) : Prop where
  producers : ∀ n i, (r.state n).producer i ≠ .idle → ∃ j, (r.label (n + j)).isAccessOf i = true
  consumer  : ∀ n, (r.state n).consumer ≠ .idle → ∃ j, (r.label (n + j)).isConsumerAccess = true

-- ---------------------------------------------------------------------------
-- Calls return
-- ---------------------------------------------------------------------------

/-- **Every push returns.** -/
theorem push_returns {r : Execution ι Ptr} (hfair : r.Fair) {n : Nat} {i : ι} {ptr : Ptr}
    (hpush : InPush (r.state n) i ptr) :
    ∃ k, (∀ e ∈ r.segment n k, ∀ b, e.pushReturn? ≠ some (i, b)) ∧
      ∃ b, (r.label (n + k)).pushReturn? = some (i, b) := by
  have hopen : ∀ {k}, (∀ e ∈ r.segment n k, ¬ ∃ b, e.pushReturn? = some (i, b)) →
      ∀ e ∈ r.segment n k, ∀ b, e.pushReturn? ≠ some (i, b) :=
    fun h e he b hb => h e he ⟨b, hb⟩
  obtain ⟨k, hwait, hreturn⟩ := r.eventually (p := Event.isAccessOf i)
    (q := fun e => ∃ b, e.pushReturn? = some (i, b)) ((r.state n).producer i).rank
    (fun k hwait => hfair.producers (n + k) i
      (run_inPush (r.run_segment n k) hpush (hopen hwait)).ne_idle)
    (fun k hwait => by
      rw [← run_push_rank hpush (r.run_segment n k) (hopen hwait)]
      exact Nat.le_add_left _ _)
  exact ⟨k, hopen hwait, hreturn⟩

/-- **Inside a pop**, an access of the consumer takes at least one off its rank. -/
theorem step_pop_rank {s t : System ι Ptr} {e : Event ι Ptr} (hpop : s.consumer ≠ .idle)
    (h : Step s e t) (hopen : e.popReturn? = none) :
    t.consumer ≠ .idle ∧
      t.consumer.rank + (if e.isConsumerAccess then 1 else 0) ≤ s.consumer.rank := by
  cases h.transition with
  | popCall hidle => exact absurd hidle hpop
  | @miss retries hpc hslot hretry =>
    rw [hpc]
    refine ⟨Consumer.noConfusion, ?_⟩
    simp only [Consumer.rank, Event.isConsumerAccess, if_true]
    omega
  | load hpc =>
    rw [hpc]
    refine ⟨Consumer.noConfusion, ?_⟩
    simp only [Consumer.rank, Event.isConsumerAccess, if_true]
    omega
  | popEmpty | deliver => simp [Event.popReturn?] at hopen
  | _ => exact ⟨hpop, Nat.le_refl _⟩

/-- **Every pop returns.** -/
theorem pop_returns {r : Execution ι Ptr} (hfair : r.Fair) {n : Nat}
    (hpop : (r.state n).consumer ≠ .idle) :
    ∃ k, (∀ e ∈ r.segment n k, e.popReturn? = none) ∧
      ∃ res, (r.label (n + k)).popReturn? = some res := by
  have hopen : ∀ {k}, (∀ e ∈ r.segment n k, ¬ ∃ res, e.popReturn? = some res) →
      ∀ e ∈ r.segment n k, e.popReturn? = none :=
    fun h e he => Option.eq_none_iff_forall_ne_some.mpr fun res hres => h e he ⟨res, hres⟩
  have hkeep : ∀ {k}, (∀ e ∈ r.segment n k, e.popReturn? = none) →
      (r.state (n + k)).consumer ≠ .idle := fun {k} h =>
    ((r.run_segment n k).restrict h).invariant (I := fun s => s.consumer ≠ .idle)
      (fun _ _ _ hI hst => (step_pop_rank hI hst.1 hst.2).1) hpop
  obtain ⟨k, hwait, hreturn⟩ := r.eventually (p := Event.isConsumerAccess)
    (q := fun e => ∃ res, e.popReturn? = some res) (r.state n).consumer.rank
    (fun k hwait => hfair.consumer (n + k) (hkeep (hopen hwait)))
    (fun k hwait => by
      have hrank := ((r.run_segment n k).restrict (hopen hwait)).countP_add_rank_le
        (I := fun s => s.consumer ≠ .idle) (fun s => s.consumer.rank) Event.isConsumerAccess
        (fun _ _ _ hI hst => (step_pop_rank hI hst.1 hst.2).1)
        (fun _ _ _ hI hst => (step_pop_rank hI hst.1 hst.2).2) hpop
      exact (Nat.le_add_left _ _).trans hrank)
  exact ⟨k, hopen hwait, hreturn⟩

-- ---------------------------------------------------------------------------
-- Pointers arrive
-- ---------------------------------------------------------------------------

omit [DecidableEq ι] in
/-- An access of the consumer loads a slot or clears one. -/
theorem countP_consumerAccess (es : List (Event ι Ptr)) :
    es.countP Event.isConsumerAccess = loads es + delivers es := by
  induction es with
  | nil => rfl
  | cons e es ih =>
    rw [loads, delivers] at ih ⊢
    rw [List.countP_cons, List.countP_cons, List.countP_cons, ih]
    cases e <;> simp [Event.isConsumerAccess, Event.isLoad, Event.load?, Event.isDeliver] <;> omega

/-- **Every occupied slot is delivered**, with the pointer it holds, as long as
the consumer goes on. -/
theorem slot_delivered {r : Execution ι Ptr}
    (hgo : ∀ n, ∃ j, (r.label (n + j)).isConsumerAccess = true) {n : Nat} {index : BitVec 16}
    {ptr : Ptr} (hslot : (r.state n).queue.buffer index = some ptr)
    (hfree : (r.state n).consumer ≠ .clearing index) :
    ∃ k, (∀ e ∈ r.segment n k, ∀ out, e ≠ .deliver index out) ∧
      r.label (n + k) = .deliver index (some ptr) := by
  have hopen : ∀ {k}, (∀ e ∈ r.segment n k, ¬ ∃ out, e = .deliver index out) →
      ∀ e ∈ r.segment n k, ∀ out, e ≠ .deliver index out :=
    fun h e he out hout => h e he ⟨out, hout⟩
  obtain ⟨k, hwait, out, hdeliver⟩ := r.eventually (p := Event.isConsumerAccess)
    (q := fun e => ∃ out, e = .deliver index out) (2 * capacity + 1) (fun k _ => hgo (n + k))
    (fun k hwait => by
      have hrun := r.run_segment n k
      have hpaid := run_delivers hrun
      have hpending : pending (r.state n) ≤ 1 := by
        unfold pending
        split <;> omega
      have hlap := dist_lt (r.state n).queue.head index
      have hcap : capacity = 2 ^ 16 := rfl
      rw [countP_consumerAccess]
      cases run_awaitsDelivery hslot hfree hrun (hopen hwait) with
      | waiting _ _ hloads => omega
      | loaded _ _ _ hloads => omega)
  refine ⟨k, hopen hwait, ?_⟩
  have hstep := r.step (n + k)
  rw [hdeliver] at hstep ⊢
  obtain ⟨hpc, hout⟩ := hstep.clearing_of_deliver
  cases run_awaitsDelivery hslot hfree (r.run_segment n k) (hopen hwait) with
  | waiting _ hfree' _ => exact absurd hpc hfree'
  | loaded _ _ hloaded _ => rw [hout, hloaded]

/-- A consumer that calls `pop` again and again goes on. -/
theorem Execution.Fair.consumer_goes_on {r : Execution ι Ptr} (hfair : r.Fair)
    (hpop : r.Recurs (· = .popCall)) (n : Nat) :
    ∃ j, (r.label (n + j)).isConsumerAccess = true := by
  obtain ⟨m, hm, hcall⟩ := hpop n
  have hstep := r.step m
  rw [hcall] at hstep
  have hinside : (r.state (m + 1)).consumer ≠ .idle := by
    rw [hstep.eq_of_popCall]
    exact Consumer.noConfusion
  obtain ⟨j, hj⟩ := hfair.consumer (m + 1) hinside
  obtain ⟨d, rfl⟩ := Nat.exists_eq_add_of_le hm
  exact ⟨d + 1 + j, by rwa [← Nat.add_assoc, ← Nat.add_assoc]⟩

/--
**Nothing waits for ever.** In every execution in which no thread stops inside a
call, whatever the threads call and however they interleave:

* every `push` returns, and every `pop` returns;
* if `pop` is called again and again, every published pointer is delivered, by
  the next delivery of its slot.
-/
theorem fair_execution_delivers {r : Execution ι Ptr} (hstart : Reachable Step .init (r.state 0))
    (hfair : r.Fair) :
    (∀ n i ptr, r.label n = .pushCall i ptr →
      ∃ k b, (∀ e ∈ r.segment (n + 1) k, ∀ b, e.pushReturn? ≠ some (i, b)) ∧
        (r.label (n + 1 + k)).pushReturn? = some (i, b)) ∧
    (∀ n, r.label n = .popCall →
      ∃ k res, (∀ e ∈ r.segment (n + 1) k, e.popReturn? = none) ∧
        (r.label (n + 1 + k)).popReturn? = some res) ∧
    (r.Recurs (· = .popCall) → ∀ n i index ptr, r.label n = .publish i index ptr →
      ∃ k, (∀ e ∈ r.segment (n + 1) k, ∀ out, e ≠ .deliver index out) ∧
        r.label (n + 1 + k) = .deliver index (some ptr)) := by
  refine ⟨?_, ?_, ?_⟩
  · intro n i ptr hcall
    have hstep := r.step n
    rw [hcall] at hstep
    obtain ⟨k, hopen, b, hreturn⟩ := push_returns hfair (n := n + 1)
      (.inl ⟨0, hstep.producer_of_pushCall⟩)
    exact ⟨k, b, hopen, hreturn⟩
  · intro n hcall
    have hstep := r.step n
    rw [hcall] at hstep
    obtain ⟨k, hopen, res, hreturn⟩ := pop_returns hfair (n := n + 1) (by
      rw [hstep.eq_of_popCall]
      exact Consumer.noConfusion)
    exact ⟨k, res, hopen, hreturn⟩
  · intro hpop n i index ptr hpublish
    have hstep := r.step n
    rw [hpublish] at hstep
    have hinv : ConsumerInv (r.state n) :=
      r.invariant (fun _ _ _ hI hst => step_consumerInv hI hst) (reachable_consumerInv hstart)
        (Nat.zero_le n)
    obtain ⟨hslot, hfree, -⟩ := publish_distance hinv hstep
    exact slot_delivered (hfair.consumer_goes_on hpop) hslot hfree

-- ---------------------------------------------------------------------------
-- Pointers flow
-- ---------------------------------------------------------------------------

/-- Without publications an empty slot stays empty. -/
theorem step_buffer_null {s t : System ι Ptr} {e : Event ι Ptr} {index : BitVec 16}
    (h : Step s e t) (he : e.isPublish = false) (hslot : s.queue.buffer index = none) :
    t.queue.buffer index = none := by
  rw [step_buffer h]
  cases e with
  | publish => simp [Event.isPublish] at he
  | deliver index' out =>
    by_cases hindex : index = index'
    · rw [hindex, Event.onBuffer, Function.update_self]
    · rw [Event.onBuffer, Function.update_of_ne hindex, hslot]
  | _ => exact hslot

theorem empty_slot_stays {r : Execution ι Ptr} {n m : Nat} {index : BitVec 16}
    (hquiet : ∀ m, n ≤ m → (r.label m).isPublish = false)
    (hslot : (r.state n).queue.buffer index = none) (h : n ≤ m) :
    (r.state m).queue.buffer index = none := by
  obtain ⟨k, rfl⟩ := Nat.exists_eq_add_of_le h
  exact ((r.run_segment n k).restrict (r.forall_mem_segment hquiet k)).invariant
    (I := fun s => s.queue.buffer index = none)
    (fun _ _ _ hI hst => step_buffer_null hst.1 hst.2 hI) hslot

/-- Without publications the queue is empty some time, and stays so. -/
theorem eventually_empty {r : Execution ι Ptr} (hfair : r.Fair) (hpop : r.Recurs (· = .popCall))
    {n : Nat} (hquiet : ∀ m, n ≤ m → (r.label m).isPublish = false) :
    ∃ m, n ≤ m ∧ ∀ k, m ≤ k → ∀ index, (r.state k).queue.buffer index = none := by
  -- from the next call of `pop` on, no slot is being cleared already
  obtain ⟨c, hc, hcall⟩ := hpop n
  have hscan : (r.state (c + 1)).consumer = .scanning 0 := by
    have hstep := r.step c
    rw [hcall] at hstep
    rw [hstep.eq_of_popCall]
  have hquiet' : ∀ m, c + 1 ≤ m → (r.label m).isPublish = false := fun m hm =>
    hquiet m (by omega)
  have hslots : ∀ index, ∃ m, c + 1 ≤ m ∧ (r.state m).queue.buffer index = none := by
    intro index
    cases hslot : (r.state (c + 1)).queue.buffer index with
    | none => exact ⟨c + 1, Nat.le_refl _, hslot⟩
    | some ptr =>
      obtain ⟨k, -, hdeliver⟩ := slot_delivered (hfair.consumer_goes_on hpop) hslot (by
        rw [hscan]
        exact Consumer.noConfusion)
      have hstep := r.step (c + 1 + k)
      rw [hdeliver] at hstep
      refine ⟨c + 1 + k + 1, by omega, ?_⟩
      rw [step_buffer hstep, Event.onBuffer, Function.update_self]
  choose m hm hnull using hslots
  refine ⟨c + 1 + ∑ index, m index, by omega, fun k hk index => ?_⟩
  have hle : m index ≤ ∑ index, m index :=
    Finset.single_le_sum (fun _ _ => Nat.zero_le _) (Finset.mem_univ index)
  exact empty_slot_stays (fun j hj => hquiet' j ((hm index).trans hj)) (hnull index) (by omega)

/-- In an empty queue a push returns by publishing. -/
theorem publish_of_return {s t : System ι Ptr} {e : Event ι Ptr} {i : ι} {b : Bool}
    (h : Step s e t) (hidle : s.producer i ≠ .idle) (hempty : ∀ index, s.queue.buffer index = none)
    (hreturn : e.pushReturn? = some (i, b)) : ∃ i index ptr, e = .publish i index ptr := by
  cases h.transition with
  | publish => exact ⟨_, _, _, rfl⟩
  | pushNull hpc =>
    obtain ⟨rfl, -⟩ := Prod.mk.inj (Option.some.inj hreturn)
    exact absurd hpc hidle
  | reject _ hslot => exact absurd (hempty _) hslot
  | _ => simp [Event.pushReturn?] at hreturn

/-- Pointers are published again and again. -/
theorem publishes_recur {r : Execution ι Ptr} (hfair : r.Fair)
    (hpush : r.Recurs fun e => ∃ i ptr, e = .pushCall i ptr) (hpop : r.Recurs (· = .popCall)) :
    r.Recurs fun e => ∃ i index ptr, e = .publish i index ptr := by
  intro n
  by_contra hnever
  push Not at hnever
  have hquiet : ∀ m, n ≤ m → (r.label m).isPublish = false := by
    intro m hm
    cases he : r.label m with
    | publish i index ptr => exact absurd he (hnever m hm i index ptr)
    | _ => rfl
  -- the queue runs empty, and a push in an empty queue is not refused
  obtain ⟨m, hm, hempty⟩ := eventually_empty hfair hpop hquiet
  obtain ⟨c, hc, i, ptr, hcall⟩ := hpush m
  have hcalled := r.step c
  rw [hcall] at hcalled
  have hinside : InPush (r.state (c + 1)) i ptr := .inl ⟨0, hcalled.producer_of_pushCall⟩
  obtain ⟨k, hopen, b, hreturn⟩ := push_returns hfair hinside
  have hidle := (run_inPush (r.run_segment (c + 1) k) hinside hopen).ne_idle
  obtain ⟨j, index, p, hlabel⟩ :=
    publish_of_return (r.step (c + 1 + k)) hidle (hempty (c + 1 + k) (by omega)) hreturn
  exact hnever _ (by omega) j index p hlabel

/-- **Pointers flow.** In every execution in which no thread stops inside a call
and both `push` (with a pointer) and `pop` are called again and again, pointers
are published again and again and delivered again and again. -/
theorem pointers_flow {r : Execution ι Ptr} (hstart : Reachable Step .init (r.state 0))
    (hfair : r.Fair) (hpush : r.Recurs fun e => ∃ i ptr, e = .pushCall i ptr)
    (hpop : r.Recurs (· = .popCall)) :
    (r.Recurs fun e => ∃ i index ptr, e = .publish i index ptr) ∧
      r.Recurs fun e => ∃ index ptr, e = .deliver index (some ptr) := by
  have hpublish := publishes_recur hfair hpush hpop
  refine ⟨hpublish, fun n => ?_⟩
  obtain ⟨m, hm, i, index, ptr, hlabel⟩ := hpublish n
  have hstep := r.step m
  rw [hlabel] at hstep
  have hinv : ConsumerInv (r.state m) :=
    r.invariant (fun _ _ _ hI hst => step_consumerInv hI hst) (reachable_consumerInv hstart)
      (Nat.zero_le m)
  obtain ⟨hslot, hfree, -⟩ := publish_distance hinv hstep
  obtain ⟨k, -, hdeliver⟩ := slot_delivered (hfair.consumer_goes_on hpop) hslot hfree
  exact ⟨m + 1 + k, by omega, index, ptr, hdeliver⟩

-- ---------------------------------------------------------------------------
-- A fair execution
-- ---------------------------------------------------------------------------

section Alternating

variable [Fintype ι]

/-- A scheduler that lets the calls in progress return and then has producer `i`
push and the consumer pop in turn. -/
inductive Alternating (i : ι) (ptr : Ptr) :
    Bool × System ι Ptr → Event ι Ptr → Bool × System ι Ptr → Prop
  | access {turn : Bool} {s t : System ι Ptr} {e : Event ι Ptr} (h : Step s e t)
      (he : e.isCall = false) : Alternating i ptr (turn, s) e (turn, t)
  | push {s t : System ι Ptr} (h : Step s (.pushCall i ptr) t) (hrest : AtRest s) :
      Alternating i ptr (true, s) (.pushCall i ptr) (false, t)
  | pop {s t : System ι Ptr} (h : Step s .popCall t) (hrest : AtRest s) :
      Alternating i ptr (false, s) .popCall (true, t)

omit [Fintype ι] in
theorem Alternating.step {i : ι} {ptr : Ptr} {x y : Bool × System ι Ptr} {e : Event ι Ptr}
    (h : Alternating i ptr x e y) : Step x.2 e y.2 := by
  cases h with
  | access h _ | push h _ | pop h _ => exact h

omit [Fintype ι] in
theorem alternating_serial (i : ι) (ptr : Ptr) (x : Bool × System ι Ptr) :
    ∃ e y, Alternating i ptr x e y := by
  obtain ⟨turn, s⟩ := x
  by_cases hbusy : ∃ e t, Step s e t ∧ e.isCall = false
  · obtain ⟨e, t, hstep, he⟩ := hbusy
    exact ⟨e, _, .access hstep he⟩
  · have hrest : AtRest s := atRest_of_stuck fun e t hstep he => hbusy ⟨e, t, hstep, he⟩
    cases turn with
    | true => exact ⟨_, _, .push (Transition.pushCall (hrest.producers i)).step hrest⟩
    | false => exact ⟨_, _, .pop (Transition.popCall hrest.consumer).step hrest⟩

variable {i : ι} {ptr : Ptr}

/-- The next call, and whose turn it is then. -/
theorem next_call (r : InfiniteRun (Alternating i ptr)) (n : Nat) :
    ∃ k, (∀ e ∈ r.segment n k, e.isCall = false) ∧ AtRest (r.state (n + k)).2 ∧
      r.label (n + k) = (if (r.state n).1 then .pushCall i ptr else .popCall) ∧
      (r.state (n + k + 1)).1 = !(r.state n).1 := by
  have hopen : ∀ {k}, (∀ e ∈ r.segment n k, ¬ e.isCall = true) →
      ∀ e ∈ r.segment n k, e.isCall = false :=
    fun h e he => Bool.eq_false_iff.mpr (h e he)
  obtain ⟨k, hwait, hcall⟩ := r.eventually (p := fun _ => true)
    (q := fun e => e.isCall = true) (r.state n).2.rank (fun k _ => ⟨0, rfl⟩)
    (fun k hwait => by
      have hrank := (r.run_segment n k).length_add_rank_le (fun x => x.2.rank)
        (fun _ _ _ he (hst : Alternating _ _ _ _ _) => step_rank he hst.step) (hopen hwait)
      rw [List.countP_true]
      exact (Nat.le_add_left _ _).trans hrank)
  refine ⟨k, hopen hwait, ?_⟩
  have hturn : (r.state (n + k)).1 = (r.state n).1 :=
    ((r.run_segment n k).restrict (hopen hwait)).invariant (I := fun x => x.1 = (r.state n).1)
      (fun x e y hI hst => by
        obtain ⟨hst, he⟩ := hst
        cases hst with
        | access => exact hI
        | push | pop => simp [Event.isCall] at he) rfl
  rw [← hturn]
  generalize hx : r.state (n + k) = x
  generalize hy : r.state (n + k + 1) = y
  have hstep := r.step (n + k)
  generalize r.label (n + k) = e at hstep hcall
  rw [hx, hy] at hstep
  cases hstep with
  | access h he =>
    rw [he] at hcall
    exact absurd hcall Bool.false_ne_true
  | push h hrest => exact ⟨hrest, rfl, rfl⟩
  | pop h hrest => exact ⟨hrest, rfl, rfl⟩

/-- Whatever is called in this turn or the next one is called again and again. -/
theorem alternating_recurs (r : InfiniteRun (Alternating i ptr)) (b : Bool) :
    r.Recurs (· = if b then .pushCall i ptr else .popCall) := by
  intro n
  obtain ⟨k, -, -, hlabel, hturn⟩ := next_call r n
  by_cases hb : (r.state n).1 = b
  · rw [hb] at hlabel
    exact ⟨n + k, Nat.le_add_right n k, hlabel⟩
  · obtain ⟨k', -, -, hlabel', -⟩ := next_call r (n + k + 1)
    rw [hturn, Bool.not_eq.mpr hb] at hlabel'
    exact ⟨n + k + 1 + k', by omega, hlabel'⟩

omit [Fintype ι] in
/-- What a producer does inside a call is an access. -/
theorem isAccessOf_of_producer {e : Event ι Ptr} {j : ι} (he : e.isCall = false)
    (hj : e.producer? = some j) : e.isAccessOf j = true := by
  cases e with
  | pushCall | pushNull | popCall => exact absurd he.symm Bool.false_ne_true
  | ticket | publish | collide | reject => exact decide_eq_true (Option.some.inj hj)
  | _ => simp [Event.producer?] at hj

/-- At the latest when the next call is made, everybody has made all accesses. -/
theorem alternating_fair (r : InfiniteRun (Alternating i ptr)) :
    Execution.Fair (r.map Prod.snd fun _ _ _ => Alternating.step) := by
  constructor
  · intro n j hbusy
    by_contra hnever
    push Not at hnever
    obtain ⟨k, hopen, hrest, -⟩ := next_call r n
    have hquiet : ∀ e ∈ r.segment n k, e.producer? ≠ some j := by
      intro e he hj
      obtain ⟨m, hm, rfl⟩ := List.mem_map.mp he
      obtain ⟨d, rfl⟩ := Nat.exists_eq_add_of_le (List.mem_range'_1.mp hm).1
      exact hnever d (isAccessOf_of_producer (hopen _ he) hj)
    have hsame := ((r.run_segment n k).restrict hquiet).invariant
      (I := fun x => x.2.producer j = (r.state n).2.producer j)
      (fun x e y hI hst => (step_producer_frame hst.1.step hst.2).trans hI) rfl
    exact hbusy (hsame.symm.trans (hrest.producers j))
  · intro n hbusy
    by_contra hnever
    push Not at hnever
    obtain ⟨k, hopen, hrest, -⟩ := next_call r n
    have hquiet : ∀ e ∈ r.segment n k, e.isConsumerAccess = false := by
      intro e he
      obtain ⟨m, hm, rfl⟩ := List.mem_map.mp he
      obtain ⟨d, rfl⟩ := Nat.exists_eq_add_of_le (List.mem_range'_1.mp hm).1
      exact Bool.eq_false_iff.mpr (hnever d)
    have hsame := ((r.run_segment n k).restrict hquiet).invariant
      (I := fun x => x.2.consumer = (r.state n).2.consumer)
      (fun x e y hI hst => by
        have hinside : x.2.consumer ≠ .idle := by
          rw [hI]
          exact hbusy
        exact (step_consumer_frame hst.1.step hinside hst.2).1.trans hI) rfl
    exact hbusy (hsame.symm.trans hrest.consumer)

/-- **There are fair executions** in which a producer pushes a pointer and the
consumer pops, again and again. -/
theorem exists_fair_execution (i : ι) (ptr : Ptr) :
    ∃ r : Execution ι Ptr, r.state 0 = .init ∧ r.Fair ∧ r.Recurs (· = .pushCall i ptr) ∧
      r.Recurs (· = .popCall) := by
  obtain ⟨r, hstart⟩ := InfiniteRun.of_serial (alternating_serial i ptr) (true, .init)
  exact ⟨r.map Prod.snd fun _ _ _ => Alternating.step, congrArg Prod.snd hstart,
    alternating_fair r, alternating_recurs r true, alternating_recurs r false⟩

end Alternating

/-- Producer 1 and the consumer take turns; producer 0 stays outside. Calls return, and
pointers that are published are delivered. -/
theorem fair_execution_delivers_alternating :
    ∃ r : Execution (Fin 2) Nat, r.state 0 = .init ∧
      (∃ n, r.label n = .pushCall 1 7 ∧ ∃ k b, (r.label (n + 1 + k)).pushReturn? = some (1, b)) ∧
      (∃ n, r.label n = .popCall ∧ ∃ k res, (r.label (n + 1 + k)).popReturn? = some res) ∧
      ∃ n i index ptr, r.label n = .publish i index ptr ∧
        ∃ k, (∀ e ∈ r.segment (n + 1) k, ∀ out, e ≠ .deliver index out) ∧
          r.label (n + 1 + k) = .deliver index (some ptr) := by
  obtain ⟨r, hstart, hfair, hpush, hpop⟩ := exists_fair_execution (1 : Fin 2) 7
  obtain ⟨hpushes, hpops, hdelivers⟩ :=
    fair_execution_delivers (r := r) ⟨[], by rw [hstart]; exact .nil _⟩ hfair
  obtain ⟨n, -, hcall⟩ := hpush 0
  obtain ⟨m, -, hcall'⟩ := hpop 0
  obtain ⟨l, -, i, index, ptr, hpublish⟩ :=
    publishes_recur hfair (fun n => (hpush n).imp fun _ h => ⟨h.1, 1, 7, h.2⟩) hpop 0
  obtain ⟨k, b, -, hreturn⟩ := hpushes n 1 7 hcall
  obtain ⟨k', res, -, hreturn'⟩ := hpops m hcall'
  exact ⟨r, hstart, ⟨n, hcall, k, b, hreturn⟩, ⟨m, hcall', k', res, hreturn'⟩, l, i, index, ptr,
    hpublish, hdelivers hpop l i index ptr hpublish⟩

theorem pointers_flow_alternating :
    ∃ r : Execution (Fin 2) Nat, r.state 0 = .init ∧
      r.Recurs fun e => ∃ index ptr, e = .deliver index (some ptr) := by
  obtain ⟨r, hstart, hfair, hpush, hpop⟩ := exists_fair_execution (1 : Fin 2) 7
  have hflow := pointers_flow (r := r) ⟨[], by rw [hstart]; exact .nil _⟩ hfair
    (fun n => (hpush n).imp fun _ h => ⟨h.1, 1, 7, h.2⟩) hpop
  exact ⟨r, hstart, hflow.2⟩

end Destiny.Replay
