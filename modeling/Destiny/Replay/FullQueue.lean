import Destiny.Replay.SparsePush

/-!
# BoundMPSC — every slot is usable

From a queue that is empty and at rest, `capacity` calls of `push` fill it
without a single failed attempt, wherever the two counters stand: the tickets
they draw address every slot once. After that, and until a `pop` runs, `push`
fails.

* `tickets_le_calls`      — without collisions a call draws one ticket.
* `first_lap_publishes`   — attempts with the first `capacity` tickets succeed.
* `run_occupied`          — occupied slots = published − delivered.
* `run_full_queue`        — a full queue with an idle consumer stays as it is.
* `full_capacity_usable`  — all of it, for every interleaving of at most `capacity`
  calls; a call that more than that overtake can fail (`full_capacity_usable_overtaken`).
-/

namespace Destiny.Replay

open Foundation

variable {ι Ptr : Type*}

-- ---------------------------------------------------------------------------
-- Calls
-- ---------------------------------------------------------------------------

/-- The producer that calls `push` with a non-null pointer. -/
def Event.caller? : Event ι Ptr → Option ι
  | .pushCall i _ => some i
  | _ => none

/-- The calls of `push` with a non-null pointer in a run. -/
def calls (es : List (Event ι Ptr)) : Nat := (es.filterMap Event.caller?).length

/-- An attempt that fails, for the last time or not. -/
def Event.isFailure (e : Event ι Ptr) : Bool := e.isAttempt && !e.isPublish

@[simp] theorem Event.isFailure_collide (i : ι) (index : BitVec 16) :
    (Event.collide i index : Event ι Ptr).isFailure = true := rfl

@[simp] theorem Event.isFailure_reject (i : ι) (index : BitVec 16) :
    (Event.reject i index : Event ι Ptr).isFailure = true := rfl

/-- Empty, and no `push` or `pop` in progress. -/
structure Quiescent (s : System ι Ptr) : Prop where
  empty     : ∀ index, s.queue.buffer index = none
  producers : ∀ i, s.producer i = .idle
  consumer  : s.consumer = .idle

theorem Quiescent.not_holds {s : System ι Ptr} (h : Quiescent s) (i : ι) (ticket : BitVec 16) :
    ¬ Holds s i ticket := by
  rintro ⟨ptr, retries, hpc⟩
  simp [h.producers i] at hpc

theorem Quiescent.not_taken {s : System ι Ptr} (h : Quiescent s) (index : BitVec 16) :
    ¬ Taken s index := by
  rintro (hslot | ⟨i, ticket, hold, -⟩)
  · exact hslot (h.empty index)
  · exact h.not_holds i ticket hold

variable [DecidableEq ι]

/-- Producer `i` is about to draw a ticket. -/
def Ticketing (s : System ι Ptr) (i : ι) : Prop := ∃ ptr retries, s.producer i = .ticketing ptr retries

/-- The producer that is about to draw a ticket after this event. -/
def Event.asks? : Event ι Ptr → Option ι
  | .pushCall i _ | .collide i _ => some i
  | _ => none

omit [DecidableEq ι] in
theorem Event.producer_of_asks {e : Event ι Ptr} {i : ι} (h : e.asks? = some i) :
    e.producer? = some i := by
  cases e with
  | pushCall | collide => exact h
  | _ => simp [Event.asks?] at h

omit [DecidableEq ι] in
theorem Event.producer_of_ticketOwner {e : Event ι Ptr} {i : ι} (h : e.ticketOwner? = some i) :
    e.producer? = some i := by
  cases e with
  | ticket => exact h
  | _ => simp [Event.ticketOwner?] at h

theorem step_asks {s t : System ι Ptr} {e : Event ι Ptr} {i : ι} (h : Step s e t)
    (hasks : e.asks? = some i) : ¬ Ticketing s i ∧ e.ticketOwner? = none := by
  cases h.transition with
  | pushCall hidle =>
    obtain rfl := Option.some.inj hasks
    exact ⟨fun ⟨_, _, hpc⟩ => by simp [hidle] at hpc, rfl⟩
  | collide hpc' =>
    obtain rfl := Option.some.inj hasks
    exact ⟨fun ⟨_, _, hpc⟩ => by simp [hpc'] at hpc, rfl⟩
  | _ => simp [Event.asks?] at hasks

theorem step_ticketOwner {s t : System ι Ptr} {e : Event ι Ptr} {i : ι} (h : Step s e t)
    (howner : e.ticketOwner? = some i) : Ticketing s i := by
  cases h.transition with
  | ticket hpc =>
    obtain rfl := Option.some.inj howner
    exact ⟨_, _, hpc⟩
  | _ => simp [Event.ticketOwner?] at howner

theorem step_ticketing {s t : System ι Ptr} {e : Event ι Ptr} (h : Step s e t) (i : ι) :
    Ticketing t i ↔ e.asks? = some i ∨ (Ticketing s i ∧ e.ticketOwner? ≠ some i) := by
  by_cases hby : e.producer? = some i
  · cases h.transition with
    | pushCall | collide =>
      obtain rfl := Option.some.inj hby
      simp [Ticketing, Event.asks?]
    | ticket | publish hpc | reject hpc =>
      obtain rfl := Option.some.inj hby
      simp [Ticketing, Event.asks?, Event.ticketOwner?, *]
    | pushNull hidle =>
      obtain rfl := Option.some.inj hby
      simp [Ticketing, Event.asks?, hidle]
    | _ => simp [Event.producer?] at hby
  · have hasks : e.asks? ≠ some i := fun hi => hby (Event.producer_of_asks hi)
    have howner : e.ticketOwner? ≠ some i := fun hi => hby (Event.producer_of_ticketOwner hi)
    rw [Ticketing, Ticketing, step_producer_frame h hby]
    simp [hasks, howner]

omit [DecidableEq ι] in
/-- Without collisions those who ask for a ticket are the callers. -/
theorem asks_of_not_failure {e : Event ι Ptr} (h : e.isFailure = false) : e.asks? = e.caller? := by
  cases e with
  | collide => simp at h
  | _ => rfl

/-- A call draws one ticket, unless it collides. -/
theorem tickets_le_calls {s t : System ι Ptr} {es : List (Event ι Ptr)} (hquiet : Quiescent s)
    (h : Run Step s es t) (hfail : ∀ e ∈ es, e.isFailure = false) : tickets es ≤ calls es := by
  have hstart : ∀ i, ¬ Ticketing s i := by
    rintro i ⟨ptr, retries, hpc⟩
    simp [hquiet.producers i] at hpc
  obtain ⟨members, -, hcount⟩ := h.population Ticketing Event.asks? Event.ticketOwner?
    (fun _ _ _ _ hst => step_asks hst) (fun _ _ _ _ hst => step_ticketOwner hst)
    (fun _ _ _ i hst => step_ticketing hst i) hstart
  have hasks : es.filterMap Event.asks? = es.filterMap Event.caller? :=
    List.filterMap_congr fun e he => asks_of_not_failure (hfail e he)
  rw [hasks, ← calls, ← owners, length_owners] at hcount
  omega

/-- The producer whose `push` of a non-null pointer returns with this event. -/
def Event.returns? : Event ι Ptr → Option ι
  | .publish i _ _ | .reject i _ => some i
  | _ => none

omit [DecidableEq ι] in
theorem Event.producer_of_caller {e : Event ι Ptr} {i : ι} (h : e.caller? = some i) :
    e.producer? = some i := by
  cases e with
  | pushCall => exact h
  | _ => simp [Event.caller?] at h

omit [DecidableEq ι] in
theorem Event.producer_of_returns {e : Event ι Ptr} {i : ι} (h : e.returns? = some i) :
    e.producer? = some i := by
  cases e with
  | publish | reject => exact h
  | _ => simp [Event.returns?] at h

theorem step_caller {s t : System ι Ptr} {e : Event ι Ptr} {i : ι} (h : Step s e t)
    (hcaller : e.caller? = some i) : ¬ s.producer i ≠ .idle ∧ e.returns? = none := by
  cases h.transition with
  | pushCall hidle =>
    obtain rfl := Option.some.inj hcaller
    exact ⟨fun hne => hne hidle, rfl⟩
  | _ => simp [Event.caller?] at hcaller

theorem step_returns {s t : System ι Ptr} {e : Event ι Ptr} {i : ι} (h : Step s e t)
    (hreturns : e.returns? = some i) : s.producer i ≠ .idle := by
  cases h.transition with
  | publish hpc | reject hpc =>
    obtain rfl := Option.some.inj hreturns
    simp [hpc]
  | _ => simp [Event.returns?] at hreturns

theorem step_inside {s t : System ι Ptr} {e : Event ι Ptr} (h : Step s e t) (i : ι) :
    t.producer i ≠ .idle ↔
      e.caller? = some i ∨ (s.producer i ≠ .idle ∧ e.returns? ≠ some i) := by
  by_cases hby : e.producer? = some i
  · cases h.transition with
    | pushCall | publish | reject =>
      obtain rfl := Option.some.inj hby
      simp [Event.caller?, Event.returns?]
    | pushNull hidle =>
      simp [Event.caller?, Event.returns?]
    | ticket hpc | collide hpc =>
      obtain rfl := Option.some.inj hby
      simp [Event.caller?, Event.returns?, hpc]
    | _ => simp [Event.producer?] at hby
  · have hcaller : e.caller? ≠ some i := fun hi => hby (Event.producer_of_caller hi)
    have hreturns : e.returns? ≠ some i := fun hi => hby (Event.producer_of_returns hi)
    rw [step_producer_frame h hby]
    simp [hcaller, hreturns]

omit [DecidableEq ι] in
/-- Without rejections those who return have published. -/
theorem returns_of_not_failure {e : Event ι Ptr} (h : e.isFailure = false) :
    e.returns?.isSome = e.isPublish := by
  cases e with
  | reject => simp at h
  | _ => rfl

/-- Where all calls have returned and none was rejected, each has published. -/
theorem publishes_eq_calls {s t : System ι Ptr} {es : List (Event ι Ptr)} (hquiet : Quiescent s)
    (h : Run Step s es t) (hfail : ∀ e ∈ es, e.isFailure = false)
    (hdone : ∀ i, t.producer i = .idle) : publishes es = calls es := by
  have hstart : ∀ i, ¬ s.producer i ≠ .idle := fun i hi => hi (hquiet.producers i)
  obtain ⟨members, hmem, hcount⟩ := h.population (fun s i => s.producer i ≠ .idle)
    Event.caller? Event.returns? (fun _ _ _ _ hst => step_caller hst)
    (fun _ _ _ _ hst => step_returns hst) (fun _ _ _ i hst => step_inside hst i) hstart
  have hnobody : members = ∅ := by
    apply Finset.eq_empty_of_forall_notMem
    intro i hi
    exact (hmem i).mp hi (hdone i)
  have hreturns : (es.filterMap Event.returns?).length = publishes es := by
    rw [List.length_filterMap_eq_countP, publishes]
    apply List.countP_congr
    intro e he
    rw [returns_of_not_failure (hfail e he)]
  rw [hreturns, hnobody, Finset.card_empty, Nat.add_zero, ← calls] at hcount
  exact hcount.symm

-- ---------------------------------------------------------------------------
-- The first lap of tickets
-- ---------------------------------------------------------------------------

/-- **No attempt fails within the first lap.** -/
theorem first_lap_publishes {s t u : System ι Ptr} {es : List (Event ι Ptr)} {e : Event ι Ptr}
    (hquiet : Quiescent s) (hrun : Run Step s es t) (hcap : tickets es ≤ capacity)
    (hstep : Step t e u) : e.isFailure = false := by
  by_contra hfail
  rw [Bool.not_eq_false, Event.isFailure, Bool.and_eq_true, Bool.not_eq_true'] at hfail
  obtain ⟨i, hby⟩ := Event.producer_of_attempt hfail.1
  obtain ⟨used, hwin⟩ := run_window hrun
  obtain ⟨k, -, -, htaken, -⟩ :=
    hwin.failed_attempt hcap hstep hby hfail.1 hfail.2 (hquiet.not_holds i)
  exact hquiet.not_taken _ htaken

theorem run_first_lap {s t : System ι Ptr} {es : List (Event ι Ptr)} (hquiet : Quiescent s)
    (h : Run Step s es t) (hcalls : calls es ≤ capacity) : ∀ e ∈ es, e.isFailure = false := by
  refine h.trace_invariant
    (P := fun es t => calls es ≤ capacity → ∀ e ∈ es, e.isFailure = false) ?_ ?_ hcalls
  · simp
  · intro es t e u hrun ih hstep hcalls f hf
    have hle : calls es ≤ calls (es ++ [e]) := by
      rw [calls, calls, List.filterMap_append, List.length_append]
      omega
    have hsofar := ih (by omega)
    rcases List.mem_append.mp hf with hf | hf
    · exact hsofar f hf
    · -- so far every call has drawn at most one ticket
      have htickets := tickets_le_calls hquiet hrun hsofar
      rw [List.mem_singleton.mp hf]
      exact first_lap_publishes hquiet hrun (by omega) hstep

/-- The slot a producer is about to try is empty. -/
theorem first_lap_slot_null {s t : System ι Ptr} {es : List (Event ι Ptr)} {i : ι} {ptr : Ptr}
    {retries : Nat} {ticket : BitVec 16} (hquiet : Quiescent s) (h : Run Step s es t)
    (hcalls : calls es ≤ capacity) (hpc : t.producer i = .publishing ptr retries ticket) :
    t.queue.buffer (indexFromTicket ticket) = none := by
  have htickets := tickets_le_calls hquiet h (run_first_lap hquiet h hcalls)
  by_contra hslot
  -- the attempt would fail
  rcases Nat.lt_or_ge retries pushRetryLimit with hretry | hretry
  · have hok := first_lap_publishes hquiet h (by omega) (Transition.collide hpc hslot hretry).step
    simp at hok
  · have hok := first_lap_publishes hquiet h (by omega) (Transition.reject hpc hslot hretry).step
    simp at hok

theorem collisions_eq_zero {i : ι} {es : List (Event ι Ptr)}
    (hfail : ∀ e ∈ es, e.isFailure = false) : collisions i es = 0 := by
  rw [collisions, List.count_eq_zero]
  intro hmem
  obtain ⟨e, he, hi⟩ := List.mem_filterMap.mp hmem
  have hok := hfail e he
  cases e with
  | collide => simp at hok
  | _ => simp [Event.collider?] at hi

/-- Within the first lap a `push` in progress is at its first attempt. -/
theorem first_attempt {s t : System ι Ptr} {es : List (Event ι Ptr)} {i : ι} {ptr : Ptr}
    (hcall : s.producer i = .ticketing ptr 0) (h : Run Step s es t)
    (hopen : ∀ e ∈ es, ∀ b, e.pushReturn? ≠ some (i, b)) (hfail : ∀ e ∈ es, e.isFailure = false) :
    (t.producer i = .ticketing ptr 0 ∧ ticketsOf i es = 0) ∨
      ∃ ticket, t.producer i = .publishing ptr 0 ticket ∧ ticketsOf i es = 1 := by
  have hzero := collisions_eq_zero (i := i) hfail
  cases pushProgress_of_run hcall h hopen with
  | ticketing hpc hcount =>
    rw [hzero] at hpc hcount
    exact Or.inl ⟨hpc, hcount⟩
  | publishing ticket hpc hcount =>
    rw [hzero] at hpc hcount
    exact Or.inr ⟨ticket, hpc, hcount⟩

/-- A producer inside `push` is never blocked. -/
theorem producer_enabled {s : System ι Ptr} {i : ι} (h : s.producer i ≠ .idle) :
    ∃ e t, s.step (.producer i) = some (e, t) := by
  rw [System.step, System.producerStep]
  cases hpc : s.producer i with
  | idle => exact absurd hpc h
  | ticketing ptr retries => exact ⟨_, _, rfl⟩
  | publishing ptr retries ticket =>
    dsimp only
    by_cases hslot : s.queue.buffer (indexFromTicket ticket) = none
    · rw [BoundMPSC.compareExchange_of_null ptr hslot]
      exact ⟨_, _, rfl⟩
    · rw [BoundMPSC.compareExchange_of_ne_null ptr hslot]
      dsimp only
      split <;> exact ⟨_, _, rfl⟩

-- ---------------------------------------------------------------------------
-- The full queue
-- ---------------------------------------------------------------------------

theorem step_occupied {s t : System ι Ptr} {e : Event ι Ptr} (hinv : ConsumerInv s)
    (h : Step s e t) :
    t.queue.occupied.card + (if e.isDeliver then 1 else 0) =
      s.queue.occupied.card + if e.isPublish then 1 else 0 := by
  cases h.transition with
  | publish hpc hslot =>
    simp only [Event.isDeliver, Event.isPublish, Bool.false_eq_true, if_false, if_true, add_zero]
    exact BoundMPSC.card_occupied_store hslot rfl
  | @deliver index hpc =>
    have hold : s.queue.buffer index ≠ none := by
      rw [hinv.held index hpc]
      exact hinv.out index hpc
    simp only [Event.isDeliver, Event.isPublish, Bool.false_eq_true, if_false, if_true, add_zero]
    exact BoundMPSC.card_occupied_clear hold rfl
  | _ =>
    have hkeep : ∀ q : BoundMPSC Ptr, q.buffer = s.queue.buffer → q.occupied = s.queue.occupied :=
      fun _ hq => BoundMPSC.occupied_congr hq
    simp [Event.isDeliver, Event.isPublish, System.setProducer, hkeep]

/-- **Occupancy.** -/
theorem run_occupied {s t : System ι Ptr} {es : List (Event ι Ptr)} (hinv : ConsumerInv s)
    (h : Run Step s es t) :
    t.queue.occupied.card + delivers es = s.queue.occupied.card + publishes es :=
  h.balance_count (fun s => s.queue.occupied.card) Event.isPublish Event.isDeliver
    (fun _ _ _ hI hst => step_consumerInv hI hst) (fun _ _ _ hI hst => step_occupied hI hst) hinv

/-- If no `pop` is called, the idle consumer stays idle. -/
theorem run_idle_consumer {s t : System ι Ptr} {es : List (Event ι Ptr)}
    (hidle : s.consumer = .idle) (h : Run Step s es t) (hpop : ∀ e ∈ es, e ≠ .popCall) :
    t.consumer = .idle ∧ delivers es = 0 := by
  induction h with
  | nil => exact ⟨hidle, rfl⟩
  | @cons s m u e es hstep _ ih =>
    have hfirst := hpop e (List.mem_cons_self ..)
    have hstay : m.consumer = .idle ∧ e.isDeliver = false := by
      cases hstep.transition with
      | popCall => exact absurd rfl hfirst
      | miss hpc | popEmpty hpc | load hpc | deliver hpc => simp [hpc] at hidle
      | _ => exact ⟨hidle, rfl⟩
    obtain ⟨hend, hzero⟩ := ih hstay.1 fun f hf => hpop f (List.mem_cons_of_mem _ hf)
    refine ⟨hend, ?_⟩
    rw [delivers, List.countP_cons_of_neg (by simp [hstay.2])]
    exact hzero

/-- While no `pop` is called, nothing changes in a full queue. -/
theorem run_full_queue {s t : System ι Ptr} {es : List (Event ι Ptr)}
    (hidle : s.consumer = .idle) (hfull : ∀ index, s.queue.buffer index ≠ none)
    (h : Run Step s es t) (hpop : ∀ e ∈ es, e ≠ .popCall) :
    t.queue.buffer = s.queue.buffer := by
  refine (h.trace_invariant (P := fun es t => (∀ e ∈ es, e ≠ .popCall) →
    t.consumer = .idle ∧ t.queue.buffer = s.queue.buffer) ?_ ?_ hpop).2
  · exact fun _ => ⟨hidle, rfl⟩
  · intro es t e u _ ih hstep hpop
    obtain ⟨hidle', hsame⟩ := ih fun f hf => hpop f (List.mem_append_left _ hf)
    have hfirst := hpop e (by simp)
    rw [step_buffer hstep]
    cases hstep.transition with
    | popCall => exact absurd rfl hfirst
    | miss hpc | popEmpty hpc | load hpc | deliver hpc => simp [hpc] at hidle'
    | publish hpc hslot =>
      rw [hsame] at hslot
      exact absurd hslot (hfull _)
    | _ => exact ⟨hidle', hsame⟩

/-- `capacity` pointers published and none delivered fill every slot. -/
theorem full_of_publishes {s t : System ι Ptr} {es : List (Event ι Ptr)} (hquiet : Quiescent s)
    (h : Run Step s es t) (hpop : ∀ e ∈ es, e ≠ .popCall) (hpublish : publishes es = capacity) :
    t.consumer = .idle ∧ ∀ index, t.queue.buffer index ≠ none := by
  have hinv : ConsumerInv s := by
    constructor <;> intro index hpc <;> simp [hquiet.consumer] at hpc
  obtain ⟨hidle, hzero⟩ := run_idle_consumer hquiet.consumer h hpop
  have hstart : s.queue.occupied = ∅ := by
    apply Finset.eq_empty_of_forall_notMem
    intro x hx
    exact BoundMPSC.mem_occupied.mp hx (hquiet.empty x)
  have hcard := run_occupied hinv h
  rw [hzero, hstart, Finset.card_empty, hpublish, Nat.zero_add, Nat.add_zero, ← card_index] at hcard
  have hall := (Finset.card_eq_iff_eq_univ _).mp hcard
  refine ⟨hidle, fun index => ?_⟩
  rw [← BoundMPSC.mem_occupied, hall]
  exact Finset.mem_univ index

omit [DecidableEq ι] in
theorem Event.producer_of_pushReturn {e : Event ι Ptr} {i : ι} {b : Bool}
    (h : e.pushReturn? = some (i, b)) : e.producer? = some i := by
  cases e with
  | pushNull | publish | reject =>
    obtain ⟨rfl, -⟩ := by simpa [Event.pushReturn?] using h
    rfl
  | _ => simp [Event.pushReturn?] at h

omit [DecidableEq ι] in
theorem Event.ne_popCall_of_producer {e : Event ι Ptr} {i : ι} (h : e.producer? = some i) :
    e ≠ .popCall := by
  rintro rfl
  simp [Event.producer?] at h

/-- One producer, alone, fills the queue call by call. -/
theorem fill_run {s : System ι Ptr} (hquiet : Quiescent s) (i : ι) (ptr : Ptr) (n : Nat)
    (hn : n ≤ capacity) : ∃ es t, Run Step s es t ∧ calls es = n ∧
      (∀ e ∈ es, e.producer? = some i) ∧ ∀ j, t.producer j = .idle := by
  induction n with
  | zero => exact ⟨[], s, .nil s, rfl, by simp, hquiet.producers⟩
  | succ n ih =>
    obtain ⟨es, t, hrun, hcalls, halone, hidle⟩ := ih (by omega)
    obtain ⟨t₁, hcall, hpc₁, hother₁⟩ : ∃ t₁, Step t (.pushCall i ptr) t₁ ∧
        t₁.producer i = .ticketing ptr 0 ∧ ∀ j ≠ i, t₁.producer j = .idle :=
      ⟨_, (Transition.pushCall (hidle i)).step, System.setProducer_self ..,
        fun j hj => (System.setProducer_of_ne _ _ hj).trans (hidle j)⟩
    obtain ⟨t₂, hticket, hpc₂, hother₂⟩ : ∃ t₂, Step t₁ (.ticket i t₁.queue.ticket) t₂ ∧
        t₂.producer i = .publishing ptr 0 t₁.queue.ticket ∧ ∀ j ≠ i, t₂.producer j = .idle :=
      ⟨_, (Transition.ticket hpc₁).step, System.setProducer_self ..,
        fun j hj => (System.setProducer_of_ne _ _ hj).trans (hother₁ j hj)⟩
    have hrun₂ := hrun.append (.cons hcall (.single hticket))
    have hcalls₂ : calls (es ++ [.pushCall i ptr, .ticket i t₁.queue.ticket]) = n + 1 := by
      rw [calls, List.filterMap_append, List.length_append, ← calls, hcalls]
      rfl
    have hslot := first_lap_slot_null hquiet hrun₂ (by omega) hpc₂
    refine ⟨_, _, hrun₂.snoc (Transition.publish hpc₂ hslot).step, ?_, ?_, ?_⟩
    · rw [calls, List.filterMap_append, List.length_append, ← calls, hcalls₂]
      rfl
    · intro e he
      rcases List.mem_append.mp he with he | he
      · rcases List.mem_append.mp he with he | he
        · exact halone e he
        · rcases List.mem_cons.mp he with rfl | he
          · rfl
          · rw [List.mem_singleton.mp he]
            rfl
      · rw [List.mem_singleton.mp he]
        rfl
    · intro j
      by_cases hj : j = i
      · subst hj
        exact System.setProducer_self ..
      · exact (System.setProducer_of_ne _ _ hj).trans (hother₂ j hj)

/-- With `capacity` calls it has filled every slot. -/
theorem fill_capacity_run {s : System ι Ptr} (hquiet : Quiescent s) (i : ι) (ptr : Ptr) :
    ∃ es t, Run Step s es t ∧ (∀ e ∈ es, e.producer? = some i) ∧
      (∀ e ∈ es, e.isFailure = false) ∧ calls es = capacity ∧ publishes es = capacity ∧
      (∀ j, t.producer j = .idle) ∧ ∀ index, t.queue.buffer index ≠ none := by
  obtain ⟨es, t, hrun, hcalls, halone, hidle⟩ := fill_run hquiet i ptr capacity le_rfl
  have hfail := run_first_lap hquiet hrun hcalls.le
  have hpublish : publishes es = capacity :=
    (publishes_eq_calls hquiet hrun hfail hidle).trans hcalls
  obtain ⟨-, hfull⟩ := full_of_publishes hquiet hrun
    (fun e he => Event.ne_popCall_of_producer (halone e he)) hpublish
  exact ⟨es, t, hrun, halone, hfail, hcalls, hpublish, hidle, hfull⟩

-- ---------------------------------------------------------------------------
-- Main result
-- ---------------------------------------------------------------------------

/-- In a full queue, while no `pop` is called, a `push` makes at most
`pushRetryLimit + 1` attempts, is never blocked, and returns false. -/
theorem full_queue_rejects {t t₁ v : System ι Ptr} {fs : List (Event ι Ptr)} {i : ι} {ptr : Ptr}
    (hidle : t.consumer = .idle) (hfull : ∀ index, t.queue.buffer index ≠ none)
    (hcall : Step t (.pushCall i ptr) t₁) (hrun : Run Step t₁ fs v)
    (hpop : ∀ e ∈ fs, e ≠ .popCall) (hopen : ∀ e ∈ fs, ∀ b, e.pushReturn? ≠ some (i, b)) :
    v.queue.buffer = t.queue.buffer ∧ ticketsOf i fs ≤ pushRetryLimit + 1 ∧
    (∃ e w, v.step (.producer i) = some (e, w)) ∧
    ∀ e w b, Step v e w → e.pushReturn? = some (i, b) →
      b = false ∧ w.queue.buffer = t.queue.buffer := by
  have hpc := hcall.producer_of_pushCall
  have hsame : v.queue.buffer = t.queue.buffer :=
    run_full_queue hidle hfull (.cons hcall hrun) (by simpa using hpop)
  have hprog := pushProgress_of_run hpc hrun hopen
  refine ⟨hsame, ?_, ?_, ?_⟩
  · cases hprog with
    | ticketing _ hcount hle => omega
    | publishing _ _ hcount hle => omega
  · apply producer_enabled
    cases hprog with
    | ticketing hpc' => simp [hpc']
    | publishing _ hpc' => simp [hpc']
  · intro e w b hstep hret
    cases hstep.transition with
    | pushNull | reject =>
      simp only [Event.pushReturn?, Option.some.injEq, Prod.mk.injEq] at hret
      exact ⟨hret.2.symm, hsame⟩
    | publish hpc' hslot =>
      rw [hsame] at hslot
      exact absurd hslot (hfull _)
    | _ => simp [Event.pushReturn?] at hret

/--
**The full capacity is usable at every alignment.** Let the queue be empty and
nobody inside `push` or `pop`, wherever `ticket_` and `head_` stand, and let at
most `capacity` calls of `push` follow, interleaved in any way with each other
and with the consumer.

* No attempt fails: every call that has returned has returned true, with its
  first ticket.
* A call still in progress is at its first attempt, and that attempt, when it
  is due, succeeds.
* When `capacity` calls have been made and have returned and no `pop` was
  called, every slot is occupied. A `push` called then returns false, as long
  as no `pop` is called, whatever the other producers do: it makes at most
  `pushRetryLimit + 1` attempts, is never blocked, and leaves every slot as it
  was.
-/
theorem full_capacity_usable {s t : System ι Ptr} {es : List (Event ι Ptr)} (hquiet : Quiescent s)
    (hrun : Run Step s es t) (hcalls : calls es ≤ capacity) :
    (∀ e ∈ es, e.isFailure = false) ∧
    (∀ pre i ptr mid e b post, es = pre ++ .pushCall i ptr :: mid ++ e :: post →
      (∀ e ∈ mid, ∀ b, e.pushReturn? ≠ some (i, b)) → e.pushReturn? = some (i, b) →
      b = true ∧ ticketsOf i mid = 1) ∧
    (∀ i ptr ticket retries, t.producer i = .publishing ptr retries ticket →
      ∃ u, t.step (.producer i) = some (.publish i (indexFromTicket ticket) ptr, u)) ∧
    (calls es = capacity → (∀ i, t.producer i = .idle) → (∀ e ∈ es, e ≠ .popCall) →
      (∀ index, t.queue.buffer index ≠ none) ∧
      ∀ i ptr t₁ fs v, Step t (.pushCall i ptr) t₁ → Run Step t₁ fs v →
        (∀ e ∈ fs, e ≠ .popCall) → (∀ e ∈ fs, ∀ b, e.pushReturn? ≠ some (i, b)) →
        v.queue.buffer = t.queue.buffer ∧ ticketsOf i fs ≤ pushRetryLimit + 1 ∧
        (∃ e w, v.step (.producer i) = some (e, w)) ∧
        ∀ e w b, Step v e w → e.pushReturn? = some (i, b) →
          b = false ∧ w.queue.buffer = t.queue.buffer) := by
  have hfail := run_first_lap hquiet hrun hcalls
  refine ⟨hfail, ?_, ?_, ?_⟩
  · intro pre i ptr mid e b post hes hopen hret
    rw [hes, List.append_assoc] at hrun
    have hfail' : ∀ f ∈ mid ++ [e], f.isFailure = false := by
      intro f hf
      apply hfail
      rw [hes]
      rcases List.mem_append.mp hf with hf | hf
      · simp [hf]
      · simp [List.mem_singleton.mp hf]
    obtain ⟨s₁, s₂, -, hcall, hrest⟩ := hrun.split_cons
    obtain ⟨s₃, s₄, hmid, hstep, -⟩ := hrest.split_cons
    have hfirst := first_attempt hcall.producer_of_pushCall hmid hopen fun f hf =>
      hfail' f (List.mem_append_left _ hf)
    cases hstep.transition with
    | pushNull hidle =>
      -- the caller is inside `push` and makes no other call
      obtain ⟨rfl, -⟩ := by simpa [Event.pushReturn?] using hret
      simp [hidle] at hfirst
    | publish hpc' hslot =>
      obtain ⟨rfl, rfl⟩ := by simpa [Event.pushReturn?] using hret
      rcases hfirst with ⟨hpc'', -⟩ | ⟨ticket, -, hcount⟩
      · simp [hpc'] at hpc''
      · exact ⟨rfl, hcount⟩
    | reject =>
      have := hfail' _ (List.mem_append_right _ (List.mem_singleton_self _))
      simp at this
    | _ => simp [Event.pushReturn?] at hret
  · intro i ptr ticket retries hpc
    have hslot := first_lap_slot_null hquiet hrun hcalls hpc
    rw [System.step, System.producerStep, hpc]
    dsimp only
    rw [BoundMPSC.compareExchange_of_null ptr hslot]
    exact ⟨_, rfl⟩
  · intro hall hidle hpop
    have hpublish : publishes es = capacity :=
      (publishes_eq_calls hquiet hrun hfail hidle).trans hall
    obtain ⟨hcons, hfull⟩ := full_of_publishes hquiet hrun hpop hpublish
    exact ⟨hfull, fun i ptr t₁ fs v hcall hrun' hpop' hopen =>
      full_queue_rejects hcons hfull hcall hrun' hpop' hopen⟩

/-- A queue that has been used, with both counters at 1, is filled by `capacity` calls; the
next call is rejected. -/
theorem full_capacity_usable_aligned :
    ∃ (s t t₁ v w : System (Fin 2) Nat) (es fs : List (Event (Fin 2) Nat)) (e : Event (Fin 2) Nat),
      Reachable Step .init s ∧ s.queue.ticket = 1 ∧ s.queue.head = 1 ∧ Quiescent s ∧
      Run Step s es t ∧ calls es = capacity ∧ (∀ e ∈ es, e.isFailure = false) ∧
      Step t (.pushCall 1 9) t₁ ∧ Run Step t₁ fs v ∧ Step v e w ∧
      e.pushReturn? = some (1, false) ∧ w.queue.buffer = t.queue.buffer := by
  obtain ⟨s, hreach, hticket, hhead, hbuf, hproducer, hconsumer⟩ : ∃ s : System (Fin 2) Nat,
      Reachable Step .init s ∧ s.queue.ticket = 1 ∧ s.queue.head = 1 ∧
      s.queue.buffer =
        Function.update (Function.update (fun _ => none) (indexFromTicket 0) (some 7)) 0 none ∧
      (∀ i, s.producer i = .idle) ∧ s.consumer = .idle :=
    ⟨_, ⟨_, run_of_exec [.push 0 (some 7), .producer 0, .producer 0, .pop, .consumer, .consumer]
      rfl⟩, rfl, rfl, rfl, Fin.forall_fin_two.mpr ⟨rfl, rfl⟩, rfl⟩
  have hempty : ∀ index, s.queue.buffer index = none := by
    intro index
    rw [hbuf, show indexFromTicket 0 = 0 from rfl, Function.update_idem]
    exact congrFun (Function.update_eq_self 0 _) index
  have hquiet : Quiescent s := ⟨hempty, hproducer, hconsumer⟩
  obtain ⟨es, t, hrun, halone, -, hcalls, -, hidle, -⟩ := fill_capacity_run hquiet 0 7
  obtain ⟨hfail, -, -, hfollowing⟩ := full_capacity_usable hquiet hrun hcalls.le
  obtain ⟨hfull, hreject⟩ := hfollowing hcalls hidle fun e he =>
    Event.ne_popCall_of_producer (halone e he)
  obtain ⟨t₁, hcall, hpc, hbuf⟩ : ∃ t₁, Step t (.pushCall 1 9) t₁ ∧
      t₁.producer 1 = .ticketing 9 0 ∧ t₁.queue.buffer = t.queue.buffer :=
    ⟨_, (Transition.pushCall (hidle 1)).step, System.setProducer_self .., rfl⟩
  obtain ⟨fs, v, ticket, hrun', -, hopen, hpop', hpc', hkeep⟩ :=
    fullPush_run pushRetryLimit hpc (by rwa [hbuf]) (Nat.zero_add _)
  have hlast := (Transition.reject hpc' (hkeep _) le_rfl).step
  obtain ⟨-, -, -, hreturn⟩ := hreject 1 9 t₁ fs v hcall hrun' hpop' hopen
  exact ⟨s, t, t₁, v, _, es, fs, _, hreach, hticket, hhead, hquiet, hrun, hcalls, hfail, hcall,
    hrun', hlast, rfl, (hreturn _ _ false hlast rfl).2⟩

/-- **An overtaken call is rejected.** In a fresh queue producer 0 calls `push` and is paused
before its `fetch_add`; producer 1 makes `capacity` calls, which all return true; the call of
producer 0, the first of all, then draws `pushRetryLimit + 1` tickets and returns false. -/
theorem full_capacity_usable_overtaken :
    ∃ (t v w : System (Fin 2) Nat) (es fs : List (Event (Fin 2) Nat)) (e : Event (Fin 2) Nat),
      Quiescent (System.init : System (Fin 2) Nat) ∧ Run Step .init (.pushCall 0 7 :: es) t ∧
      (∀ e ∈ es, e.producer? = some 1) ∧ (∀ e ∈ es, e.isFailure = false) ∧
      calls es = capacity ∧ publishes es = capacity ∧
      Run Step t fs v ∧ (∀ e ∈ fs, ∀ b, e.pushReturn? ≠ some (0, b)) ∧
      ticketsOf 0 (es ++ fs) = pushRetryLimit + 1 ∧
      Step v e w ∧ e.pushReturn? = some (0, false) := by
  have hquiet : Quiescent (System.init : System (Fin 2) Nat) :=
    ⟨fun _ => rfl, fun _ => rfl, rfl⟩
  obtain ⟨es, t, hfill, halone, hfail, hcalls, hpublish, -, hfull⟩ := fill_capacity_run hquiet 1 9
  -- producer 1 does the same while producer 0 waits for its first ticket
  have hpaused := run_setProducer (i := 0) (.ticketing 7 0) hfill fun e he => by
    rw [halone e he]
    decide
  obtain ⟨fs, v, ticket, hrun, -, hopen, -, hpc, hkeep⟩ :=
    fullPush_run pushRetryLimit (System.setProducer_self t 0 (.ticketing 7 0)) hfull
      (Nat.zero_add _)
  have hopen' : ∀ e ∈ es ++ fs, ∀ b, e.pushReturn? ≠ some (0, b) := by
    intro e he b
    rcases List.mem_append.mp he with he | he
    · intro hret
      have hproducer := (halone e he).symm.trans (Event.producer_of_pushReturn hret)
      exact absurd (Option.some.inj hproducer) (by decide)
    · exact hopen e he b
  have hcount : ticketsOf 0 (es ++ fs) = pushRetryLimit + 1 := by
    have hprog := pushProgress_of_run (System.setProducer_self _ 0 (.ticketing 7 0))
      (hpaused.append hrun) hopen'
    cases hprog with
    | ticketing hpc' => simp [hpc] at hpc'
    | publishing _ hpc' hcount =>
      rw [hpc] at hpc'
      injection hpc' with _ hretries
      rw [hcount, ← hretries]
  refine ⟨_, v, _, es, fs, _, hquiet, .cons (Transition.pushCall rfl).step hpaused, halone, hfail,
    hcalls, hpublish, hrun, hopen, hcount, (Transition.reject hpc (hkeep _) le_rfl).step, rfl⟩

end Destiny.Replay
