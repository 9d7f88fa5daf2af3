import Mathlib.Data.Fintype.Card
import Destiny.Replay.TicketWindow

/-!
# BoundMPSC — a sparsely filled queue rejects nothing

A `push` gives up after `pushRetryLimit + 1` attempts. They happen at
different times, while producers fill and the consumer clears slots, and yet
together they are evidence about the one moment the call began: the slots are
pairwise distinct, and each of them was taken at that moment.

* `PushProgress`      — where a `push` stands that has not returned.
* `run_failedAttempts` — the slots of its failed attempts were taken at its call.
* `rejected_push_needs_occupied_slots` — the bound on the occupied slots, and
  the exact slots when there is a single producer.
-/

namespace Destiny.Replay

open Foundation

variable {ι Ptr : Type*} [DecidableEq ι]

-- ---------------------------------------------------------------------------
-- A push in progress
-- ---------------------------------------------------------------------------

/-- The producer whose attempt failed and that goes round again. -/
def Event.collider? : Event ι Ptr → Option ι
  | .collide i _ => some i
  | _ => none

/-- The tickets issued to producer `i` in a run. -/
def ticketsOf (i : ι) (es : List (Event ι Ptr)) : Nat := (owners es).count i

/-- The failed attempts of producer `i` in a run that were not its last. -/
def collisions (i : ι) (es : List (Event ι Ptr)) : Nat := (es.filterMap Event.collider?).count i

/-- Where producer `i` stands in a `push(ptr)` after the events `es` since its
call: one retry for each collision, and one ticket more while it holds one. -/
inductive PushProgress (i : ι) (ptr : Ptr) (es : List (Event ι Ptr)) (t : System ι Ptr) : Prop
  | ticketing (hpc : t.producer i = .ticketing ptr (collisions i es))
      (hcount : ticketsOf i es = collisions i es) (hle : collisions i es ≤ pushRetryLimit)
  | publishing (ticket : BitVec 16) (hpc : t.producer i = .publishing ptr (collisions i es) ticket)
      (hcount : ticketsOf i es = collisions i es + 1) (hle : collisions i es ≤ pushRetryLimit)

theorem ticketsOf_snoc (i : ι) (es : List (Event ι Ptr)) (e : Event ι Ptr) :
    ticketsOf i (es ++ [e]) = ticketsOf i es + if e.ticketOwner? = some i then 1 else 0 := by
  exact count_filterMap_snoc i es e

theorem collisions_snoc (i : ι) (es : List (Event ι Ptr)) (e : Event ι Ptr) :
    collisions i (es ++ [e]) = collisions i es + if e.collider? = some i then 1 else 0 := by
  exact count_filterMap_snoc i es e

theorem step_pushProgress {s t : System ι Ptr} {e : Event ι Ptr} {es : List (Event ι Ptr)} {i : ι}
    {ptr : Ptr} (hprog : PushProgress i ptr es s) (h : Step s e t)
    (hopen : ∀ b, e.pushReturn? ≠ some (i, b)) : PushProgress i ptr (es ++ [e]) t := by
  have htickets := ticketsOf_snoc i es e
  have hcollisions := collisions_snoc i es e
  by_cases hby : e.producer? = some i
  · cases h.transition with
    | @ticket j ptr' retries hpc =>
      obtain rfl : j = i := by simpa [Event.producer?] using hby
      simp only [Event.ticketOwner?, Event.collider?, if_true, reduceCtorEq, if_false]
        at htickets hcollisions
      cases hprog with
      | ticketing hpc' hcount hle =>
        rw [hpc] at hpc'
        simp only [Producer.ticketing.injEq] at hpc'
        obtain ⟨rfl, rfl⟩ := hpc'
        refine .publishing s.queue.ticket ?_ (by omega) (by omega)
        rw [System.setProducer_self, hcollisions]
        rfl
      | publishing ticket hpc' => simp [hpc] at hpc'
    | @collide j ptr' retries ticket hpc hslot hretry =>
      obtain rfl : j = i := by simpa [Event.producer?] using hby
      simp only [Event.ticketOwner?, Event.collider?, if_true, reduceCtorEq, if_false]
        at htickets hcollisions
      cases hprog with
      | ticketing hpc' => simp [hpc] at hpc'
      | publishing ticket' hpc' hcount hle =>
        rw [hpc] at hpc'
        simp only [Producer.publishing.injEq] at hpc'
        obtain ⟨rfl, rfl, -⟩ := hpc'
        refine .ticketing ?_ (by omega) (by omega)
        rw [System.setProducer_self, hcollisions]
    | @pushCall j ptr' hidle | @pushNull j hidle =>
      -- a producer inside `push` makes no call
      obtain rfl : j = i := by simpa [Event.producer?] using hby
      cases hprog with
      | ticketing hpc => simp [hidle] at hpc
      | publishing ticket hpc => simp [hidle] at hpc
    | publish => exact absurd (by simpa [Event.producer?, Event.pushReturn?] using hby) (hopen true)
    | reject => exact absurd (by simpa [Event.producer?, Event.pushReturn?] using hby) (hopen false)
    | _ => simp [Event.producer?] at hby
  · -- somebody else's event
    have hframe := step_producer_frame h hby
    have hno : e.ticketOwner? ≠ some i ∧ e.collider? ≠ some i := by
      cases e <;> simp_all [Event.ticketOwner?, Event.collider?, Event.producer?]
    rw [if_neg hno.1, Nat.add_zero] at htickets
    rw [if_neg hno.2, Nat.add_zero] at hcollisions
    cases hprog with
    | ticketing hpc hcount hle =>
      exact .ticketing (by rw [hframe, hpc, hcollisions]) (by omega) (by omega)
    | publishing ticket hpc hcount hle =>
      exact .publishing ticket (by rw [hframe, hpc, hcollisions]) (by omega) (by omega)

/-- **Progress of a push.** -/
theorem pushProgress_of_run {s t : System ι Ptr} {es : List (Event ι Ptr)} {i : ι} {ptr : Ptr}
    (hcall : s.producer i = .ticketing ptr 0) (h : Run Step s es t)
    (hopen : ∀ e ∈ es, ∀ b, e.pushReturn? ≠ some (i, b)) : PushProgress i ptr es t := by
  refine h.trace_invariant
    (P := fun es t => (∀ e ∈ es, ∀ b, e.pushReturn? ≠ some (i, b)) → PushProgress i ptr es t)
    ?_ ?_ hopen
  · intro _
    exact .ticketing hcall rfl (Nat.zero_le _)
  · intro es t e u _ ih hstep hopen
    have hprog := ih fun f hf => hopen f (List.mem_append_left _ hf)
    exact step_pushProgress hprog hstep (hopen e (by simp))

-- ---------------------------------------------------------------------------
-- The slots of the failed attempts
-- ---------------------------------------------------------------------------

/-- The tickets with the numbers `failed` are the ones a `push` that began in
`s` has tried in vain; their slots were taken in `s`. -/
structure FailedAttempts (s : System ι Ptr) (es : List (Event ι Ptr)) (t : System ι Ptr) (i : ι)
    (used failed : Finset Nat) : Prop where
  window : TicketWindow s es t used
  tried  : failed ⊆ used
  taken  : ∀ k ∈ failed, Taken s (s.queue.ticketSlot k)
  count  : failed.card = collisions i es

theorem step_failedAttempts {s t u : System ι Ptr} {es : List (Event ι Ptr)} {e : Event ι Ptr}
    {i : ι} {used failed : Finset Nat} (hfresh : ∀ ticket, ¬ Holds s i ticket)
    (hcap : tickets es ≤ capacity) (hatt : FailedAttempts s es t i used failed)
    (hstep : Step t e u) : ∃ used' failed', FailedAttempts s (es ++ [e]) u i used' failed' := by
  have hcollisions := collisions_snoc i es e
  by_cases hcollide : e.collider? = some i
  · have hkind : e.producer? = some i ∧ e.isAttempt = true ∧ e.isPublish = false := by
      cases e <;> simp_all [Event.collider?, Event.producer?, Event.isAttempt, Event.isPublish]
    obtain ⟨k, howner, hunused, htaken, hwin⟩ :=
      hatt.window.failed_attempt hcap hstep hkind.1 hkind.2.1 hkind.2.2 hfresh
    have hnew : k ∉ failed := fun hk => hunused (hatt.tried hk)
    refine ⟨insert k used, insert k failed, hwin, Finset.insert_subset_insert k hatt.tried, ?_, ?_⟩
    · intro m hm
      rcases Finset.mem_insert.mp hm with rfl | hm
      · exact htaken
      · exact hatt.taken m hm
    · rw [Finset.card_insert_of_notMem hnew, hatt.count, hcollisions, if_pos hcollide]
  · obtain ⟨used', hsub, hwin⟩ := step_window hatt.window hstep
    refine ⟨used', failed, hwin, hatt.tried.trans hsub, hatt.taken, ?_⟩
    rw [hatt.count, hcollisions, if_neg hcollide, Nat.add_zero]

theorem run_failedAttempts {s t : System ι Ptr} {es : List (Event ι Ptr)} {i : ι}
    (hfresh : ∀ ticket, ¬ Holds s i ticket) (h : Run Step s es t) (hcap : tickets es ≤ capacity) :
    ∃ used failed, FailedAttempts s es t i used failed := by
  refine h.trace_invariant
    (P := fun es t => tickets es ≤ capacity → ∃ used failed, FailedAttempts s es t i used failed)
    ?_ ?_ hcap
  · intro _
    exact ⟨∅, ∅, .refl s, subset_rfl, by simp, rfl⟩
  · intro es t e u _ ih hstep hcap
    have hle : tickets es ≤ tickets (es ++ [e]) :=
      List.Sublist.countP_le (List.sublist_append_left es [e])
    obtain ⟨used, failed, hatt⟩ := ih (by omega)
    exact step_failedAttempts hfresh (by omega) hatt hstep

/-- **A rejected push, attempt by attempt.** `pushRetryLimit + 1` of the
tickets issued since the call went to it, and the slots of all of them were
taken when it was called. -/
theorem rejected_push_slots {s t u : System ι Ptr} {es : List (Event ι Ptr)} {e : Event ι Ptr}
    {i : ι} {ptr : Ptr} (hcall : s.producer i = .ticketing ptr 0) (hrun : Run Step s es t)
    (hopen : ∀ e ∈ es, ∀ b, e.pushReturn? ≠ some (i, b)) (hstep : Step t e u)
    (hfail : e.pushReturn? = some (i, false)) :
    ticketsOf i es = pushRetryLimit + 1 ∧ (tickets es ≤ capacity →
      ∃ failed : Finset Nat, failed.card = pushRetryLimit + 1 ∧
        ∀ k ∈ failed, k < tickets es ∧ Taken s (s.queue.ticketSlot k)) := by
  have hprog := pushProgress_of_run hcall hrun hopen
  have hfresh : ∀ ticket, ¬ Holds s i ticket := by
    rintro ticket ⟨ptr', retries, hpc⟩
    simp [hcall] at hpc
  cases hstep.transition with
  | @pushNull j hidle =>
    obtain rfl : j = i := by simpa [Event.pushReturn?] using hfail
    cases hprog with
    | ticketing hpc => simp [hidle] at hpc
    | publishing ticket hpc => simp [hidle] at hpc
  | @reject j ptr' retries ticket hpc hslot hretry =>
    obtain rfl : j = i := by simpa [Event.pushReturn?] using hfail
    cases hprog with
    | ticketing hpc' => simp [hpc] at hpc'
    | publishing ticket' hpc' hcount hle =>
      rw [hpc] at hpc'
      simp only [Producer.publishing.injEq] at hpc'
      have hall : collisions j es = pushRetryLimit := by omega
      refine ⟨by omega, fun hcap => ?_⟩
      obtain ⟨used, failed, hatt⟩ := run_failedAttempts hfresh hrun hcap
      obtain ⟨k, howner, hunused, htaken, -⟩ :=
        hatt.window.failed_attempt hcap hstep rfl rfl rfl hfresh
      have hnew : k ∉ failed := fun hk => hunused (hatt.tried hk)
      refine ⟨insert k failed, ?_, ?_⟩
      · rw [Finset.card_insert_of_notMem hnew, hatt.count, hall]
      · intro m hm
        rcases Finset.mem_insert.mp hm with rfl | hm
        · exact ⟨lt_tickets_of_owner howner, htaken⟩
        · exact ⟨hatt.window.issued m (hatt.tried hm), hatt.taken m hm⟩
  | _ => simp [Event.pushReturn?] at hfail

/-- On a full queue every attempt fails; a `push` that is alone makes all its
attempts and is about to make the last one. -/
theorem fullPush_run {s : System ι Ptr} {i : ι} {ptr : Ptr} {r : Nat} (n : Nat)
    (hpc : s.producer i = .ticketing ptr r) (hfull : ∀ index, s.queue.buffer index ≠ none)
    (hle : r + n = pushRetryLimit) :
    ∃ es t ticket, Run Step s es t ∧ tickets es = n + 1 ∧
      (∀ e ∈ es, ∀ b, e.pushReturn? ≠ some (i, b)) ∧ (∀ e ∈ es, e ≠ .popCall) ∧
      t.producer i = .publishing ptr pushRetryLimit ticket ∧
      ∀ index, t.queue.buffer index ≠ none := by
  induction n generalizing s r with
  | zero =>
    have hticket := (Transition.ticket hpc).step
    refine ⟨_, _, s.queue.ticket, .single hticket, rfl, ?_, by simp, ?_, hfull⟩
    · simp [Event.pushReturn?]
    · rw [System.setProducer_self, ← hle]
      rfl
  | succ n ih =>
    obtain ⟨s₁, hticket, hpc₁, hbuf₁⟩ : ∃ s₁, Step s (.ticket i s.queue.ticket) s₁ ∧
        s₁.producer i = .publishing ptr r s.queue.ticket ∧ s₁.queue.buffer = s.queue.buffer :=
      ⟨_, (Transition.ticket hpc).step, System.setProducer_self .., rfl⟩
    have hfull₁ : ∀ index, s₁.queue.buffer index ≠ none := by rwa [hbuf₁]
    obtain ⟨s₂, hcollide, hpc₂, hbuf₂⟩ : ∃ s₂,
        Step s₁ (.collide i (indexFromTicket s.queue.ticket)) s₂ ∧
        s₂.producer i = .ticketing ptr (r + 1) ∧ s₂.queue.buffer = s₁.queue.buffer :=
      ⟨_, (Transition.collide hpc₁ (hfull₁ _) (by omega)).step, System.setProducer_self .., rfl⟩
    have hfull₂ : ∀ index, s₂.queue.buffer index ≠ none := by rwa [hbuf₂]
    obtain ⟨es, t, ticket, hrun, htickets, hopen, hpop, hend, hkeep⟩ := ih hpc₂ hfull₂ (by omega)
    refine ⟨_, t, ticket, .cons hticket (.cons hcollide hrun), ?_, ?_, by simpa using hpop, hend,
      hkeep⟩
    · rw [tickets, List.countP_cons_of_pos rfl, List.countP_cons_of_neg (by simp [Event.isTicket]),
        ← tickets, htickets]
    · intro e he
      rcases List.mem_cons.mp he with rfl | he
      · simp [Event.pushReturn?]
      · rcases List.mem_cons.mp he with rfl | he
        · simp [Event.pushReturn?]
        · exact hopen e he

-- ---------------------------------------------------------------------------
-- Main result
-- ---------------------------------------------------------------------------

/-- The slot a producer holds a ticket for. -/
def heldSlot (s : System ι Ptr) (i : ι) : Option (BitVec 16) :=
  match s.producer i with
  | .publishing _ _ ticket => some (indexFromTicket ticket)
  | _ => none

omit [DecidableEq ι] in
theorem heldSlot_of_holds {s : System ι Ptr} {i : ι} {ticket : BitVec 16} (h : Holds s i ticket) :
    heldSlot s i = some (indexFromTicket ticket) := by
  obtain ⟨ptr, retries, hpc⟩ := h
  rw [heldSlot, hpc]

/-- Distinct taken slots are at most the occupied ones and one for each
producer other than `i`, if `i` holds no ticket. -/
theorem card_taken_le [Fintype ι] {s : System ι Ptr} {i : ι} {slots : Finset (BitVec 16)}
    (hfresh : ∀ ticket, ¬ Holds s i ticket) (htaken : ∀ index ∈ slots, Taken s index) :
    slots.card ≤ s.queue.occupied.card + (Fintype.card ι - 1) := by
  classical
  have hsub : slots.image some ⊆
      s.queue.occupied.image some ∪ (Finset.univ.erase i).image (heldSlot s) := by
    intro x hx
    obtain ⟨index, hindex, rfl⟩ := Finset.mem_image.mp hx
    rw [Finset.mem_union]
    rcases htaken index hindex with hslot | ⟨j, ticket, hold, rfl⟩
    · exact Or.inl (Finset.mem_image_of_mem some (BoundMPSC.mem_occupied.mpr hslot))
    · right
      have hne : j ≠ i := by
        rintro rfl
        exact hfresh ticket hold
      rw [← heldSlot_of_holds hold]
      exact Finset.mem_image_of_mem _ (Finset.mem_erase.mpr ⟨hne, Finset.mem_univ j⟩)
  calc slots.card
      = (slots.image some).card :=
        (Finset.card_image_of_injective _ (Option.some_injective _)).symm
    _ ≤ _ := Finset.card_le_card hsub
    _ ≤ (s.queue.occupied.image some).card + ((Finset.univ.erase i).image (heldSlot s)).card :=
        Finset.card_union_le _ _
    _ ≤ s.queue.occupied.card + (Finset.univ.erase i).card :=
        Nat.add_le_add Finset.card_image_le Finset.card_image_le
    _ = s.queue.occupied.card + (Fintype.card ι - 1) := by
        rw [Finset.card_erase_of_mem (Finset.mem_univ i), Finset.card_univ]

/-- With one producer every ticket is its own. -/
theorem ticketsOf_eq_tickets [Subsingleton ι] (i : ι) (es : List (Event ι Ptr)) :
    ticketsOf i es = tickets es := by
  rw [ticketsOf, ← length_owners, List.count_eq_length]
  intro j _
  exact Subsingleton.elim i j

/--
**A sparsely filled queue rejects nothing.** Consider a `push(ptr)` called in
any state, interleaved in any way with the other producers and the consumer,
that returns false.

* If at most `capacity` tickets were issued during the call, at least
  `pushRetryLimit + 1` slots were occupied when it was called, less one for
  each other producer.
* If there is no other producer, exactly the slots addressed by the next
  `pushRetryLimit + 1` tickets were all occupied when it was called, and these
  slots are pairwise distinct.
-/
theorem rejected_push_needs_occupied_slots [Fintype ι] {s₀ s t u : System ι Ptr}
    {es : List (Event ι Ptr)} {e : Event ι Ptr} {i : ι} {ptr : Ptr}
    (hcall : Step s₀ (.pushCall i ptr) s) (hrun : Run Step s es t)
    (hopen : ∀ e ∈ es, ∀ b, e.pushReturn? ≠ some (i, b)) (hstep : Step t e u)
    (hfail : e.pushReturn? = some (i, false)) :
    (tickets (es ++ [e]) ≤ capacity →
      pushRetryLimit + 1 - (Fintype.card ι - 1) ≤ s₀.queue.occupied.card) ∧
    (Fintype.card ι = 1 →
      ∀ k < pushRetryLimit + 1, s₀.queue.buffer (s₀.queue.ticketSlot k) ≠ none) ∧
    Set.InjOn s₀.queue.ticketSlot (Set.Iio (pushRetryLimit + 1)) := by
  have hlimit : pushRetryLimit + 1 ≤ capacity := by unfold pushRetryLimit capacity; omega
  have hmono : tickets es ≤ tickets (es ++ [e]) :=
    List.Sublist.countP_le (List.sublist_append_left es [e])
  -- the call changes nothing but the caller
  have hpc := hcall.producer_of_pushCall
  have hqueue : s.queue = s₀.queue := by
    rw [hcall.eq_of_pushCall]
    rfl
  have hfresh : ∀ ticket, ¬ Holds s i ticket := by
    rintro ticket ⟨ptr', retries, hpc'⟩
    simp [hpc] at hpc'
  obtain ⟨hown, hslots⟩ := rejected_push_slots hpc hrun hopen hstep hfail
  rw [← hqueue]
  refine ⟨?_, ?_, ?_⟩
  · intro hcap
    obtain ⟨failed, hcard, hfailed⟩ := hslots (by omega)
    have hinj : Set.InjOn s.queue.ticketSlot failed := by
      intro j hj k hk hjk
      have hjlt := (hfailed j hj).1
      have hklt := (hfailed k hk).1
      exact BoundMPSC.ticketSlot_injOn (by omega) (by omega) hjk
    have htaken : ∀ index ∈ failed.image s.queue.ticketSlot, Taken s index := by
      intro index hindex
      obtain ⟨k, hk, rfl⟩ := Finset.mem_image.mp hindex
      exact (hfailed k hk).2
    have hle := card_taken_le hfresh htaken
    rw [Finset.card_image_of_injOn hinj, hcard] at hle
    omega
  · intro hone k hk
    have hsub : Subsingleton ι := Fintype.card_le_one_iff_subsingleton.mp (by omega)
    rw [ticketsOf_eq_tickets] at hown
    obtain ⟨failed, hcard, hfailed⟩ := hslots (by omega)
    -- the call's tickets are all the tickets there are
    have hall : failed = Finset.range (pushRetryLimit + 1) := by
      apply Finset.eq_of_subset_of_card_le
      · intro m hm
        have := (hfailed m hm).1
        rw [Finset.mem_range]
        omega
      · rw [Finset.card_range, hcard]
    rcases (hfailed k (hall ▸ Finset.mem_range.mpr hk)).2 with hslot | ⟨j, ticket, hold, -⟩
    · exact hslot
    · exact absurd hold (Subsingleton.elim i j ▸ hfresh ticket)
  · intro j hj k hk hjk
    rw [Set.mem_Iio] at hj hk
    exact BoundMPSC.ticketSlot_injOn (by omega) (by omega) hjk

/-- The only producer pushes to a full queue: all slots were occupied, in
particular the ones its tickets address. -/
theorem rejected_push_needs_occupied_slots_full :
    ∃ (s₀ s t u : System (Fin 1) Nat) (es : List (Event (Fin 1) Nat)) (e : Event (Fin 1) Nat),
      Step s₀ (.pushCall 0 7) s ∧ Run Step s es t ∧ Step t e u ∧
      e.pushReturn? = some (0, false) ∧ tickets (es ++ [e]) ≤ capacity ∧
      pushRetryLimit + 1 ≤ s₀.queue.occupied.card ∧
      ∀ k < pushRetryLimit + 1, s₀.queue.buffer (s₀.queue.ticketSlot k) ≠ none := by
  let s₀ : System (Fin 1) Nat := ⟨⟨0, 0, fun _ => some 9⟩, fun _ => .idle, .idle, none⟩
  obtain ⟨s, hcall, hpc₀, hbuf⟩ : ∃ s, Step s₀ (.pushCall 0 7) s ∧
      s.producer 0 = .ticketing 7 0 ∧ s.queue.buffer = fun _ => some 9 :=
    ⟨_, (Transition.pushCall rfl).step, System.setProducer_self .., rfl⟩
  have hfull : ∀ index, s.queue.buffer index ≠ none := by simp [hbuf]
  obtain ⟨es, t, ticket, hrun, htickets, hopen, -, hpc, hkeep⟩ :=
    fullPush_run pushRetryLimit hpc₀ hfull (Nat.zero_add _)
  have hreject := (Transition.reject hpc (hkeep _) le_rfl).step
  obtain ⟨hmany, hsolo, -⟩ :=
    rejected_push_needs_occupied_slots hcall hrun hopen hreject rfl
  have hcount : tickets (es ++ [.reject 0 (indexFromTicket ticket)]) = pushRetryLimit + 1 := by
    rw [tickets, List.countP_append, ← tickets, htickets]
    rfl
  have hcap : tickets (es ++ [.reject 0 (indexFromTicket ticket)]) ≤ capacity := by
    rw [hcount]
    decide
  exact ⟨_, _, t, _, es, _, hcall, hrun, hreject, rfl, hcap, hmany hcap, hsolo (by simp)⟩

end Destiny.Replay
