import Mathlib.Data.Finset.Card
import Destiny.Replay.Effects

/-!
# BoundMPSC — the tickets issued since a given moment

Fix a state `s` and number the tickets issued after it `0, 1, 2, …`. As long
as at most `capacity` of them have been issued they address pairwise distinct
slots, so a slot can be found occupied for only three reasons: it already held
a pointer in `s`, a producer that was stalled in `s` has an older ticket for
it (`Taken`), or the one ticket numbered for it has been used.

* `TicketWindow`     — the bookkeeping of this, as an invariant of the run.
* `step_window` / `run_window` — every step keeps it, every run has it.
* `TicketWindow.taken_of_occupied` — an unused ticket that finds its slot
  occupied had the slot taken in `s` already.
* `PushProgress`     — where a `push` in progress stands.
-/

namespace Destiny.Replay

open Foundation

variable {ι Ptr : Type*}

-- ---------------------------------------------------------------------------
-- Numbering the tickets
-- ---------------------------------------------------------------------------

/-- The producer a ticket is issued to. -/
def Event.ticketOwner? : Event ι Ptr → Option ι
  | .ticket i _ => some i
  | _ => none

/-- Does a producer try the slot of its ticket in this event? -/
def Event.isAttempt : Event ι Ptr → Bool
  | .publish _ _ _ | .collide _ _ | .reject _ _ => true
  | _ => false

theorem Event.producer_of_attempt {e : Event ι Ptr} (h : e.isAttempt = true) :
    ∃ i, e.producer? = some i := by
  cases e with
  | publish i | collide i | reject i => exact ⟨i, rfl⟩
  | _ => simp [Event.isAttempt] at h

theorem Event.not_ticket_of_attempt {e : Event ι Ptr} (h : e.isAttempt = true) :
    e.isTicket = false := by
  cases e with
  | ticket => simp [Event.isAttempt] at h
  | _ => rfl

/-- The owners of the tickets issued in a run, in order. -/
def owners (es : List (Event ι Ptr)) : List ι := es.filterMap Event.ticketOwner?

theorem length_owners (es : List (Event ι Ptr)) : (owners es).length = tickets es := by
  rw [owners, List.length_filterMap_eq_countP, tickets]
  apply List.countP_congr
  intro e _
  cases e <;> simp [Event.ticketOwner?, Event.isTicket]

theorem owners_snoc_ticket (es : List (Event ι Ptr)) (i : ι) (ticket : BitVec 16) :
    owners (es ++ [.ticket i ticket]) = owners es ++ [i] := by
  simp [owners, Event.ticketOwner?]

theorem owners_snoc_other {es : List (Event ι Ptr)} {e : Event ι Ptr} (h : e.isTicket = false) :
    owners (es ++ [e]) = owners es := by
  cases e <;> simp_all [owners, Event.ticketOwner?, Event.isTicket]

theorem lt_tickets_of_owner {es : List (Event ι Ptr)} {k : Nat} {i : ι}
    (h : (owners es)[k]? = some i) : k < tickets es := by
  rw [← length_owners]
  exact (List.getElem?_eq_some_iff.mp h).1

-- ---------------------------------------------------------------------------
-- The window
-- ---------------------------------------------------------------------------

/-- A producer holds `ticket` and has not tried its slot yet. -/
def Holds (s : System ι Ptr) (i : ι) (ticket : BitVec 16) : Prop :=
  ∃ ptr retries, s.producer i = .publishing ptr retries ticket

/-- The slot holds a pointer, or some producer holds a ticket for it. -/
def Taken (s : System ι Ptr) (index : BitVec 16) : Prop :=
  s.queue.buffer index ≠ none ∨ ∃ i ticket, Holds s i ticket ∧ indexFromTicket ticket = index

/-- The state `t` after the events `es` from `s`, when the tickets with the
numbers `used` have been tried. -/
structure TicketWindow (s : System ι Ptr) (es : List (Event ι Ptr)) (t : System ι Ptr)
    (used : Finset Nat) : Prop where
  counter : t.queue.ticket = lap s.queue.ticket (tickets es)
  issued  : ∀ k ∈ used, k < tickets es
  held    : ∀ i ticket, Holds t i ticket → Holds s i ticket ∨
              ∃ k, (owners es)[k]? = some i ∧ k ∉ used ∧ ticket = lap s.queue.ticket k
  slots   : ∀ index, t.queue.buffer index ≠ none → Taken s index ∨
              ∃ k ∈ used, s.queue.ticketSlot k = index

theorem TicketWindow.refl (s : System ι Ptr) : TicketWindow s [] s ∅ where
  counter := by simp [tickets]
  issued := by simp
  held := fun _ _ h => Or.inl h
  slots := fun _ h => Or.inl (Or.inl h)

/-- An unused ticket that finds its slot occupied, while at most `capacity`
tickets have been issued: the slot was taken when the window was opened. -/
theorem TicketWindow.taken_of_occupied {s t : System ι Ptr} {es : List (Event ι Ptr)}
    {used : Finset Nat} (hwin : TicketWindow s es t used) (hcap : tickets es ≤ capacity)
    {k : Nat} (hk : k < tickets es) (hunused : k ∉ used)
    (hslot : t.queue.buffer (s.queue.ticketSlot k) ≠ none) : Taken s (s.queue.ticketSlot k) := by
  rcases hwin.slots _ hslot with htaken | ⟨j, hj, hsame⟩
  · exact htaken
  · -- two tickets of one lap never address the same slot
    have hjlt := hwin.issued j hj
    have heq : j = k := BoundMPSC.ticketSlot_injOn (by omega) (by omega) hsame
    exact absurd (heq ▸ hj) hunused

variable [DecidableEq ι]

/-- Producer `i` tries its ticket: either an old one, or one with a number of
the window, which is then used. -/
theorem TicketWindow.close {s t u : System ι Ptr} {es : List (Event ι Ptr)} {used : Finset Nat}
    {e : Event ι Ptr} {i : ι} {ticket : BitVec 16}
    (hwin : TicketWindow s es t used) (hstep : Step t e u) (hticket : e.isTicket = false)
    (hby : e.producer? = some i) (hold : Holds t i ticket) (hleft : ∀ x, ¬ Holds u i x)
    (hbuf : ∀ x, u.queue.buffer x ≠ none →
      t.queue.buffer x ≠ none ∨ indexFromTicket ticket = x) :
    (Holds s i ticket ∧ TicketWindow s (es ++ [e]) u used) ∨
      ∃ k, (owners es)[k]? = some i ∧ k ∉ used ∧ ticket = lap s.queue.ticket k ∧
        TicketWindow s (es ++ [e]) u (insert k used) := by
  have htickets : tickets (es ++ [e]) = tickets es := by
    rw [← length_owners, owners_snoc_other hticket, length_owners]
  have hcounter : u.queue.ticket = lap s.queue.ticket (tickets (es ++ [e])) := by
    rw [step_ticket hstep, hwin.counter, htickets, hticket]
    simp
  -- the other producers hold what they held
  have hothers : ∀ j x, Holds u j x → j ≠ i ∧ Holds t j x := by
    intro j x hj
    have hne : j ≠ i := by
      rintro rfl
      exact hleft x hj
    have hframe : u.producer j = t.producer j := by
      apply step_producer_frame hstep
      rw [hby]
      exact fun heq => hne (Option.some.inj heq).symm
    unfold Holds at hj
    rw [hframe] at hj
    exact ⟨hne, hj⟩
  rcases hwin.held i ticket hold with hstale | ⟨k, howner, hunused, hvalue⟩
  · refine Or.inl ⟨hstale, hcounter, ?_, ?_, ?_⟩
    · rw [htickets]
      exact hwin.issued
    · intro j x hj
      rw [owners_snoc_other hticket]
      exact hwin.held j x (hothers j x hj).2
    · intro x hx
      rcases hbuf x hx with hx | hx
      · exact hwin.slots x hx
      · exact Or.inl (Or.inr ⟨i, ticket, hstale, hx⟩)
  · refine Or.inr ⟨k, howner, hunused, hvalue, hcounter, ?_, ?_, ?_⟩
    · intro j hj
      rw [htickets]
      rcases Finset.mem_insert.mp hj with rfl | hj
      · exact lt_tickets_of_owner howner
      · exact hwin.issued j hj
    · intro j x hj
      obtain ⟨hne, hj⟩ := hothers j x hj
      rw [owners_snoc_other hticket]
      rcases hwin.held j x hj with hstale | ⟨m, hm, hmunused, hx⟩
      · exact Or.inl hstale
      · -- ticket `m` belongs to `j`, so it is not the one used now
        refine Or.inr ⟨m, hm, ?_, hx⟩
        rw [Finset.mem_insert]
        rintro (rfl | hmem)
        · exact hne (Option.some.inj (hm.symm.trans howner))
        · exact hmunused hmem
    · intro x hx
      rcases hbuf x hx with hx | hx
      · rcases hwin.slots x hx with htaken | ⟨m, hm, hslot⟩
        · exact Or.inl htaken
        · exact Or.inr ⟨m, Finset.mem_insert_of_mem hm, hslot⟩
      · refine Or.inr ⟨k, Finset.mem_insert_self .., ?_⟩
        rw [BoundMPSC.ticketSlot, ← hvalue, hx]

/-- What an attempt does: it uses the ticket in the producer's hands, and an
occupied slot after it was occupied before or is the ticket's slot. -/
theorem step_attempt {s t : System ι Ptr} {e : Event ι Ptr} {i : ι} (h : Step s e t)
    (hby : e.producer? = some i) (hattempt : e.isAttempt = true) :
    ∃ ticket, Holds s i ticket ∧ (∀ x, ¬ Holds t i x) ∧
      (∀ x, t.queue.buffer x ≠ none → s.queue.buffer x ≠ none ∨ indexFromTicket ticket = x) ∧
      (e.isPublish = false → s.queue.buffer (indexFromTicket ticket) ≠ none) := by
  cases h.transition with
  | @publish j ptr retries ticket hpc hslot =>
    obtain rfl : j = i := by simpa [Event.producer?] using hby
    refine ⟨ticket, ⟨ptr, retries, hpc⟩, ?_, ?_, ?_⟩
    · rintro x ⟨ptr', retries', hx⟩
      simp at hx
    · intro x hx
      by_cases heq : indexFromTicket ticket = x
      · exact Or.inr heq
      · left
        rwa [← Function.update_of_ne (fun h => heq h.symm) (some ptr) s.queue.buffer]
    · simp [Event.isPublish]
  | @collide j ptr retries ticket hpc hslot =>
    obtain rfl : j = i := by simpa [Event.producer?] using hby
    refine ⟨ticket, ⟨ptr, retries, hpc⟩, ?_, fun x hx => Or.inl hx, fun _ => hslot⟩
    rintro x ⟨ptr', retries', hx⟩
    simp at hx
  | @reject j ptr retries ticket hpc hslot =>
    obtain rfl : j = i := by simpa [Event.producer?] using hby
    refine ⟨ticket, ⟨ptr, retries, hpc⟩, ?_, fun x hx => Or.inl hx, fun _ => hslot⟩
    rintro x ⟨ptr', retries', hx⟩
    simp at hx
  | _ => simp [Event.isAttempt] at hattempt

/-- A step that is not an attempt fills no slot, and the only ticket it can
hand out is the next one. -/
theorem step_other {s t : System ι Ptr} {e : Event ι Ptr} (h : Step s e t)
    (hattempt : e.isAttempt = false) :
    (∀ x, t.queue.buffer x ≠ none → s.queue.buffer x ≠ none) ∧
    ∀ j x, Holds t j x → Holds s j x ∨ (e = .ticket j x ∧ x = s.queue.ticket) := by
  cases h.transition with
  | publish | collide | reject => simp [Event.isAttempt] at hattempt
  | @pushCall i ptr hidle =>
    refine ⟨fun x hx => hx, ?_⟩
    rintro j x ⟨ptr', retries', hx⟩
    by_cases hji : j = i
    · subst hji
      simp at hx
    · rw [System.setProducer_of_ne _ _ hji] at hx
      exact Or.inl ⟨ptr', retries', hx⟩
  | @ticket i ptr retries hpc =>
    refine ⟨fun x hx => hx, ?_⟩
    rintro j x ⟨ptr', retries', hx⟩
    by_cases hji : j = i
    · subst hji
      simp only [System.setProducer_self, Producer.publishing.injEq] at hx
      rw [← hx.2.2]
      exact Or.inr ⟨rfl, rfl⟩
    · rw [System.setProducer_of_ne _ _ hji] at hx
      exact Or.inl ⟨ptr', retries', hx⟩
  | @deliver index hpc =>
    refine ⟨?_, fun j x hx => Or.inl hx⟩
    intro x hx
    by_cases heq : x = index
    · subst heq
      simp [BoundMPSC.storeNull] at hx
    · have hkeep : (s.queue.storeNull index).buffer x = s.queue.buffer x :=
        Function.update_of_ne heq ..
      exact hkeep ▸ hx
  | pushNull | popCall | miss | popEmpty | load =>
    exact ⟨fun x hx => hx, fun j x hx => Or.inl hx⟩

/-- A step that is not an attempt uses no ticket; if it issues one, that gets
the next number. -/
theorem TicketWindow.keep {s t u : System ι Ptr} {es : List (Event ι Ptr)} {used : Finset Nat}
    {e : Event ι Ptr} (hwin : TicketWindow s es t used) (hstep : Step t e u)
    (hattempt : e.isAttempt = false) : TicketWindow s (es ++ [e]) u used := by
  obtain ⟨hbuf, hheld⟩ := step_other hstep hattempt
  have hcount : tickets (es ++ [e]) = tickets es + if e.isTicket then 1 else 0 := by
    simp [tickets, List.countP_append, List.countP_singleton]
  -- the owners so far keep their numbers
  have hkeep : ∀ (k : Nat) (j : ι), (owners es)[k]? = some j →
      (owners (es ++ [e]))[k]? = some j := by
    intro k j hk
    have hlt : k < (owners es).length := (List.getElem?_eq_some_iff.mp hk).1
    rw [owners, List.filterMap_append, ← owners, List.getElem?_append_left hlt]
    exact hk
  refine ⟨?_, ?_, ?_, ?_⟩
  · rw [step_ticket hstep, hwin.counter, lap_lap, hcount]
  · intro k hk
    have := hwin.issued k hk
    omega
  · intro j x hj
    rcases hheld j x hj with hj | ⟨rfl, hx⟩
    · rcases hwin.held j x hj with hstale | ⟨k, hk, hunused, hvalue⟩
      · exact Or.inl hstale
      · exact Or.inr ⟨k, hkeep k j hk, hunused, hvalue⟩
    · refine Or.inr ⟨tickets es, ?_, ?_, ?_⟩
      · rw [owners_snoc_ticket, ← length_owners, List.getElem?_concat_length]
      · intro hmem
        exact absurd (hwin.issued _ hmem) (lt_irrefl _)
      · rw [hx, hwin.counter]
  · intro x hx
    exact hwin.slots x (hbuf x hx)

theorem step_window {s t u : System ι Ptr} {es : List (Event ι Ptr)} {used : Finset Nat}
    {e : Event ι Ptr} (hwin : TicketWindow s es t used) (hstep : Step t e u) :
    ∃ used', used ⊆ used' ∧ TicketWindow s (es ++ [e]) u used' := by
  by_cases hattempt : e.isAttempt = true
  · obtain ⟨i, hby⟩ := Event.producer_of_attempt hattempt
    have hticket := Event.not_ticket_of_attempt hattempt
    obtain ⟨ticket, hold, hleft, hbuf, -⟩ := step_attempt hstep hby hattempt
    rcases hwin.close hstep hticket hby hold hleft hbuf with ⟨-, hnew⟩ | ⟨k, -, -, -, hnew⟩
    · exact ⟨used, subset_rfl, hnew⟩
    · exact ⟨insert k used, Finset.subset_insert k used, hnew⟩
  · rw [Bool.not_eq_true] at hattempt
    exact ⟨used, subset_rfl, hwin.keep hstep hattempt⟩

/-- **The window of a run.** -/
theorem run_window {s t : System ι Ptr} {es : List (Event ι Ptr)} (h : Run Step s es t) :
    ∃ used, TicketWindow s es t used := by
  refine h.trace_invariant (P := fun es t => ∃ used, TicketWindow s es t used) ?_ ?_
  · exact ⟨∅, .refl s⟩
  · rintro es t e u _ ⟨used, hwin⟩ hstep
    obtain ⟨used', -, hnew⟩ := step_window hwin hstep
    exact ⟨used', hnew⟩

/-- **A failed attempt has a reason.** While at most `capacity` tickets have
been issued since `s`, an attempt with a ticket of the window that fails finds
a slot that was taken in `s`. -/
theorem TicketWindow.failed_attempt {s t u : System ι Ptr} {es : List (Event ι Ptr)}
    {used : Finset Nat} {e : Event ι Ptr} {i : ι} (hwin : TicketWindow s es t used)
    (hcap : tickets es ≤ capacity) (hstep : Step t e u) (hby : e.producer? = some i)
    (hattempt : e.isAttempt = true) (hfail : e.isPublish = false)
    (hfresh : ∀ ticket, ¬ Holds s i ticket) :
    ∃ k, (owners es)[k]? = some i ∧ k ∉ used ∧ Taken s (s.queue.ticketSlot k) ∧
      TicketWindow s (es ++ [e]) u (insert k used) := by
  have hticket := Event.not_ticket_of_attempt hattempt
  obtain ⟨ticket, hold, hleft, hbuf, hslot⟩ := step_attempt hstep hby hattempt
  rcases hwin.close hstep hticket hby hold hleft hbuf with
    ⟨hstale, -⟩ | ⟨k, howner, hunused, hvalue, hnew⟩
  · exact absurd hstale (hfresh ticket)
  · refine ⟨k, howner, hunused, ?_, hnew⟩
    apply hwin.taken_of_occupied hcap (lt_tickets_of_owner howner) hunused
    rw [BoundMPSC.ticketSlot, ← hvalue]
    exact hslot hfail

end Destiny.Replay
