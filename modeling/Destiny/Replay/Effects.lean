import Destiny.Replay.System

/-!
# BoundMPSC — what a step changes

Every event determines what its step did to the shared data; nothing else
moves. The results about runs are proved from these facts and never look at
the step function again.

* `step_buffer` — `publish` fills its slot, `deliver` clears its slot, every
  other event leaves the slots alone;
* `run_ticket` / `run_head` — the counters advance by the tickets issued and
  the slots loaded;
* `step_producer_frame` — a producer moves by its own events only;
* `ConsumerInv` — a loaded slot keeps its pointer until the consumer clears it.
-/

namespace Destiny.Replay

open Foundation

variable {ι Ptr : Type*} [DecidableEq ι]

/-! ## Events by kind -/

namespace Event

/-- The producer whose call or access this is. -/
def producer? : Event ι Ptr → Option ι
  | .pushCall i _ | .pushNull i | .ticket i _ | .publish i _ _ | .collide i _ | .reject i _ => some i
  | _ => none

/-- Does this event issue a ticket? -/
def isTicket : Event ι Ptr → Bool
  | .ticket _ _ => true
  | _ => false

/-- Does this event load a slot? -/
def isLoad (e : Event ι Ptr) : Bool := e.load?.isSome

/-- Does this event publish a pointer? -/
def isPublish : Event ι Ptr → Bool
  | .publish _ _ _ => true
  | _ => false

/-- Does this event deliver a pointer? -/
def isDeliver : Event ι Ptr → Bool
  | .deliver _ _ => true
  | _ => false

/-- What the event does to the slots. -/
def onBuffer (e : Event ι Ptr) (buffer : BitVec 16 → Option Ptr) : BitVec 16 → Option Ptr :=
  match e with
  | .publish _ index ptr => Function.update buffer index (some ptr)
  | .deliver index _ => Function.update buffer index none
  | _ => buffer

end Event

/-- The tickets issued in a run. -/
def tickets (es : List (Event ι Ptr)) : Nat := es.countP Event.isTicket

/-- The slots loaded in a run. -/
def loads (es : List (Event ι Ptr)) : Nat := es.countP Event.isLoad

/-- The pointers published in a run. -/
def publishes (es : List (Event ι Ptr)) : Nat := es.countP Event.isPublish

/-- The pointers delivered in a run. -/
def delivers (es : List (Event ι Ptr)) : Nat := es.countP Event.isDeliver

/-! ## The slots -/

theorem step_buffer {s t : System ι Ptr} {e : Event ι Ptr} (h : Step s e t) :
    t.queue.buffer = e.onBuffer s.queue.buffer := by
  cases h.transition <;> rfl

/-- Only an empty slot is published to. -/
theorem step_publish_null {s t : System ι Ptr} {i : ι} {index : BitVec 16} {ptr : Ptr}
    (h : Step s (.publish i index ptr) t) : s.queue.buffer index = none := by
  cases h.transition with
  | publish _ hslot => exact hslot

/-- An occupied slot stays as it is unless this step delivers it. -/
theorem step_buffer_keep {s t : System ι Ptr} {e : Event ι Ptr} {index : BitVec 16} {ptr : Ptr}
    (h : Step s e t) (hslot : s.queue.buffer index = some ptr)
    (hkeep : ∀ out, e ≠ .deliver index out) : t.queue.buffer index = some ptr := by
  rw [step_buffer h]
  cases e with
  | publish i index' ptr' =>
    have hnull := step_publish_null h
    have hne : index ≠ index' := by
      rintro rfl
      rw [hslot] at hnull
      simp at hnull
    rw [Event.onBuffer, Function.update_of_ne hne, hslot]
  | deliver index' out =>
    have hne : index ≠ index' := by
      rintro rfl
      exact hkeep out rfl
    rw [Event.onBuffer, Function.update_of_ne hne, hslot]
  | _ => exact hslot

/-- A slot that is empty after a step which clears nothing was empty before. -/
theorem step_buffer_null_back {s t : System ι Ptr} {e : Event ι Ptr} {index : BitVec 16}
    (h : Step s e t) (hslot : t.queue.buffer index = none) (hkeep : ∀ out, e ≠ .deliver index out) :
    s.queue.buffer index = none := by
  by_contra hne
  obtain ⟨ptr, hptr⟩ := Option.ne_none_iff_exists'.mp hne
  rw [step_buffer_keep h hptr hkeep] at hslot
  simp at hslot

/-! ## The counters -/

theorem step_ticket {s t : System ι Ptr} {e : Event ι Ptr} (h : Step s e t) :
    t.queue.ticket = lap s.queue.ticket (if e.isTicket then 1 else 0) := by
  cases h.transition <;> simp [Event.isTicket, System.setProducer, BoundMPSC.storeNull, lap]

theorem step_head {s t : System ι Ptr} {e : Event ι Ptr} (h : Step s e t) :
    t.queue.head = lap s.queue.head (if e.isLoad then 1 else 0) := by
  cases h.transition <;>
    simp [Event.isLoad, Event.load?, System.setProducer, BoundMPSC.storeNull, lap]

/-- After a run the ticket counter has advanced by the tickets issued. -/
theorem run_ticket {s t : System ι Ptr} {es : List (Event ι Ptr)} (h : Run Step s es t) :
    t.queue.ticket = lap s.queue.ticket (tickets es) := by
  induction h with
  | nil => simp [tickets]
  | cons hstep _ ih =>
    rw [ih, step_ticket hstep, lap_lap, tickets, tickets, List.countP_cons, Nat.add_comm]

/-- After a run the cursor has advanced by the slots loaded. -/
theorem run_head {s t : System ι Ptr} {es : List (Event ι Ptr)} (h : Run Step s es t) :
    t.queue.head = lap s.queue.head (loads es) := by
  induction h with
  | nil => simp [loads]
  | cons hstep _ ih =>
    rw [ih, step_head hstep, lap_lap, loads, loads, List.countP_cons, Nat.add_comm]

/-! ## The threads -/

/-- A producer moves by its own events only. -/
theorem step_producer_frame {s t : System ι Ptr} {e : Event ι Ptr} {i : ι}
    (h : Step s e t) (hi : e.producer? ≠ some i) : t.producer i = s.producer i := by
  cases h.transition with
  | pushNull | popCall | miss | popEmpty | load | deliver => rfl
  | pushCall | ticket | publish | collide | reject =>
    simp only [Event.producer?, ne_eq, Option.some.injEq] at hi
    exact Function.update_of_ne (fun hij => hi hij.symm) _ _

theorem setProducer_comm (s : System ι Ptr) {i j : ι} (p q : Producer Ptr) (queue : BoundMPSC Ptr)
    (h : j ≠ i) : { s.setProducer i p with queue }.setProducer j q =
      ({ s with queue }.setProducer j q).setProducer i p := by
  simp only [System.setProducer, Function.update_comm h]

/-- A producer that does not move can stand anywhere. -/
theorem step_setProducer {s t : System ι Ptr} {e : Event ι Ptr} {i : ι} (p : Producer Ptr)
    (h : Step s e t) (hi : e.producer? ≠ some i) :
    Step (s.setProducer i p) e (t.setProducer i p) := by
  have hother : ∀ {j : ι}, some j ≠ some i → (s.setProducer i p).producer j = s.producer j :=
    fun hj => System.setProducer_of_ne s p fun heq => hj (congrArg some heq)
  have hne : ∀ {j : ι}, some j ≠ some i → j ≠ i := fun hj heq => hj (congrArg some heq)
  cases h.transition with
  | pushCall hidle =>
    rw [← setProducer_comm s p _ s.queue (hne hi)]
    exact (Transition.pushCall ((hother hi).trans hidle)).step
  | pushNull hidle => exact (Transition.pushNull ((hother hi).trans hidle)).step
  | ticket hpc =>
    rw [← setProducer_comm s p _ _ (hne hi)]
    exact (Transition.ticket (s := s.setProducer i p) ((hother hi).trans hpc)).step
  | publish hpc hslot =>
    rw [← setProducer_comm s p _ _ (hne hi)]
    exact (Transition.publish (s := s.setProducer i p) ((hother hi).trans hpc) hslot).step
  | collide hpc hslot hretry =>
    rw [← setProducer_comm s p _ s.queue (hne hi)]
    exact (Transition.collide ((hother hi).trans hpc) hslot hretry).step
  | reject hpc hslot hretry =>
    rw [← setProducer_comm s p _ s.queue (hne hi)]
    exact (Transition.reject ((hother hi).trans hpc) hslot hretry).step
  | popCall hidle => exact (Transition.popCall (s := s.setProducer i p) hidle).step
  | miss hpc hslot hretry =>
    exact (Transition.miss (s := s.setProducer i p) hpc hslot hretry).step
  | popEmpty hpc hslot hretry =>
    exact (Transition.popEmpty (s := s.setProducer i p) hpc hslot hretry).step
  | load hpc hslot => exact (Transition.load (s := s.setProducer i p) hpc hslot).step
  | deliver hpc => exact (Transition.deliver (s := s.setProducer i p) hpc).step

/-- What the others do, they also do while producer `i` is paused anywhere. -/
theorem run_setProducer {s t : System ι Ptr} {es : List (Event ι Ptr)} {i : ι} (p : Producer Ptr)
    (h : Run Step s es t) (hi : ∀ e ∈ es, e.producer? ≠ some i) :
    Run Step (s.setProducer i p) es (t.setProducer i p) := by
  induction h with
  | nil => exact .nil _
  | cons hstep _ ih =>
    exact .cons (step_setProducer p hstep (hi _ (List.mem_cons_self ..)))
      (ih fun e he => hi e (List.mem_cons_of_mem _ he))

/-- Producer `i` is inside a `push(ptr)` that has not returned. -/
def InPush (s : System ι Ptr) (i : ι) (ptr : Ptr) : Prop :=
  (∃ retries, s.producer i = .ticketing ptr retries) ∨
    ∃ retries ticket, s.producer i = .publishing ptr retries ticket

/-- A call that does not return in a step is still in progress after it. -/
theorem step_inPush {s t : System ι Ptr} {e : Event ι Ptr} {i : ι} {ptr : Ptr}
    (h : Step s e t) (hpush : InPush s i ptr) (hret : ∀ b, e.pushReturn? ≠ some (i, b)) :
    InPush t i ptr := by
  by_cases hi : e.producer? = some i
  · cases h.transition <;>
      simp_all [InPush, Event.producer?, Event.pushReturn?, System.setProducer]
  · unfold InPush
    rw [step_producer_frame h hi]
    exact hpush

theorem run_inPush {s t : System ι Ptr} {es : List (Event ι Ptr)} {i : ι} {ptr : Ptr}
    (h : Run Step s es t) (hpush : InPush s i ptr)
    (hret : ∀ e ∈ es, ∀ b, e.pushReturn? ≠ some (i, b)) : InPush t i ptr := by
  induction h with
  | nil => exact hpush
  | cons hstep _ ih =>
    exact ih (step_inPush hstep hpush (hret _ (List.mem_cons_self ..)))
      fun e he => hret e (List.mem_cons_of_mem _ he)

/-! ## The consumer between load and store -/

/-- What holds while the consumer is about to clear a slot: the slot still has
the pointer it loaded, and the cursor is one past it. -/
structure ConsumerInv (s : System ι Ptr) : Prop where
  out  : ∀ index, s.consumer = .clearing index → s.out ≠ none
  held : ∀ index, s.consumer = .clearing index → s.queue.buffer index = s.out
  head : ∀ index, s.consumer = .clearing index → s.queue.head = index + 1

omit [DecidableEq ι] in
theorem consumerInv_init : ConsumerInv (System.init : System ι Ptr) := by
  constructor <;> intro index h <;> simp [System.init] at h

/-- No step of anybody breaks the consumer's invariant: producers store to
empty slots only, and the slot being cleared is not empty. -/
theorem step_consumerInv {s t : System ι Ptr} {e : Event ι Ptr}
    (hinv : ConsumerInv s) (h : Step s e t) : ConsumerInv t := by
  cases h.transition with
  | pushCall | pushNull | ticket | collide | reject => exact ⟨hinv.out, hinv.held, hinv.head⟩
  | @publish i ptr retries ticket hpc hslot =>
    refine ⟨hinv.out, fun index hclear => ?_, hinv.head⟩
    have hheld := hinv.held index hclear
    have hne : index ≠ indexFromTicket ticket := by
      rintro rfl
      exact hinv.out _ hclear (hheld.symm.trans hslot)
    show Function.update s.queue.buffer (indexFromTicket ticket) (some ptr) index = s.out
    rw [Function.update_of_ne hne, hheld]
  | load hpc hslot =>
    constructor <;> intro index hclear <;> cases hclear
    · simp
    · exact hslot
    · rfl
  | popCall | miss | popEmpty | deliver =>
    constructor <;> intro index hclear <;> simp at hclear

theorem reachable_consumerInv {s : System ι Ptr} (h : Reachable Step .init s) : ConsumerInv s := by
  obtain ⟨es, hrun⟩ := h
  exact hrun.invariant (fun _ _ _ hinv hstep => step_consumerInv hinv hstep) consumerInv_init

end Destiny.Replay
