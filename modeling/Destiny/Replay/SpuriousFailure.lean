import Destiny.Replay.MemoryOrder
import Destiny.Replay.ScanOrder

/-!
# BoundMPSC — what the memory orders cost

A thread that reads a stale write sees less than it could. With the memory orders
of the source that is all that happens: the queue behaves like one whose accesses
are indivisible, but whose slot loads may miss a pointer that is there and whose
`compare_exchange` may fail without a reason.

* `SpuriousStep` — the steps of that queue.
* `Matches`      — what its states and those of `WeakSystem` have in common; both
  simulations go by this relation.
* `memory_orders_between`, `weak_slot_is_channel` — the results.
-/

namespace Destiny.Replay

open Foundation

variable {ι Ptr : Type} [DecidableEq ι]

-- ---------------------------------------------------------------------------
-- Accesses that fail without a reason
-- ---------------------------------------------------------------------------

/-- The steps of `System`, and the failures of an access whatever the slot holds. -/
inductive SpuriousStep : System ι Ptr → Event ι Ptr → System ι Ptr → Prop
  | exact {s t : System ι Ptr} {e : Event ι Ptr} (h : Step s e t) : SpuriousStep s e t
  | collide {s : System ι Ptr} {i : ι} {ptr : Ptr} {retries : Nat} {ticket : BitVec 16}
      (hpc : s.producer i = .publishing ptr retries ticket) (hretry : retries < pushRetryLimit) :
      SpuriousStep s (.collide i (indexFromTicket ticket))
        (s.setProducer i (.ticketing ptr (retries + 1)))
  | reject {s : System ι Ptr} {i : ι} {ptr : Ptr} {retries : Nat} {ticket : BitVec 16}
      (hpc : s.producer i = .publishing ptr retries ticket) (hretry : pushRetryLimit ≤ retries) :
      SpuriousStep s (.reject i (indexFromTicket ticket)) (s.setProducer i .idle)
  | miss {s : System ι Ptr} {retries : Nat} (hpc : s.consumer = .scanning retries)
      (hretry : retries < popRetryLimit) :
      SpuriousStep s (.miss s.queue.head)
        { s with queue := { s.queue with head := s.queue.head + 1 }, out := none,
                 consumer := .scanning (retries + 1) }
  | popEmpty {s : System ι Ptr} {retries : Nat} (hpc : s.consumer = .scanning retries)
      (hretry : popRetryLimit ≤ retries) :
      SpuriousStep s (.popEmpty s.queue.head none)
        { s with queue := { s.queue with head := s.queue.head + 1 }, out := none,
                 consumer := .idle }

-- ---------------------------------------------------------------------------
-- The relation
-- ---------------------------------------------------------------------------

/-- The last writes are what the queue holds. -/
structure Latest (q : BoundMPSC Ptr) (M : WeakMemory (Option ι) Cell (Cell.Value Ptr)) : Prop where
  ticket : ∃ m : AtomicWrite (BitVec 16), (M.history .ticket).getLast? = some m ∧
    m.value = q.ticket
  slot   : ∀ index, ∃ m : AtomicWrite (Option Ptr), (M.history (.slot index)).getLast? = some m ∧
    m.value = q.buffer index

theorem Latest.read {q : BoundMPSC Ptr} {M : WeakMemory (Option ι) Cell (Cell.Value Ptr)}
    (h : Latest q M) (o : MemoryOrder) (u : Option ι) {x : Cell} (m : AtomicWrite (x.Value Ptr)) :
    Latest q (M.read o u m) :=
  ⟨h.ticket, h.slot⟩

theorem Latest.put_ticket {q : BoundMPSC Ptr} {M : WeakMemory (Option ι) Cell (Cell.Value Ptr)}
    (h : Latest q M) (u : Option ι) (hist : List (AtomicWrite (BitVec 16)))
    {w : AtomicWrite (BitVec 16)} {v : BitVec 16} (hv : w.value = v) :
    Latest { q with ticket := v } (M.put u .ticket (hist ++ [w])) where
  ticket := ⟨w, M.last_put u .ticket hist w, hv⟩
  slot index := by
    rw [M.put_history_of_ne u _ Cell.noConfusion]
    exact h.slot index

theorem Latest.put_slot {q : BoundMPSC Ptr} {M : WeakMemory (Option ι) Cell (Cell.Value Ptr)}
    (h : Latest q M) (u : Option ι) (index : BitVec 16) (hist : List (AtomicWrite (Option Ptr)))
    {w : AtomicWrite (Option Ptr)} {v : Option Ptr} (hv : w.value = v) :
    Latest { q with buffer := Function.update q.buffer index v }
      (M.put u (.slot index) (hist ++ [w])) where
  ticket := by
    rw [M.put_history_of_ne u _ Cell.noConfusion]
    exact h.ticket
  slot x := by
    by_cases hx : x = index
    · subst hx
      exact ⟨w, M.last_put u (.slot x) hist w, hv.trans (Function.update_self x v q.buffer).symm⟩
    · obtain ⟨m, hlast, hvalue⟩ := h.slot x
      refine ⟨m, ?_, hvalue.trans (Function.update_of_ne hx v q.buffer).symm⟩
      rw [M.put_history_of_ne u _ fun heq => hx (Cell.slot.inj heq), hlast]

/-- The threads stand where they stand in `s`, and the last writes are what its
queue holds. -/
structure Matches (s : System ι Ptr) (w : WeakSystem ι Ptr) : Prop where
  memory   : Latest s.queue w.memory
  head     : w.head = s.queue.head
  producer : w.producer = s.producer
  consumer : w.consumer = s.consumer
  out      : w.out = s.out

omit [DecidableEq ι] in
theorem matches_init : Matches (.init : System ι Ptr) .init where
  memory   := ⟨⟨_, rfl, rfl⟩, fun _ => ⟨_, rfl, rfl⟩⟩
  head     := rfl
  producer := rfl
  consumer := rfl
  out      := rfl

/-- The producers agree when one of them moves. -/
theorem Matches.move {s : System ι Ptr} {w : WeakSystem ι Ptr} (h : Matches s w) (i : ι)
    (p : Producer Ptr) : Function.update w.producer i p = Function.update s.producer i p := by
  rw [h.producer]

/-- Reading the last write is a step of the memory orders. -/
theorem matches_step {s t : System ι Ptr} {e : Event ι Ptr} {w : WeakSystem ι Ptr}
    (hw : Matches s w) (h : Step s e t) : ∃ w', WeakStep w (.queue e) w' ∧ Matches t w' := by
  have hmove := hw.move
  obtain ⟨hmemory, hhead, hproducer, hconsumer, hout⟩ := hw
  cases h.transition with
  | @pushCall i ptr hidle =>
    exact ⟨_, .pushCall (by rw [hproducer, hidle]), hmemory, hhead, hmove i _, hconsumer, hout⟩
  | pushNull hidle =>
    exact ⟨_, .pushNull (by rw [hproducer, hidle]), hmemory, hhead, hproducer, hconsumer, hout⟩
  | @ticket i ptr retries hpc =>
    obtain ⟨m, hlast, hvalue⟩ := hmemory.ticket
    rw [← hvalue]
    exact ⟨_, .ticket (by rw [hproducer, hpc]) (.of_last _ _ _ _ hlast),
      (hmemory.read _ _ _).put_ticket _ _ rfl, hhead, hmove i _, hconsumer, hout⟩
  | @publish i ptr retries ticket hpc hslot =>
    obtain ⟨m, hlast, hvalue⟩ := hmemory.slot (indexFromTicket ticket)
    exact ⟨_, .publish (by rw [hproducer, hpc]) (hvalue.trans hslot) (.of_last _ _ _ _ hlast),
      (hmemory.read _ _ _).put_slot _ _ _ rfl, hhead, hmove i _, hconsumer, hout⟩
  | @collide i ptr retries ticket hpc hslot hretry =>
    obtain ⟨m, hlast, hvalue⟩ := hmemory.slot (indexFromTicket ticket)
    exact ⟨_, .collide (by rw [hproducer, hpc]) (hvalue ▸ hslot) (.of_last _ _ hlast) hretry,
      ⟨hmemory.ticket, hmemory.slot⟩, hhead, hmove i _, hconsumer, hout⟩
  | @reject i ptr retries ticket hpc hslot hretry =>
    obtain ⟨m, hlast, hvalue⟩ := hmemory.slot (indexFromTicket ticket)
    exact ⟨_, .reject (by rw [hproducer, hpc]) (hvalue ▸ hslot) (.of_last _ _ hlast) hretry,
      ⟨hmemory.ticket, hmemory.slot⟩, hhead, hmove i _, hconsumer, hout⟩
  | popCall hidle =>
    exact ⟨_, .popCall (by rw [hconsumer, hidle]), hmemory, hhead, hproducer, rfl, hout⟩
  | miss hpc hslot hretry =>
    obtain ⟨m, hlast, hvalue⟩ := hmemory.slot s.queue.head
    rw [← hhead] at hlast hvalue hslot ⊢
    exact ⟨_, .miss (by rw [hconsumer, hpc]) (.of_last _ _ hlast) (hvalue.trans hslot) hretry,
      ⟨hmemory.ticket, hmemory.slot⟩, rfl, hproducer, rfl, rfl⟩
  | popEmpty hpc hslot hretry =>
    obtain ⟨m, hlast, hvalue⟩ := hmemory.slot s.queue.head
    rw [← hhead] at hlast hvalue hslot ⊢
    exact ⟨_, .popEmpty (by rw [hconsumer, hpc]) (.of_last _ _ hlast) (hvalue.trans hslot) hretry,
      ⟨hmemory.ticket, hmemory.slot⟩, rfl, hproducer, rfl, rfl⟩
  | load hpc hslot =>
    obtain ⟨m, hlast, hvalue⟩ := hmemory.slot s.queue.head
    rw [← hhead] at hlast hvalue hslot ⊢
    exact ⟨_, .load (by rw [hconsumer, hpc]) (.of_last _ _ hlast) (hvalue.trans hslot),
      ⟨hmemory.ticket, hmemory.slot⟩, rfl, hproducer, rfl, rfl⟩
  | @deliver index hpc =>
    rw [← hout]
    exact ⟨_, .deliver (by rw [hconsumer, hpc]) (.of_last _ _ _ _),
      hmemory.put_slot _ _ _ rfl, hhead, hproducer, rfl, rfl⟩

/-- What a step did in the queue. -/
def WeakEvent.inQueue : WeakEvent ι Ptr → List (Event ι Ptr)
  | .queue e => [e]
  | _ => []

/-- Reading a stale write is a failure without a reason. -/
theorem matches_weakStep {s : System ι Ptr} {w w' : WeakSystem ι Ptr} {e : WeakEvent ι Ptr}
    (hinv : WeakInv w) (hw : Matches s w) (h : WeakStep w e w') :
    ∃ s', Run SpuriousStep s e.inQueue s' ∧ Matches s' w' := by
  have hmove := hw.move
  obtain ⟨hmemory, hhead, hproducer, hconsumer, hout⟩ := hw
  have hstep := h
  cases h with
  | @pushCall i ptr hidle =>
    rw [hproducer] at hidle
    exact ⟨_, .single (.exact (Transition.pushCall hidle).step), hmemory, hhead, hmove i _,
      hconsumer, hout⟩
  | pushNull hidle =>
    rw [hproducer] at hidle
    exact ⟨_, .single (.exact (Transition.pushNull hidle).step), hmemory, hhead, hproducer,
      hconsumer, hout⟩
  | @ticket i ptr retries m memory hpc hadd =>
    obtain ⟨hlast, rfl⟩ := hadd.append hinv.tickets fun _ hupdate => hupdate
    obtain ⟨m', hlast', hvalue⟩ := hmemory.ticket
    obtain rfl := Option.some.inj (hlast.symm.trans hlast')
    rw [hproducer] at hpc
    have hticket := (Transition.ticket hpc).step
    rw [← hvalue] at hticket
    exact ⟨_, .single (.exact hticket), (hmemory.read _ _ _).put_ticket _ _ rfl, hhead, hmove i _,
      hconsumer, hout⟩
  | @publish i ptr retries ticket m memory hpc hnull hcas =>
    have hchain := (hinv.slots (indexFromTicket ticket)).chain
    obtain ⟨hlast, rfl⟩ := hcas.append hchain fun m' hfollows => (hfollows.pointer hnull).2
    obtain ⟨m', hlast', hvalue⟩ := hmemory.slot (indexFromTicket ticket)
    obtain rfl := Option.some.inj (hlast.symm.trans hlast')
    rw [hproducer] at hpc
    exact ⟨_, .single (.exact (Transition.publish hpc (hvalue.symm.trans hnull)).step),
      (hmemory.read _ _ _).put_slot _ _ _ rfl, hhead, hmove i _, hconsumer, hout⟩
  | @collide i ptr retries ticket m memory hpc hvalue hcas hretry =>
    rw [hproducer] at hpc
    obtain rfl := hcas.eq
    exact ⟨_, .single (.collide hpc hretry), ⟨hmemory.ticket, hmemory.slot⟩, hhead, hmove i _,
      hconsumer, hout⟩
  | @reject i ptr retries ticket m memory hpc hvalue hcas hretry =>
    rw [hproducer] at hpc
    obtain rfl := hcas.eq
    exact ⟨_, .single (.reject hpc hretry), ⟨hmemory.ticket, hmemory.slot⟩, hhead, hmove i _,
      hconsumer, hout⟩
  | popCall hidle =>
    rw [hconsumer] at hidle
    exact ⟨_, .single (.exact (Transition.popCall hidle).step), hmemory, hhead, hproducer, rfl, hout⟩
  | miss hpc hload hnull hretry =>
    rw [hconsumer] at hpc
    obtain rfl := hload.eq
    rw [hhead]
    exact ⟨_, .single (.miss hpc hretry), ⟨hmemory.ticket, hmemory.slot⟩, rfl, hproducer, rfl, rfl⟩
  | popEmpty hpc hload hnull hretry =>
    rw [hconsumer] at hpc
    obtain rfl := hload.eq
    rw [hhead]
    exact ⟨_, .single (.popEmpty hpc hretry), ⟨hmemory.ticket, hmemory.slot⟩, rfl, hproducer, rfl,
      rfl⟩
  | @load retries ptr m memory hpc hload hvalue =>
    obtain ⟨m, hlast, hm, -⟩ := hstep.load_reads hinv
    obtain ⟨m', hlast', hvalue'⟩ := hmemory.slot w.head
    obtain rfl := Option.some.inj (hlast.symm.trans hlast')
    rw [hconsumer] at hpc
    obtain rfl := hload.eq
    have hslot : s.queue.buffer s.queue.head = some ptr := by
      rw [← hhead, ← hvalue', hm]
    rw [hhead]
    exact ⟨_, .single (.exact (Transition.load hpc hslot).step), ⟨hmemory.ticket, hmemory.slot⟩, rfl,
      hproducer, rfl, rfl⟩
  | @deliver index memory hpc hstore =>
    obtain rfl := hstore.append (hinv.held index hpc).last_known
    rw [hconsumer] at hpc
    rw [hout]
    exact ⟨_, .single (.exact (Transition.deliver hpc).step), hmemory.put_slot _ _ _ rfl, hhead,
      hproducer, rfl, rfl⟩
  | work u => exact ⟨s, .nil s, ⟨hmemory.ticket, hmemory.slot⟩, hhead, hproducer, hconsumer, hout⟩
  | synchronise u v =>
    exact ⟨s, .nil s, ⟨hmemory.ticket, hmemory.slot⟩, hhead, hproducer, hconsumer, hout⟩

-- ---------------------------------------------------------------------------
-- The runs
-- ---------------------------------------------------------------------------

theorem run_matches {es : List (Event ι Ptr)} {s : System ι Ptr} (h : Run Step .init es s) :
    ∃ w : WeakSystem ι Ptr, Run WeakStep .init (es.map .queue) w ∧ Matches s w := by
  refine h.trace_invariant (P := fun es s => ∃ w : WeakSystem ι Ptr,
    Run WeakStep .init (es.map .queue) w ∧ Matches s w) ?_ ?_
  · exact ⟨.init, .nil _, matches_init⟩
  · rintro es s e t - ⟨w, hrun, hw⟩ hstep
    obtain ⟨w', hstep', hw'⟩ := matches_step hw hstep
    refine ⟨w', ?_, hw'⟩
    rw [List.map_append]
    exact hrun.snoc hstep'

theorem run_matches_weak {es : List (WeakEvent ι Ptr)} {w : WeakSystem ι Ptr}
    (h : Run WeakStep .init es w) :
    ∃ s : System ι Ptr, Run SpuriousStep .init (es.flatMap WeakEvent.inQueue) s ∧ Matches s w := by
  refine h.trace_invariant (P := fun es w => ∃ s : System ι Ptr,
    Run SpuriousStep .init (es.flatMap WeakEvent.inQueue) s ∧ Matches s w) ?_ ?_
  · exact ⟨.init, .nil _, matches_init⟩
  · rintro es w e w' hbefore ⟨s, hrun, hw⟩ hstep
    obtain ⟨s', hrun', hw'⟩ := matches_weakStep (run_weakInv hbefore weakInv_init) hw hstep
    refine ⟨s', ?_, hw'⟩
    rw [List.flatMap_append, List.flatMap_singleton]
    exact hrun.append hrun'

/-- An access that fails leaves the slots and the consumer's hands alone. -/
theorem SpuriousStep.consumerInv {s t : System ι Ptr} {e : Event ι Ptr} (hinv : ConsumerInv s)
    (h : SpuriousStep s e t) : ConsumerInv t := by
  cases h with
  | exact h => exact step_consumerInv hinv h
  | collide | reject => exact ⟨hinv.out, hinv.held, hinv.head⟩
  | miss | popEmpty => constructor <;> intro index hclear <;> simp at hclear

theorem SpuriousStep.slot {s t : System ι Ptr} {e : Event ι Ptr} (hinv : ConsumerInv s)
    (h : SpuriousStep s e t) (index : BitVec 16) :
    (s.queue.buffer index).toList ++ e.publishedTo index =
      e.deliveredFrom index ++ (t.queue.buffer index).toList := by
  cases h with
  | exact h => exact step_slot hinv h index
  | _ => exact List.append_nil _

/-- The ticket that this event draws. -/
def Event.drawn : Event ι Ptr → List (BitVec 16)
  | .ticket _ value => [value]
  | _ => []

theorem SpuriousStep.drawn {s t : System ι Ptr} {e : Event ι Ptr} (h : SpuriousStep s e t) :
    e.drawn = (if e.isTicket then [s.queue.ticket] else []) ∧
      t.queue.ticket = lap s.queue.ticket (if e.isTicket then 1 else 0) := by
  cases h with
  | exact h =>
    refine ⟨?_, step_ticket h⟩
    cases h.transition <;> rfl
  | _ => exact ⟨rfl, (lap_zero _).symm⟩

/-- The tickets drawn are `0, 1, 2, …` in this order. -/
theorem run_drawn {es : List (Event ι Ptr)} {s : System ι Ptr} (h : Run SpuriousStep .init es s) :
    es.flatMap Event.drawn = (List.range (tickets es)).map (lap 0) ∧
      s.queue.ticket = lap 0 (tickets es) := by
  refine h.trace_invariant (P := fun es s => es.flatMap Event.drawn =
    (List.range (tickets es)).map (lap 0) ∧ s.queue.ticket = lap 0 (tickets es)) ?_ ?_
  · exact ⟨rfl, rfl⟩
  · rintro es s e t - ⟨hdrawn, hticket⟩ hstep
    obtain ⟨hnew, hnext⟩ := hstep.drawn
    have htickets : tickets (es ++ [e]) = tickets es + if e.isTicket then 1 else 0 := by
      rw [tickets, List.countP_append, List.countP_singleton, tickets]
    rw [List.flatMap_append, List.flatMap_singleton, hdrawn, hnew, hnext, hticket, lap_lap, htickets]
    split
    · rw [List.range_succ, List.map_append, List.map_singleton]
      exact ⟨rfl, rfl⟩
    · exact ⟨List.append_nil _, rfl⟩

/--
**Between two queues with indivisible accesses.** Every interleaving of indivisible
accesses is an execution with the memory orders of the source; and every such
execution in which program order and reads-from have no cycle is, apart from what
happens outside the queue, an interleaving of indivisible accesses that may fail
without a reason. Counters, slots and threads agree at the end.
-/
theorem memory_orders_between :
    (∀ (es : List (Event ι Ptr)) (s : System ι Ptr), Run Step .init es s →
      ∃ w : WeakSystem ι Ptr, Run WeakStep .init (es.map .queue) w ∧ Matches s w) ∧
    ∀ (es : List (WeakEvent ι Ptr)) (w : WeakSystem ι Ptr), Run WeakStep .init es w →
      ∃ s : System ι Ptr, Run SpuriousStep .init (es.flatMap WeakEvent.inQueue) s ∧ Matches s w :=
  ⟨fun _ _ h => run_matches h, fun _ _ h => run_matches_weak h⟩

/--
**Nothing is lost with the memory orders of the source.** In every execution the
tickets drawn are `0, 1, 2, …`, modulo `2^16`; and what has been published to a slot
is, in this order, what has been delivered from it and its last value.
-/
theorem weak_slot_is_channel {es : List (WeakEvent ι Ptr)} {w : WeakSystem ι Ptr}
    (h : Run WeakStep .init es w) :
    (es.flatMap WeakEvent.inQueue).flatMap Event.drawn =
      (List.range (tickets (es.flatMap WeakEvent.inQueue))).map (BitVec.ofNat 16) ∧
    ∀ index, ∃ m, (w.slot index).getLast? = some m ∧
      (es.flatMap WeakEvent.inQueue).flatMap (Event.publishedTo index) =
        (es.flatMap WeakEvent.inQueue).flatMap (Event.deliveredFrom index) ++ m.value.toList := by
  obtain ⟨s, hrun, hmatches⟩ := run_matches_weak h
  constructor
  · have hlap : lap (0 : BitVec 16) = BitVec.ofNat 16 := funext fun n => BitVec.zero_add _
    rw [(run_drawn hrun).1, hlap]
  · intro index
    obtain ⟨m, hlast, hvalue⟩ := hmatches.memory.slot index
    refine ⟨m, hlast, ?_⟩
    rw [hvalue]
    exact hrun.channel (fun s => (s.queue.buffer index).toList) _ _
      (fun _ _ _ hinv hst => hst.consumerInv hinv) (fun _ _ _ hinv hst => hst.slot hinv index)
      consumerInv_init

/-- Producer 0 has published 7 to slot 0, and the consumer is inside `pop` and knows
nothing of it. -/
theorem published_unknown :
    ∃ w : WeakSystem (Fin 2) Nat, Run WeakStep .init
        [.queue (.pushCall 0 7), .queue (.ticket 0 0), .queue (.publish 0 (indexFromTicket 0) 7),
          .queue .popCall] w ∧ w.consumer = .scanning 0 ∧ w.head = 0 ∧
      ∃ m, w.slot 0 = [WeakSystem.initialWrite none, m] ∧ m.value = some 7 ∧
        m.stamp ∉ w.memory.seen none := by
  refine ⟨_, .cons (.pushCall rfl) (.cons (.ticket (m := WeakSystem.initialWrite 0) rfl
    (.of_last _ _ _ _ rfl)) (.cons (.publish (m := WeakSystem.initialWrite none) rfl rfl
    (.of_last _ _ _ _ rfl)) (.single (.popCall rfl)))), rfl, rfl, _, rfl, rfl, ?_⟩
  exact Nat.succ_ne_zero 1

/-- The pop comes by and sees nothing, and nothing is lost. -/
theorem weak_slot_is_channel_stale :
    ∃ (es : List (WeakEvent (Fin 2) Nat)) (w : WeakSystem (Fin 2) Nat), Run WeakStep .init es w ∧
      es.flatMap WeakEvent.inQueue = [.pushCall 0 7, .ticket 0 0, .publish 0 0 7, .popCall, .miss 0] ∧
      ∃ m, (w.slot 0).getLast? = some m ∧ [7] = m.value.toList := by
  obtain ⟨w, hrun, hpc, hhead, m, hslot, hvalue, hunknown⟩ := published_unknown
  rw [← hhead] at hslot
  have hreadable : ∃ pre post, w.slot w.head = pre ++ WeakSystem.initialWrite none :: post ∧
      ∀ m ∈ post, m.stamp ∉ w.memory.seen none :=
    ⟨[], [m], hslot, List.forall_mem_singleton.mpr hunknown⟩
  have hmiss := hrun.snoc (.miss hpc ⟨hreadable, rfl⟩ rfl (by decide))
  rw [hhead] at hmiss
  exact ⟨_, _, hmiss, rfl, (weak_slot_is_channel hmiss).2 0⟩

end Destiny.Replay
