import Destiny.Foundation.ReleaseAcquire
import Destiny.Replay.Effects

/-!
# BoundMPSC — the memory orders

`push` and `pop` with the memory orders of the source, over a memory in which
threads may read stale writes: `ticket_.fetch_add` is relaxed; the
`compare_exchange_strong` releases if it stores and is relaxed if it does not; the
slot load of `pop_try` acquires; the store of `nullptr` is relaxed. `head_` is not
atomic and belongs to the consumer. Between its accesses a thread does other work,
and threads may synchronise by other means than the queue. As in
`Foundation.ReleaseAcquire`, no write is read before it is made: the executions are
those in which program order together with reads-from has no cycle.

* `WeakSystem`, `WeakStep` — the states and the steps.
* `WeakInv`                — null and a pointer take turns in each slot, and the
  consumer knows of every null: a pointer that it can read is the last write.
* `ticket_appends`, `publish_appends`, `load_reads`, `deliver_appends` — what follows
  from it for the accesses: none of them acts on a stale write.
-/

namespace Destiny.Replay

open Foundation

/-- The atomic members. -/
inductive Cell
  | ticket
  | slot (index : BitVec 16)
deriving DecidableEq

/-- What the atomic members hold. -/
abbrev Cell.Value (Ptr : Type) : Cell → Type
  | .ticket => BitVec 16
  | .slot _ => Option Ptr

/-- The queue and its threads; the thread `none` is the consumer. -/
structure WeakSystem (ι Ptr : Type) where
  memory   : WeakMemory (Option ι) Cell (Cell.Value Ptr)
  head     : BitVec 16
  producer : ι → Producer Ptr
  consumer : Consumer
  out      : Option Ptr

/-- What a step did. -/
inductive WeakEvent (ι Ptr : Type)
  -- inside the queue
  | queue (e : Event ι Ptr)
  -- thread `t` did something else, the event `stamp`
  | work (t : Option ι) (stamp : Nat)
  -- thread `t` synchronised with thread `u` by other means
  | synchronise (t u : Option ι)

variable {ι Ptr : Type}

/-- The member that a step writes to. -/
def WeakEvent.written : WeakEvent ι Ptr → Option Cell
  | .queue (.ticket _ _)        => some .ticket
  | .queue (.publish _ index _) => some (.slot index)
  | .queue (.deliver index _)   => some (.slot index)
  | _                           => none

theorem WeakEvent.of_written_ticket {e : WeakEvent ι Ptr} (h : e.written = some .ticket) :
    ∃ i ticket, e = .queue (.ticket i ticket) := by
  cases e with
  | queue e =>
    cases e with
    | ticket i ticket => exact ⟨i, ticket, rfl⟩
    | publish => exact Cell.noConfusion (Option.some.inj h)
    | deliver => exact Cell.noConfusion (Option.some.inj h)
    | _ => cases h
  | _ => cases h

theorem WeakEvent.of_written_slot {e : WeakEvent ι Ptr} {index : BitVec 16}
    (h : e.written = some (.slot index)) :
    (∃ i ptr, e = .queue (.publish i index ptr)) ∨ ∃ out, e = .queue (.deliver index out) := by
  cases e with
  | queue e =>
    cases e with
    | publish i x ptr =>
      obtain rfl := Cell.slot.inj (Option.some.inj h)
      exact Or.inl ⟨i, ptr, rfl⟩
    | deliver x out =>
      obtain rfl := Cell.slot.inj (Option.some.inj h)
      exact Or.inr ⟨out, rfl⟩
    | ticket => exact Cell.noConfusion (Option.some.inj h)
    | _ => cases h
  | _ => cases h

namespace WeakSystem

/-- The writes that initialise the members are event 0, which every thread knows. -/
def initialWrite {V : Type} (v : V) : AtomicWrite V := ⟨0, v, ∅, false⟩

def initialHistory : (x : Cell) → List (AtomicWrite (x.Value Ptr))
  | .ticket => [initialWrite (0 : BitVec 16)]
  | .slot _ => [initialWrite (none : Option Ptr)]

def init : WeakSystem ι Ptr :=
  ⟨⟨initialHistory, fun _ => {0}, 1⟩, 0, fun _ => .idle, .idle, none⟩

variable [DecidableEq ι]

def setProducer (s : WeakSystem ι Ptr) (i : ι) (p : Producer Ptr) : WeakSystem ι Ptr :=
  { s with producer := Function.update s.producer i p }

/-- The history of a slot. -/
def slot (s : WeakSystem ι Ptr) (index : BitVec 16) : List (AtomicWrite (Option Ptr)) :=
  s.memory.history (.slot index)

end WeakSystem

variable {s t : WeakSystem ι Ptr} {e : WeakEvent ι Ptr} {index : BitVec 16}

-- ---------------------------------------------------------------------------
-- The invariant of the slots
-- ---------------------------------------------------------------------------

/-- Null and a pointer take turns, and a pointer is stored by an update of the null
before it. -/
structure Follows (a b : AtomicWrite (Option Ptr)) : Prop where
  pointer : a.value = none → b.value ≠ none ∧ b.update = true
  null    : a.value ≠ none → b.value = none

/-- What a slot has held so far; the consumer knows of every null. -/
structure SlotInv (s : WeakSystem ι Ptr) (index : BitVec 16) : Prop where
  nonempty : s.slot index ≠ []
  chain    : (s.slot index).IsChain Follows
  known    : ∀ m ∈ s.slot index, m.value = none → m.stamp ∈ s.memory.seen none

/-- Inside `pop_try` the consumer knows the pointer it has loaded and what it hands
on, and nobody replaces it. -/
def PointerHeld (s : WeakSystem ι Ptr) (index : BitVec 16) : Prop :=
  ∃ m, (s.slot index).getLast? = some m ∧ m.value = s.out ∧ s.out ≠ none ∧
    m.stamp ∈ s.memory.seen none ∧ m.released ⊆ s.memory.seen none

theorem PointerHeld.last_known (h : PointerHeld s index) :
    ∀ m ∈ (s.slot index).getLast?, m.stamp ∈ s.memory.seen none := by
  obtain ⟨m, hlast, -, -, hseen, -⟩ := h
  intro m' hm'
  rwa [← Option.some.inj (hlast.symm.trans hm')]

structure WeakInv (s : WeakSystem ι Ptr) : Prop where
  tickets : (s.memory.history .ticket).IsChain fun _ m => m.update = true
  slots   : ∀ index, SlotInv s index
  held    : ∀ index, s.consumer = .clearing index → PointerHeld s index

theorem weakInv_init : WeakInv (.init : WeakSystem ι Ptr) where
  tickets := List.isChain_singleton _
  slots index :=
    { nonempty := List.cons_ne_nil _ _
      chain := List.isChain_singleton _
      known := by
        intro m hm _
        rw [List.mem_singleton.mp hm]
        exact Set.mem_singleton 0 }
  held _ hpc := Consumer.noConfusion hpc

/-- A pointer that the consumer may still read is the last write. -/
theorem SlotInv.pointer_last (hinv : SlotInv s index) {pre post : List (AtomicWrite (Option Ptr))}
    {m : AtomicWrite (Option Ptr)} (hslot : s.slot index = pre ++ m :: post)
    (hpost : ∀ m' ∈ post, m'.stamp ∉ s.memory.seen none) (hvalue : m.value ≠ none) :
    (s.slot index).getLast? = some m := by
  cases post with
  | nil =>
    rw [hslot]
    exact List.getLast?_concat
  | cons m' post =>
    have hchain := hinv.chain
    rw [hslot] at hchain
    have hfollows := (List.isChain_append_cons_cons.mp hchain).2.1
    have hmem : m' ∈ s.slot index := by
      rw [hslot]
      simp
    exact absurd (hinv.known m' hmem (hfollows.null hvalue)) (hpost m' List.mem_cons_self)

theorem SlotInv.append {m w : AtomicWrite (Option Ptr)} (hinv : SlotInv s index)
    (hmono : s.memory.seen none ⊆ t.memory.seen none) (hlast : (s.slot index).getLast? = some m)
    (hslot : t.slot index = s.slot index ++ [w]) (hfollows : Follows m w)
    (hknown : w.value = none → w.stamp ∈ t.memory.seen none) : SlotInv t index where
  nonempty := by
    rw [hslot]
    exact List.append_ne_nil_of_right_ne_nil _ (List.cons_ne_nil _ _)
  chain := by
    rw [hslot, List.isChain_append]
    refine ⟨hinv.chain, List.isChain_singleton _, fun a ha b hb => ?_⟩
    obtain rfl := Option.some.inj (hlast.symm.trans ha)
    obtain rfl := Option.some.inj hb
    exact hfollows
  known := by
    intro m' hm' hnull
    rw [hslot, List.mem_append, List.mem_singleton] at hm'
    rcases hm' with hold | rfl
    · exact hmono (hinv.known m' hold hnull)
    · exact hknown hnull

-- ---------------------------------------------------------------------------
-- The steps
-- ---------------------------------------------------------------------------

variable [DecidableEq ι]

/-- The steps, one constructor for each outcome of an access. -/
inductive WeakStep : WeakSystem ι Ptr → WeakEvent ι Ptr → WeakSystem ι Ptr → Prop
  | pushCall {s : WeakSystem ι Ptr} {i : ι} {ptr : Ptr} (hidle : s.producer i = .idle) :
      WeakStep s (.queue (.pushCall i ptr)) (s.setProducer i (.ticketing ptr 0))
  | pushNull {s : WeakSystem ι Ptr} {i : ι} (hidle : s.producer i = .idle) :
      WeakStep s (.queue (.pushNull i)) s
  -- `ticket_.fetch_add(1, relaxed)`
  | ticket {s : WeakSystem ι Ptr} {i : ι} {ptr : Ptr} {retries : Nat}
      {m : AtomicWrite (BitVec 16)} {memory : WeakMemory (Option ι) Cell (Cell.Value Ptr)}
      (hpc : s.producer i = .ticketing ptr retries)
      (hadd : s.memory.Update .relaxed .relaxed (some i) .ticket m (m.value + 1 : BitVec 16) memory) :
      WeakStep s (.queue (.ticket i m.value))
        ({ s with memory }.setProducer i (.publishing ptr retries m.value))
  -- `compare_exchange_strong(expected, ptr, release, relaxed)` stores
  | publish {s : WeakSystem ι Ptr} {i : ι} {ptr : Ptr} {retries : Nat} {ticket : BitVec 16}
      {m : AtomicWrite (Option Ptr)} {memory : WeakMemory (Option ι) Cell (Cell.Value Ptr)}
      (hpc : s.producer i = .publishing ptr retries ticket) (hnull : m.value = none)
      (hcas : s.memory.Update .relaxed .release (some i) (.slot (indexFromTicket ticket)) m
        (some ptr : Option Ptr) memory) :
      WeakStep s (.queue (.publish i (indexFromTicket ticket) ptr))
        ({ s with memory }.setProducer i .idle)
  -- it does not, and `push` goes round again
  | collide {s : WeakSystem ι Ptr} {i : ι} {ptr : Ptr} {retries : Nat} {ticket : BitVec 16}
      {m : AtomicWrite (Option Ptr)} {memory : WeakMemory (Option ι) Cell (Cell.Value Ptr)}
      (hpc : s.producer i = .publishing ptr retries ticket) (hvalue : m.value ≠ none)
      (hcas : s.memory.Load .relaxed (some i) (.slot (indexFromTicket ticket)) m memory)
      (hretry : retries < pushRetryLimit) :
      WeakStep s (.queue (.collide i (indexFromTicket ticket)))
        ({ s with memory }.setProducer i (.ticketing ptr (retries + 1)))
  | reject {s : WeakSystem ι Ptr} {i : ι} {ptr : Ptr} {retries : Nat} {ticket : BitVec 16}
      {m : AtomicWrite (Option Ptr)} {memory : WeakMemory (Option ι) Cell (Cell.Value Ptr)}
      (hpc : s.producer i = .publishing ptr retries ticket) (hvalue : m.value ≠ none)
      (hcas : s.memory.Load .relaxed (some i) (.slot (indexFromTicket ticket)) m memory)
      (hretry : pushRetryLimit ≤ retries) :
      WeakStep s (.queue (.reject i (indexFromTicket ticket)))
        ({ s with memory }.setProducer i .idle)
  | popCall {s : WeakSystem ι Ptr} (hidle : s.consumer = .idle) :
      WeakStep s (.queue .popCall) { s with consumer := .scanning 0 }
  -- `buffer_[index].load(acquire)` gives null
  | miss {s : WeakSystem ι Ptr} {retries : Nat} {m : AtomicWrite (Option Ptr)}
      {memory : WeakMemory (Option ι) Cell (Cell.Value Ptr)} (hpc : s.consumer = .scanning retries)
      (hload : s.memory.Load .acquire none (.slot s.head) m memory) (hnull : m.value = none)
      (hretry : retries < popRetryLimit) :
      WeakStep s (.queue (.miss s.head))
        { s with memory, head := s.head + 1, out := none, consumer := .scanning (retries + 1) }
  | popEmpty {s : WeakSystem ι Ptr} {retries : Nat} {m : AtomicWrite (Option Ptr)}
      {memory : WeakMemory (Option ι) Cell (Cell.Value Ptr)} (hpc : s.consumer = .scanning retries)
      (hload : s.memory.Load .acquire none (.slot s.head) m memory) (hnull : m.value = none)
      (hretry : popRetryLimit ≤ retries) :
      WeakStep s (.queue (.popEmpty s.head none))
        { s with memory, head := s.head + 1, out := none, consumer := .idle }
  -- it gives a pointer
  | load {s : WeakSystem ι Ptr} {retries : Nat} {ptr : Ptr} {m : AtomicWrite (Option Ptr)}
      {memory : WeakMemory (Option ι) Cell (Cell.Value Ptr)} (hpc : s.consumer = .scanning retries)
      (hload : s.memory.Load .acquire none (.slot s.head) m memory) (hvalue : m.value = some ptr) :
      WeakStep s (.queue (.load s.head ptr))
        { s with memory, head := s.head + 1, out := some ptr, consumer := .clearing s.head }
  -- `buffer_[index].store(nullptr, relaxed)`
  | deliver {s : WeakSystem ι Ptr} {index : BitVec 16}
      {memory : WeakMemory (Option ι) Cell (Cell.Value Ptr)} (hpc : s.consumer = .clearing index)
      (hstore : s.memory.Store .relaxed none (.slot index) (none : Option Ptr) memory) :
      WeakStep s (.queue (.deliver index s.out)) { s with memory, consumer := .idle }
  | work {s : WeakSystem ι Ptr} (t : Option ι) :
      WeakStep s (.work t s.memory.next) { s with memory := s.memory.work t }
  | synchronise {s : WeakSystem ι Ptr} (t u : Option ι) :
      WeakStep s (.synchronise t u) { s with memory := s.memory.learn t (s.memory.seen u) }

-- ---------------------------------------------------------------------------
-- What a step does to the memory
-- ---------------------------------------------------------------------------

theorem WeakStep.seen_mono (h : WeakStep s e t) (u : Option ι) :
    s.memory.seen u ⊆ t.memory.seen u := by
  cases h with
  | ticket _ hadd => exact hadd.seen_mono u
  | publish _ _ hcas => exact hcas.seen_mono u
  | collide _ _ hcas => exact hcas.seen_mono u
  | reject _ _ hcas => exact hcas.seen_mono u
  | miss _ hload => exact hload.seen_mono u
  | popEmpty _ hload => exact hload.seen_mono u
  | load _ hload => exact hload.seen_mono u
  | deliver _ hstore => exact hstore.seen_mono u
  | work v => exact s.memory.seen_learn v u _
  | synchronise v w => exact s.memory.seen_learn v u _
  | _ => exact subset_rfl

theorem WeakStep.history_eq {x : Cell} (h : WeakStep s e t) (hwritten : e.written ≠ some x) :
    t.memory.history x = s.memory.history x := by
  cases h with
  | ticket _ hadd => exact hadd.history_of_ne fun heq => hwritten (congrArg some heq.symm)
  | publish _ _ hcas => exact hcas.history_of_ne fun heq => hwritten (congrArg some heq.symm)
  | collide _ _ hcas => exact congrFun hcas.history_eq _
  | reject _ _ hcas => exact congrFun hcas.history_eq _
  | miss _ hload => exact congrFun hload.history_eq _
  | popEmpty _ hload => exact congrFun hload.history_eq _
  | load _ hload => exact congrFun hload.history_eq _
  | deliver _ hstore => exact hstore.history_of_ne fun heq => hwritten (congrArg some heq.symm)
  | _ => rfl

-- ---------------------------------------------------------------------------
-- What the accesses do
-- ---------------------------------------------------------------------------

/-- **A ticket is drawn** from the last write. -/
theorem WeakStep.ticket_appends {i : ι} {ticket : BitVec 16} (hinv : WeakInv s)
    (h : WeakStep s (.queue (.ticket i ticket)) t) :
    ∃ m w, (s.memory.history .ticket).getLast? = some m ∧ m.value = ticket ∧
      t.memory.history .ticket = s.memory.history .ticket ++ [w] ∧ w.value = m.value + 1 ∧
      w.update = true := by
  cases h with
  | @ticket _ _ _ m _ hpc hadd =>
    obtain ⟨hlast, rfl⟩ := hadd.append hinv.tickets fun _ hupdate => hupdate
    exact ⟨m, _, hlast, rfl, WeakMemory.put_history .., rfl, rfl⟩

/-- **A pointer is published** behind a null, which was last, and hands on what its
producer knows. -/
theorem WeakStep.publish_appends {i : ι} {ptr : Ptr} (hinv : WeakInv s)
    (h : WeakStep s (.queue (.publish i index ptr)) t) :
    ∃ m w, (s.slot index).getLast? = some m ∧ m.value = none ∧ t.slot index = s.slot index ++ [w] ∧
      w.value = some ptr ∧ w.update = true ∧ s.memory.seen (some i) ⊆ w.released ∧
      w.stamp ∈ t.memory.seen (some i) := by
  cases h with
  | @publish _ _ _ ticket m memory hpc hnull hcas =>
    have hchain := (hinv.slots (indexFromTicket ticket)).chain
    obtain ⟨hlast, rfl⟩ := hcas.append hchain fun m' hfollows => (hfollows.pointer hnull).2
    refine ⟨m, _, hlast, hnull, WeakMemory.put_history .., rfl, rfl, ?_, ?_⟩
    · intro n hn
      exact Or.inr (s.memory.seen_learn (some i) (some i) _ hn)
    · exact WeakMemory.next_seen_put ..

/-- **A pointer is delivered**: null is stored behind it. -/
theorem WeakStep.deliver_appends {out : Option Ptr} (hinv : WeakInv s)
    (h : WeakStep s (.queue (.deliver index out)) t) :
    ∃ m w, (s.slot index).getLast? = some m ∧ m.value = out ∧ out ≠ none ∧
      t.slot index = s.slot index ++ [w] ∧ w.value = none ∧ w.stamp ∈ t.memory.seen none := by
  cases h with
  | deliver hpc hstore =>
    obtain ⟨m, hlast, hvalue, hout, -⟩ := hinv.held index hpc
    obtain rfl := hstore.append (hinv.held index hpc).last_known
    exact ⟨m, _, hlast, hvalue, hout, WeakMemory.put_history .., rfl, WeakMemory.next_seen_put ..⟩

/-- **A pointer is loaded**: it is the last write, and the consumer learns what it
hands on. -/
theorem WeakStep.load_reads {ptr : Ptr} (hinv : WeakInv s)
    (h : WeakStep s (.queue (.load index ptr)) t) :
    ∃ m, (s.slot index).getLast? = some m ∧ m.value = some ptr ∧ m.stamp ∈ t.memory.seen none ∧
      m.released ⊆ t.memory.seen none := by
  cases h with
  | @load _ _ m memory hpc hload hvalue =>
    obtain ⟨pre, post, hslot, hpost⟩ := hload.readable
    have hlast := (hinv.slots s.head).pointer_last hslot hpost (by rw [hvalue]; simp)
    exact ⟨m, hlast, hvalue, hload.stamp_seen, hload.acquired⟩

/-- A load that gives null did not know of a pointer behind it. -/
theorem unknown_of_load_null {m : AtomicWrite (Option Ptr)}
    {memory : WeakMemory (Option ι) Cell (Cell.Value Ptr)}
    (hload : s.memory.Load .acquire none (.slot index) m memory) (hnull : m.value = none)
    {w : AtomicWrite (Option Ptr)} (hlast : (s.slot index).getLast? = some w)
    (hvalue : w.value ≠ none) : w.stamp ∉ s.memory.seen none := by
  intro hseen
  have hm : (s.slot index).getLast? = some m := hload.last fun m' hm' => by
    rwa [← Option.some.inj (hlast.symm.trans hm')]
  rw [Option.some.inj (hlast.symm.trans hm)] at hvalue
  exact hvalue hnull

-- ---------------------------------------------------------------------------
-- The invariant is kept
-- ---------------------------------------------------------------------------

theorem WeakStep.tickets (hinv : WeakInv s) (h : WeakStep s e t) :
    (t.memory.history .ticket).IsChain fun _ m => m.update = true := by
  by_cases hwritten : e.written = some .ticket
  · obtain ⟨i, ticket, rfl⟩ := WeakEvent.of_written_ticket hwritten
    obtain ⟨m, w, -, -, hhistory, -, hupdate⟩ := h.ticket_appends hinv
    rw [hhistory, List.isChain_append]
    refine ⟨hinv.tickets, List.isChain_singleton _, fun _ _ b hb => ?_⟩
    rwa [← Option.some.inj hb]
  · rw [h.history_eq hwritten]
    exact hinv.tickets

theorem WeakStep.slotInv (hinv : WeakInv s) (h : WeakStep s e t) (index : BitVec 16) :
    SlotInv t index := by
  have hmono := h.seen_mono none
  by_cases hwritten : e.written = some (.slot index)
  · obtain ⟨i, ptr, rfl⟩ | ⟨out, rfl⟩ := WeakEvent.of_written_slot hwritten
    · obtain ⟨m, w, hlast, hnull, hslot, hvalue, hupdate, -⟩ := h.publish_appends hinv
      have hpointer : w.value ≠ none := by
        rw [hvalue]
        simp
      exact (hinv.slots index).append hmono hlast hslot
        ⟨fun _ => ⟨hpointer, hupdate⟩, fun hm => absurd hnull hm⟩ fun hw => absurd hw hpointer
    · obtain ⟨m, w, hlast, hvalue, hout, hslot, hnull, hseen⟩ := h.deliver_appends hinv
      exact (hinv.slots index).append hmono hlast hslot
        ⟨fun hm => absurd (hvalue.symm.trans hm) hout, fun _ => hnull⟩ fun _ => hseen
  · have hslot : t.slot index = s.slot index := h.history_eq hwritten
    obtain ⟨hnonempty, hchain, hknown⟩ := hinv.slots index
    exact ⟨by rwa [hslot], by rwa [hslot], fun m hm hnull => hmono (hknown m (hslot ▸ hm) hnull)⟩

/-- A pointer stays until it is delivered. -/
theorem WeakStep.pointer_stays {m : AtomicWrite (Option Ptr)} (hinv : WeakInv s)
    (h : WeakStep s e t) (hlast : (s.slot index).getLast? = some m) (hvalue : m.value ≠ none)
    (hkeep : ∀ out, e ≠ .queue (.deliver index out)) : (t.slot index).getLast? = some m := by
  have hwritten : e.written ≠ some (.slot index) := by
    intro hwritten
    obtain ⟨i, ptr, rfl⟩ | ⟨out, rfl⟩ := WeakEvent.of_written_slot hwritten
    · obtain ⟨m', -, hlast', hnull, -⟩ := h.publish_appends hinv
      rw [Option.some.inj (hlast.symm.trans hlast')] at hvalue
      exact hvalue hnull
    · exact hkeep out rfl
  have hslot : t.slot index = s.slot index := h.history_eq hwritten
  rw [hslot, hlast]

theorem WeakStep.pointerHeld_frame (hinv : WeakInv s) (h : WeakStep s e t)
    (hpc : s.consumer = .clearing index) (hsame : t.consumer = s.consumer) (hout : t.out = s.out) :
    PointerHeld t index := by
  obtain ⟨m, hlast, hvalue, hne, hseen, hreleased⟩ := hinv.held index hpc
  have hkeep : ∀ out, e ≠ .queue (.deliver index out) := by
    rintro out rfl
    cases h with
    | deliver => exact Consumer.noConfusion (hsame.trans hpc)
  exact ⟨m, h.pointer_stays hinv hlast (hvalue ▸ hne) hkeep, hvalue.trans hout.symm, hout ▸ hne,
    h.seen_mono none hseen, hreleased.trans (h.seen_mono none)⟩

theorem WeakStep.weakInv (hinv : WeakInv s) (h : WeakStep s e t) : WeakInv t where
  tickets := h.tickets hinv
  slots   := h.slotInv hinv
  held    := by
    intro index hpc
    have hstep := h
    cases h with
    | load hpc' hload hvalue =>
      obtain rfl := Consumer.clearing.inj hpc
      obtain ⟨m, hlast, hm, hseen, hreleased⟩ := hstep.load_reads hinv
      exact ⟨m, hstep.pointer_stays hinv hlast (by rw [hm]; simp) (by simp), hm, by simp, hseen,
        hreleased⟩
    | popCall => exact Consumer.noConfusion hpc
    | miss => exact Consumer.noConfusion hpc
    | popEmpty => exact Consumer.noConfusion hpc
    | deliver => exact Consumer.noConfusion hpc
    | _ => exact hstep.pointerHeld_frame hinv hpc rfl rfl

theorem run_weakInv {es : List (WeakEvent ι Ptr)} (h : Run WeakStep s es t) (hinv : WeakInv s) :
    WeakInv t :=
  h.invariant (fun _ _ _ hinv hst => hst.weakInv hinv) hinv

end Destiny.Replay
