import Mathlib.Logic.Function.Basic
import Destiny.Foundation.Run
import Destiny.Replay.BoundMPSC

/-!
# BoundMPSC — producers, the consumer, and their atomic steps

The queue together with the threads that use it: any number of producers
(indexed by `ι`) inside or outside `push`, and one consumer inside or outside
`pop`. Every atomic access is one indivisible step; what a thread does between
two accesses touches only its own variables and is part of the step before.

* `System.step` — what a thread does next, as an executable function of the
  scheduler's choice (`Action`);
* `Event` — what the step did, and what the call returned if it returned;
* `Step` — the step relation the runs are made of, and `Transition`, its
  case analysis: one constructor for each outcome of an access.
-/

namespace Destiny.Replay

open Foundation

/-! ## Threads -/

/-- Where a producer stands in `push`. -/
inductive Producer (Ptr : Type*)
  -- outside `push`
  | idle
  -- about to run `ticket_.fetch_add`
  | ticketing (ptr : Ptr) (retries : Nat)
  -- about to run `compare_exchange_strong` on the slot of `ticket`
  | publishing (ptr : Ptr) (retries : Nat) (ticket : BitVec 16)

/-- Where the consumer stands in `pop`. -/
inductive Consumer
  -- outside `pop`
  | idle
  -- about to run `head_++` and the slot load
  | scanning (retries : Nat)
  -- the slot load gave a pointer; about to store `nullptr` to the slot
  | clearing (index : BitVec 16)

/-- The queue, the threads, and the variable `pop` writes its result to. -/
structure System (ι Ptr : Type*) where
  queue    : BoundMPSC Ptr
  producer : ι → Producer Ptr
  consumer : Consumer
  out      : Option Ptr

/-- What the scheduler (or a caller) can choose to happen next. -/
inductive Action (ι Ptr : Type*)
  -- idle producer `i` calls `push(ptr)`
  | push (i : ι) (ptr : Option Ptr)
  -- producer `i` runs its next access
  | producer (i : ι)
  -- the idle consumer calls `pop`
  | pop
  -- the consumer runs its next access
  | consumer

/-- What a step did. -/
inductive Event (ι Ptr : Type*)
  -- `push(ptr)` is called with a non-null pointer
  | pushCall (i : ι) (ptr : Ptr)
  -- `push(nullptr)` is called and returns false
  | pushNull (i : ι)
  -- `ticket_.fetch_add` returned `ticket`
  | ticket (i : ι) (ticket : BitVec 16)
  -- the `compare_exchange` stored `ptr`; `push` returns true
  | publish (i : ι) (index : BitVec 16) (ptr : Ptr)
  -- the `compare_exchange` failed; `push` goes round again
  | collide (i : ι) (index : BitVec 16)
  -- the `compare_exchange` failed for the last time; `push` returns false
  | reject (i : ι) (index : BitVec 16)
  -- `pop` is called
  | popCall
  -- the slot load gave null; `pop` goes round again
  | miss (index : BitVec 16)
  -- the slot load gave null for the last time; `pop` returns false
  | popEmpty (index : BitVec 16) (out : Option Ptr)
  -- the slot load gave `ptr`
  | load (index : BitVec 16) (ptr : Ptr)
  -- `nullptr` was stored to the slot; `pop` returns true
  | deliver (index : BitVec 16) (out : Option Ptr)

namespace Event

variable {ι Ptr : Type*}

/-- The producer whose `push` returns with this event, and the result. -/
def pushReturn? : Event ι Ptr → Option (ι × Bool)
  | .pushNull i => some (i, false)
  | .publish i _ _ => some (i, true)
  | .reject i _ => some (i, false)
  | _ => none

/-- The result of the `pop` that returns with this event, and its output. -/
def popReturn? : Event ι Ptr → Option (Bool × Option Ptr)
  | .popEmpty _ out => some (false, out)
  | .deliver _ out => some (true, out)
  | _ => none

/-- The slot of a slot load by the consumer. -/
def load? : Event ι Ptr → Option (BitVec 16)
  | .miss index => some index
  | .popEmpty index _ => some index
  | .load index _ => some index
  | _ => none

/-- Is this an access made by the consumer inside `pop`? -/
def isConsumerAccess : Event ι Ptr → Bool
  | .miss _ | .popEmpty _ _ | .load _ _ | .deliver _ _ => true
  | _ => false

end Event

/-! ## The step function -/

namespace System

variable {ι Ptr : Type*}

/-- A fresh queue, nobody inside `push` or `pop`. -/
def init : System ι Ptr := ⟨.empty, fun _ => .idle, .idle, none⟩

variable [DecidableEq ι]

def setProducer (s : System ι Ptr) (i : ι) (p : Producer Ptr) : System ι Ptr :=
  { s with producer := Function.update s.producer i p }

@[simp] theorem setProducer_self (s : System ι Ptr) (i : ι) (p : Producer Ptr) :
    (s.setProducer i p).producer i = p :=
  Function.update_self ..

theorem setProducer_of_ne {i j : ι} (s : System ι Ptr) (p : Producer Ptr) (h : j ≠ i) :
    (s.setProducer i p).producer j = s.producer j :=
  Function.update_of_ne h ..

/-- The next access of producer `i` inside `push`. -/
def producerStep (s : System ι Ptr) (i : ι) : Option (Event ι Ptr × System ι Ptr) :=
  match s.producer i with
  | .idle => none
  | .ticketing ptr retries =>
    let (ticket, queue) := s.queue.fetchAdd
    some (.ticket i ticket, { s with queue }.setProducer i (.publishing ptr retries ticket))
  | .publishing ptr retries ticket =>
    let index := indexFromTicket ticket
    match s.queue.compareExchange index ptr with
    | (true, queue) => some (.publish i index ptr, { s with queue }.setProducer i .idle)
    | (false, queue) =>
      -- `if (++retries > pushRetryLimit_) return false;`
      if retries + 1 > pushRetryLimit then
        some (.reject i index, { s with queue }.setProducer i .idle)
      else
        some (.collide i index, { s with queue }.setProducer i (.ticketing ptr (retries + 1)))

/-- The next access of the consumer inside `pop`. -/
def consumerStep (s : System ι Ptr) : Option (Event ι Ptr × System ι Ptr) :=
  match s.consumer with
  | .idle => none
  | .scanning retries =>
    let (index, queue) := s.queue.advanceHead
    -- the load writes the caller's variable whatever it gave
    let out := queue.load index
    match out with
    | some ptr => some (.load index ptr, { s with queue, out, consumer := .clearing index })
    | none =>
      -- `if (++retries > popRetryLimit_) return false;`
      if retries + 1 > popRetryLimit then
        some (.popEmpty index out, { s with queue, out, consumer := .idle })
      else
        some (.miss index, { s with queue, out, consumer := .scanning (retries + 1) })
  | .clearing index =>
    some (.deliver index s.out, { s with queue := s.queue.storeNull index, consumer := .idle })

/-- What happens when the scheduler picks an action; `none` if it cannot. -/
def step (s : System ι Ptr) : Action ι Ptr → Option (Event ι Ptr × System ι Ptr)
  | .push i ptr =>
    match s.producer i, ptr with
    | .idle, none => some (.pushNull i, s)
    | .idle, some ptr => some (.pushCall i ptr, s.setProducer i (.ticketing ptr 0))
    | _, _ => none
  | .producer i => s.producerStep i
  | .pop =>
    match s.consumer with
    | .idle => some (.popCall, { s with consumer := .scanning 0 })
    | _ => none
  | .consumer => s.consumerStep

/-- The events of a list of actions, and the state after it. -/
def exec (s : System ι Ptr) : List (Action ι Ptr) → Option (List (Event ι Ptr) × System ι Ptr)
  | [] => some ([], s)
  | a :: as => do
    let (e, t) ← s.step a
    let (es, u) ← t.exec as
    some (e :: es, u)

end System

variable {ι Ptr : Type*} [DecidableEq ι]

/-- The step relation: some action leads from `s` to `t` with event `e`. -/
def Step (s : System ι Ptr) (e : Event ι Ptr) (t : System ι Ptr) : Prop :=
  ∃ a, s.step a = some (e, t)

/-- What the scheduler's choices lead to is a run. -/
theorem run_of_exec {s t : System ι Ptr} {es : List (Event ι Ptr)} (as : List (Action ι Ptr))
    (h : s.exec as = some (es, t)) : Run Step s es t := by
  induction as generalizing s es with
  | nil =>
    simp only [System.exec, Option.some.injEq, Prod.mk.injEq] at h
    obtain ⟨rfl, rfl⟩ := h
    exact .nil s
  | cons a as ih =>
    simp only [System.exec, Option.bind_eq_bind, Option.bind_eq_some_iff, Option.some.injEq,
      Prod.mk.injEq, Prod.exists] at h
    obtain ⟨e, m, hstep, fs, u, hrest, rfl, rfl⟩ := h
    exact .cons ⟨a, hstep⟩ (ih hrest)

/-! ## Case analysis of a step -/

/-- The steps of the system, one constructor for each outcome. -/
inductive Transition : System ι Ptr → Event ι Ptr → System ι Ptr → Prop
  | pushCall {s : System ι Ptr} {i : ι} {ptr : Ptr} (hidle : s.producer i = .idle) :
      Transition s (.pushCall i ptr) (s.setProducer i (.ticketing ptr 0))
  | pushNull {s : System ι Ptr} {i : ι} (hidle : s.producer i = .idle) :
      Transition s (.pushNull i) s
  | ticket {s : System ι Ptr} {i : ι} {ptr : Ptr} {retries : Nat}
      (hpc : s.producer i = .ticketing ptr retries) :
      Transition s (.ticket i s.queue.ticket)
        ({ s with queue := { s.queue with ticket := s.queue.ticket + 1 } }.setProducer i
          (.publishing ptr retries s.queue.ticket))
  | publish {s : System ι Ptr} {i : ι} {ptr : Ptr} {retries : Nat} {ticket : BitVec 16}
      (hpc : s.producer i = .publishing ptr retries ticket)
      (hslot : s.queue.buffer (indexFromTicket ticket) = none) :
      Transition s (.publish i (indexFromTicket ticket) ptr)
        ({ s with queue := { s.queue with
            buffer := Function.update s.queue.buffer (indexFromTicket ticket) (some ptr) }
          }.setProducer i .idle)
  | collide {s : System ι Ptr} {i : ι} {ptr : Ptr} {retries : Nat} {ticket : BitVec 16}
      (hpc : s.producer i = .publishing ptr retries ticket)
      (hslot : s.queue.buffer (indexFromTicket ticket) ≠ none)
      (hretry : retries < pushRetryLimit) :
      Transition s (.collide i (indexFromTicket ticket))
        (s.setProducer i (.ticketing ptr (retries + 1)))
  | reject {s : System ι Ptr} {i : ι} {ptr : Ptr} {retries : Nat} {ticket : BitVec 16}
      (hpc : s.producer i = .publishing ptr retries ticket)
      (hslot : s.queue.buffer (indexFromTicket ticket) ≠ none)
      (hretry : pushRetryLimit ≤ retries) :
      Transition s (.reject i (indexFromTicket ticket)) (s.setProducer i .idle)
  | popCall {s : System ι Ptr} (hidle : s.consumer = .idle) :
      Transition s .popCall { s with consumer := .scanning 0 }
  | miss {s : System ι Ptr} {retries : Nat} (hpc : s.consumer = .scanning retries)
      (hslot : s.queue.buffer s.queue.head = none) (hretry : retries < popRetryLimit) :
      Transition s (.miss s.queue.head)
        { s with queue := { s.queue with head := s.queue.head + 1 }, out := none,
                 consumer := .scanning (retries + 1) }
  | popEmpty {s : System ι Ptr} {retries : Nat} (hpc : s.consumer = .scanning retries)
      (hslot : s.queue.buffer s.queue.head = none) (hretry : popRetryLimit ≤ retries) :
      Transition s (.popEmpty s.queue.head none)
        { s with queue := { s.queue with head := s.queue.head + 1 }, out := none,
                 consumer := .idle }
  | load {s : System ι Ptr} {retries : Nat} {ptr : Ptr} (hpc : s.consumer = .scanning retries)
      (hslot : s.queue.buffer s.queue.head = some ptr) :
      Transition s (.load s.queue.head ptr)
        { s with queue := { s.queue with head := s.queue.head + 1 }, out := some ptr,
                 consumer := .clearing s.queue.head }
  | deliver {s : System ι Ptr} {index : BitVec 16} (hpc : s.consumer = .clearing index) :
      Transition s (.deliver index s.out)
        { s with queue := s.queue.storeNull index, consumer := .idle }

theorem transition_of_producerStep {s t : System ι Ptr} {i : ι} {e : Event ι Ptr}
    (h : s.producerStep i = some (e, t)) : Transition s e t := by
  unfold System.producerStep at h
  split at h
  · simp at h
  · rename_i ptr retries hpc
    simp only [BoundMPSC.fetchAdd, Option.some.injEq, Prod.mk.injEq] at h
    obtain ⟨rfl, rfl⟩ := h
    exact .ticket hpc
  · rename_i ptr retries ticket hpc
    dsimp only at h
    by_cases hslot : s.queue.buffer (indexFromTicket ticket) = none
    · rw [BoundMPSC.compareExchange_of_null ptr hslot] at h
      simp only [Option.some.injEq, Prod.mk.injEq] at h
      obtain ⟨rfl, rfl⟩ := h
      exact .publish hpc hslot
    · rw [BoundMPSC.compareExchange_of_ne_null ptr hslot] at h
      dsimp only at h
      split at h
      · simp only [Option.some.injEq, Prod.mk.injEq] at h
        obtain ⟨rfl, rfl⟩ := h
        exact .reject hpc hslot (by omega)
      · simp only [Option.some.injEq, Prod.mk.injEq] at h
        obtain ⟨rfl, rfl⟩ := h
        exact .collide hpc hslot (by omega)

theorem transition_of_consumerStep {s t : System ι Ptr} {e : Event ι Ptr}
    (h : s.consumerStep = some (e, t)) : Transition s e t := by
  unfold System.consumerStep at h
  split at h
  · simp at h
  · rename_i retries hpc
    simp only [BoundMPSC.advanceHead, BoundMPSC.load] at h
    split at h
    · rename_i ptr hslot
      simp only [Option.some.injEq, Prod.mk.injEq] at h
      obtain ⟨rfl, rfl⟩ := h
      rw [hslot]
      exact .load hpc hslot
    · rename_i hslot
      rw [hslot] at h
      split at h
      · simp only [Option.some.injEq, Prod.mk.injEq] at h
        obtain ⟨rfl, rfl⟩ := h
        exact .popEmpty hpc hslot (by omega)
      · simp only [Option.some.injEq, Prod.mk.injEq] at h
        obtain ⟨rfl, rfl⟩ := h
        exact .miss hpc hslot (by omega)
  · rename_i index hpc
    simp only [Option.some.injEq, Prod.mk.injEq] at h
    obtain ⟨rfl, rfl⟩ := h
    exact .deliver hpc

/-- **Inversion.** A step is one of the transitions. -/
theorem Step.transition {s t : System ι Ptr} {e : Event ι Ptr} (h : Step s e t) :
    Transition s e t := by
  obtain ⟨a, ha⟩ := h
  cases a with
  | push i ptr =>
    unfold System.step at ha
    dsimp only at ha
    split at ha
    · rename_i hidle
      simp only [Option.some.injEq, Prod.mk.injEq] at ha
      obtain ⟨rfl, rfl⟩ := ha
      exact .pushNull hidle
    · rename_i ptr hidle
      simp only [Option.some.injEq, Prod.mk.injEq] at ha
      obtain ⟨rfl, rfl⟩ := ha
      exact .pushCall hidle
    · simp at ha
  | producer i => exact transition_of_producerStep ha
  | pop =>
    unfold System.step at ha
    dsimp only at ha
    split at ha
    · rename_i hidle
      simp only [Option.some.injEq, Prod.mk.injEq] at ha
      obtain ⟨rfl, rfl⟩ := ha
      exact .popCall hidle
    · simp at ha
  | consumer => exact transition_of_consumerStep ha

/-- A call changes nothing but the caller. -/
theorem Step.eq_of_pushCall {s t : System ι Ptr} {i : ι} {ptr : Ptr}
    (h : Step s (.pushCall i ptr) t) : t = s.setProducer i (.ticketing ptr 0) := by
  cases h.transition with
  | pushCall => rfl

theorem Step.eq_of_popCall {s t : System ι Ptr} (h : Step s .popCall t) :
    t = { s with consumer := .scanning 0 } := by
  cases h.transition with
  | popCall => rfl

theorem Step.producer_of_pushCall {s t : System ι Ptr} {i : ι} {ptr : Ptr}
    (h : Step s (.pushCall i ptr) t) : t.producer i = .ticketing ptr 0 := by
  rw [h.eq_of_pushCall]
  exact System.setProducer_self ..

/-- A slot is cleared after it was loaded, and what was loaded is the output. -/
theorem Step.clearing_of_deliver {s t : System ι Ptr} {index : BitVec 16} {out : Option Ptr}
    (h : Step s (.deliver index out) t) : s.consumer = .clearing index ∧ out = s.out := by
  cases h.transition with
  | deliver hpc => exact ⟨hpc, rfl⟩

/-- Every transition is a step: some action makes it happen. -/
theorem Transition.step {s t : System ι Ptr} {e : Event ι Ptr} (h : Transition s e t) :
    Step s e t := by
  cases h with
  | @pushCall i ptr hidle => exact ⟨.push i (some ptr), by simp [System.step, hidle]⟩
  | @pushNull i hidle => exact ⟨.push i none, by simp [System.step, hidle]⟩
  | @ticket i ptr retries hpc =>
    exact ⟨.producer i, by simp [System.step, System.producerStep, hpc, BoundMPSC.fetchAdd]⟩
  | @publish i ptr retries ticket hpc hslot =>
    exact ⟨.producer i, by
      simp [System.step, System.producerStep, hpc, BoundMPSC.compareExchange_of_null _ hslot]⟩
  | @collide i ptr retries ticket hpc hslot hretry =>
    exact ⟨.producer i, by
      simp [System.step, System.producerStep, hpc,
        BoundMPSC.compareExchange_of_ne_null _ hslot, Nat.not_lt.mpr (Nat.succ_le_of_lt hretry)]⟩
  | @reject i ptr retries ticket hpc hslot hretry =>
    exact ⟨.producer i, by
      simp [System.step, System.producerStep, hpc,
        BoundMPSC.compareExchange_of_ne_null _ hslot, Nat.lt_succ_of_le hretry]⟩
  | popCall hidle => exact ⟨.pop, by simp [System.step, hidle]⟩
  | miss hpc hslot hretry =>
    exact ⟨.consumer, by
      simp [System.step, System.consumerStep, hpc, BoundMPSC.advanceHead, BoundMPSC.load, hslot,
        Nat.not_lt.mpr (Nat.succ_le_of_lt hretry)]⟩
  | popEmpty hpc hslot hretry =>
    exact ⟨.consumer, by
      simp [System.step, System.consumerStep, hpc, BoundMPSC.advanceHead, BoundMPSC.load, hslot,
        Nat.lt_succ_of_le hretry]⟩
  | load hpc hslot =>
    exact ⟨.consumer, by
      simp [System.step, System.consumerStep, hpc, BoundMPSC.advanceHead, BoundMPSC.load, hslot]⟩
  | deliver hpc => exact ⟨.consumer, by simp [System.step, System.consumerStep, hpc]⟩

end Destiny.Replay
