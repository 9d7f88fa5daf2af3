import Destiny.Foundation.Retry
import Destiny.Replay.System

/-!
# BoundMPSC — calls that do not overlap

The member functions as functions of the data members, for the case that
nobody else touches the queue while they run.

* `pushTry`, `popTry`, `push`, `pop` — the member functions. The argument that
  `pop` takes by reference is part of the state it returns.
* `push_success`, `push_failure`, `pop_success`, `pop_failure` — their effect
  in closed form.
* `CallStep` — a whole call as one step; its runs are the sequential ones.

The step system (`System`) makes the same calls access by access:

* `pushAlone_iff`, `popAlone_iff` — a call during which nobody else makes a
  step is what `push` and `pop` compute.
* `run_of_calls` — every sequential run is a run of the step system.
-/

namespace Destiny.Replay

open Foundation

variable {ι Ptr : Type*}

-- ---------------------------------------------------------------------------
-- Member functions
-- ---------------------------------------------------------------------------

namespace BoundMPSC

/-- `push_try` -/
def pushTry (q : BoundMPSC Ptr) : Option Ptr → Bool × BoundMPSC Ptr
  | none => (false, q)
  | some ptr =>
    let (ticket, q) := q.fetchAdd
    let index := indexFromTicket ticket
    q.compareExchange index ptr

/-- `pop_try`, with the referenced pointer. -/
def popTry : BoundMPSC Ptr × Option Ptr → Bool × (BoundMPSC Ptr × Option Ptr)
  | (q, _) =>
    let (index, q) := q.advanceHead
    let ptr := q.load index
    match ptr with
    | none => (false, (q, ptr))
    | some _ => (true, (q.storeNull index, ptr))

/-- The loop of `push`. -/
def pushLoop (ptr : Ptr) : Nat → BoundMPSC Ptr → Bool × BoundMPSC Ptr :=
  retryLoop pushRetryLimit fun q => q.pushTry (some ptr)

/-- `push` -/
def push (q : BoundMPSC Ptr) : Option Ptr → Bool × BoundMPSC Ptr
  | none => (false, q)
  | some ptr => pushLoop ptr 0 q

/-- The loop of `pop`. -/
def popLoop : Nat → BoundMPSC Ptr × Option Ptr → Bool × (BoundMPSC Ptr × Option Ptr) :=
  retryLoop popRetryLimit popTry

/-- `pop`, with the referenced pointer. -/
def pop (q : BoundMPSC Ptr) (ptr : Option Ptr) : Bool × (BoundMPSC Ptr × Option Ptr) :=
  popLoop 0 (q, ptr)

-- ---------------------------------------------------------------------------
-- Effects
-- ---------------------------------------------------------------------------

theorem pushTry_of_ne_null {q : BoundMPSC Ptr} (ptr : Ptr)
    (h : q.buffer (indexFromTicket q.ticket) ≠ none) :
    q.pushTry (some ptr) = (false, { q with ticket := q.ticket + 1 }) :=
  compareExchange_of_ne_null (q := { q with ticket := q.ticket + 1 }) ptr h

theorem pushTry_of_null {q : BoundMPSC Ptr} (ptr : Ptr)
    (h : q.buffer (indexFromTicket q.ticket) = none) :
    q.pushTry (some ptr) = (true, { q with
      ticket := q.ticket + 1
      buffer := Function.update q.buffer (indexFromTicket q.ticket) (some ptr) }) :=
  compareExchange_of_null (q := { q with ticket := q.ticket + 1 }) ptr h

theorem popTry_of_null {q : BoundMPSC Ptr} (out : Option Ptr) (h : q.buffer q.head = none) :
    popTry (q, out) = (false, ({ q with head := q.head + 1 }, none)) := by
  simp only [popTry, advanceHead, load, h]

theorem popTry_of_some {q : BoundMPSC Ptr} {ptr : Ptr} (out : Option Ptr)
    (h : q.buffer q.head = some ptr) :
    popTry (q, out) = (true, ({ q with
      head := q.head + 1
      buffer := Function.update q.buffer q.head none }, some ptr)) := by
  simp only [popTry, advanceHead, load, storeNull, h]

/-- Attempts on occupied slots cost one ticket each. -/
theorem pushTry_lap {q : BoundMPSC Ptr} (ptr : Ptr) (j : Nat)
    (h : q.buffer (q.ticketSlot j) ≠ none) :
    pushTry { q with ticket := lap q.ticket j } (some ptr) =
      (false, { q with ticket := lap q.ticket (j + 1) }) := by
  rw [pushTry_of_ne_null (q := { q with ticket := lap q.ticket j }) ptr h, lap_succ]

/-- **A push that finds a free slot.** -/
theorem push_success {q : BoundMPSC Ptr} (ptr : Ptr) {k : Nat} (hk : k ≤ pushRetryLimit)
    (hbusy : ∀ j < k, q.buffer (q.ticketSlot j) ≠ none) (hfree : q.buffer (q.ticketSlot k) = none) :
    q.push (some ptr) = (true, { q with
      ticket := lap q.ticket (k + 1)
      buffer := Function.update q.buffer (q.ticketSlot k) (some ptr) }) := by
  have hok := pushTry_of_null (q := { q with ticket := lap q.ticket k }) ptr hfree
  rw [← lap_succ] at hok
  have hloop := retryLoop_success (fun q => q.pushTry (some ptr))
    (fun j => { q with ticket := lap q.ticket j }) (fun j hj => pushTry_lap ptr j (hbusy j hj)) hk hok
  rwa [lap_zero] at hloop

/-- **A push that finds none.** -/
theorem push_failure {q : BoundMPSC Ptr} (ptr : Ptr)
    (hbusy : ∀ j ≤ pushRetryLimit, q.buffer (q.ticketSlot j) ≠ none) :
    q.push (some ptr) = (false, { q with ticket := lap q.ticket (pushRetryLimit + 1) }) := by
  have hloop := retryLoop_exhausted (fun q => q.pushTry (some ptr))
    (fun j => { q with ticket := lap q.ticket j }) (fun j hj => pushTry_lap ptr j (hbusy j hj))
  rwa [lap_zero] at hloop

/-- Loads of empty slots move the cursor. -/
theorem popTry_lap {q : BoundMPSC Ptr} (j : Nat) (out : Option Ptr)
    (h : q.buffer (q.headSlot j) = none) :
    popTry ({ q with head := lap q.head j }, out) =
      (false, ({ q with head := lap q.head (j + 1) }, none)) := by
  rw [popTry_of_null (q := { q with head := lap q.head j }) out h, lap_succ]

/-- What `pop` has written to the referenced pointer after `j` empty slots. -/
def missedOut (out : Option Ptr) (j : Nat) : Option Ptr := if j = 0 then out else none

/-- **A pop that finds a pointer.** -/
theorem pop_success {q : BoundMPSC Ptr} {ptr : Ptr} (out : Option Ptr) {k : Nat}
    (hk : k ≤ popRetryLimit) (hempty : ∀ j < k, q.buffer (q.headSlot j) = none)
    (hfull : q.buffer (q.headSlot k) = some ptr) :
    q.pop out = (true, ({ q with
      head := lap q.head (k + 1)
      buffer := Function.update q.buffer (q.headSlot k) none }, some ptr)) := by
  have hok := popTry_of_some (q := { q with head := lap q.head k }) (missedOut out k) hfull
  rw [← lap_succ] at hok
  have hloop := retryLoop_success popTry
    (fun j => ({ q with head := lap q.head j }, missedOut out j))
    (fun j hj => popTry_lap j _ (hempty j hj)) hk hok
  rwa [lap_zero] at hloop

/-- **A pop that finds none.** -/
theorem pop_failure {q : BoundMPSC Ptr} (out : Option Ptr)
    (hempty : ∀ j ≤ popRetryLimit, q.buffer (q.headSlot j) = none) :
    q.pop out = (false, ({ q with head := lap q.head (popRetryLimit + 1) }, none)) := by
  have hloop := retryLoop_exhausted popTry
    (fun j => ({ q with head := lap q.head j }, missedOut out j))
    (fun j hj => popTry_lap j _ (hempty j hj))
  rwa [lap_zero] at hloop

/-- The slots of the tickets a push may draw are all occupied. -/
def WindowFull (q : BoundMPSC Ptr) : Prop :=
  ∀ k < pushRetryLimit + 1, q.buffer (q.ticketSlot k) ≠ none

/-- **Every push.** The first free slot of the window is taken, or there is none. -/
theorem push_cases (q : BoundMPSC Ptr) (ptr : Ptr) :
    (∃ k < pushRetryLimit + 1, (∀ j < k, q.buffer (q.ticketSlot j) ≠ none) ∧
      q.buffer (q.ticketSlot k) = none ∧
      q.push (some ptr) = (true, { q with
        ticket := lap q.ticket (k + 1)
        buffer := Function.update q.buffer (q.ticketSlot k) (some ptr) })) ∨
    (q.WindowFull ∧
      q.push (some ptr) = (false, { q with ticket := lap q.ticket (pushRetryLimit + 1) })) := by
  classical
  by_cases hfree : ∃ k, k < pushRetryLimit + 1 ∧ q.buffer (q.ticketSlot k) = none
  · obtain ⟨hk, hslot⟩ := Nat.find_spec hfree
    have hbusy : ∀ j < Nat.find hfree, q.buffer (q.ticketSlot j) ≠ none := fun j hj hnone =>
      Nat.find_min hfree hj ⟨hj.trans hk, hnone⟩
    exact Or.inl ⟨_, hk, hbusy, hslot, push_success ptr (Nat.le_of_lt_succ hk) hbusy hslot⟩
  · have hfull : q.WindowFull := fun k hk hnone => hfree ⟨k, hk, hnone⟩
    exact Or.inr ⟨hfull, push_failure ptr fun j hj => hfull j (Nat.lt_succ_of_le hj)⟩

/-- The scan of an empty queue goes round twice and ends one slot further. -/
theorem lap_popRetryLimit (a : BitVec 16) : lap a (popRetryLimit + 1) = a + 1 := by
  have htwice : lap a (2 ^ 16 + 2 ^ 16) = a := by
    rw [← lap_lap, lap_two_pow, lap_two_pow]
  rw [lap_succ]
  exact congrArg (· + 1) htwice

/-- **Every pop.** The first pointer from the cursor on is taken, or there is none. -/
theorem pop_cases (q : BoundMPSC Ptr) (out : Option Ptr) :
    (∃ k ptr, k < capacity ∧ (∀ j < k, q.buffer (q.headSlot j) = none) ∧
      q.buffer (q.headSlot k) = some ptr ∧
      q.pop out = (true, ({ q with
        head := lap q.head (k + 1)
        buffer := Function.update q.buffer (q.headSlot k) none }, some ptr))) ∨
    ((∀ index, q.buffer index = none) ∧
      q.pop out = (false, ({ q with head := q.head + 1 }, none))) := by
  classical
  by_cases hfull : ∃ k, q.buffer (q.headSlot k) ≠ none
  · obtain ⟨ptr, hptr⟩ := Option.ne_none_iff_exists'.mp (Nat.find_spec hfull)
    have hempty : ∀ j < Nat.find hfull, q.buffer (q.headSlot j) = none := fun j hj =>
      not_not.mp (Nat.find_min hfull hj)
    -- within one lap the scan meets every slot
    have hlap : Nat.find hfull < capacity := by
      refine lt_of_le_of_lt (Nat.find_min' hfull (m := dist q.head (q.headSlot (Nat.find hfull))) ?_)
        (dist_lt _ _)
      rw [headSlot, lap_dist]
      exact Nat.find_spec hfull
    have hlimit : Nat.find hfull ≤ popRetryLimit := by
      have hle : capacity ≤ popRetryLimit := by decide
      omega
    exact Or.inl ⟨_, ptr, hlap, hempty, hptr, pop_success out hlimit hempty hptr⟩
  · have hnone : ∀ index, q.buffer index = none := by
      intro index
      by_contra hne
      refine hfull ⟨dist q.head index, ?_⟩
      rwa [headSlot, lap_dist]
    refine Or.inr ⟨hnone, ?_⟩
    rw [pop_failure out fun j _ => hnone _, lap_popRetryLimit]

/-- What the referenced pointer was before the call does not matter. -/
theorem pop_out (q : BoundMPSC Ptr) (out out' : Option Ptr) : q.pop out = q.pop out' := by
  rw [pop, pop, popLoop, retryLoop, retryLoop]
  rfl

end BoundMPSC

-- ---------------------------------------------------------------------------
-- A thread that runs alone
-- ---------------------------------------------------------------------------

/-- What a call returned. -/
inductive Return (Ptr : Type*)
  | push (result : Bool)
  | pop (result : Bool) (out : Option Ptr)

/-- The return of the call that ends with this event. -/
def Event.return? : Event ι Ptr → Option (Return Ptr)
  | .pushNull _ => some (.push false)
  | .publish _ _ _ => some (.push true)
  | .reject _ _ => some (.push false)
  | .popEmpty _ out => some (.pop false out)
  | .deliver _ out => some (.pop true out)
  | _ => none

/-- The returns of a run, in order. -/
def returns (es : List (Event ι Ptr)) : List (Return Ptr) := es.filterMap Event.return?

theorem returns_append (es fs : List (Event ι Ptr)) :
    returns (es ++ fs) = returns es ++ returns fs :=
  List.filterMap_append

namespace System

theorem exec_append [DecidableEq ι] {s t : System ι Ptr} {as : List (Action ι Ptr)}
    {es : List (Event ι Ptr)} (h : s.exec as = some (es, t)) (bs : List (Action ι Ptr)) :
    s.exec (as ++ bs) = (t.exec bs).map fun r => (es ++ r.1, r.2) := by
  induction as generalizing s es with
  | nil =>
    simp only [exec, Option.some.injEq, Prod.mk.injEq] at h
    obtain ⟨rfl, rfl⟩ := h
    simp
  | cons a as ih =>
    simp only [exec, Option.bind_eq_bind, Option.bind_eq_some_iff, Option.some.injEq,
      Prod.mk.injEq, Prod.exists] at h
    obtain ⟨e, m, hstep, fs, u, hrest, rfl, rfl⟩ := h
    rw [List.cons_append, exec, hstep]
    show ((m.exec (as ++ bs)).bind _) = _
    rw [ih hrest]
    cases u.exec bs with
    | none => rfl
    | some r => rfl

/-- Where a producer stands after an attempt. -/
def afterAttempt (ptr : Ptr) (retries : Nat) (published : Bool) : Producer Ptr :=
  if published then .idle
  else if retries + 1 > pushRetryLimit then .idle
  else .ticketing ptr (retries + 1)

/-- What an attempt reports. -/
def attemptEvent (i : ι) (index : BitVec 16) (ptr : Ptr) (retries : Nat) (published : Bool) :
    Event ι Ptr :=
  if published then .publish i index ptr
  else if retries + 1 > pushRetryLimit then .reject i index
  else .collide i index

theorem afterAttempt_of_lt (i : ι) (index : BitVec 16) (ptr : Ptr) {retries : Nat}
    (h : retries < pushRetryLimit) :
    afterAttempt ptr retries false = .ticketing ptr (retries + 1) ∧
      attemptEvent i index ptr retries false = .collide i index := by
  have hmore : ¬ retries + 1 > pushRetryLimit := by omega
  simp only [afterAttempt, attemptEvent, hmore, Bool.false_eq_true, if_false, and_self]

theorem afterAttempt_of_ge (i : ι) (index : BitVec 16) (ptr : Ptr) {retries : Nat}
    (h : pushRetryLimit ≤ retries) :
    afterAttempt ptr retries false = .idle ∧
      attemptEvent i index ptr retries false = .reject i index := by
  have hover : retries + 1 > pushRetryLimit := by omega
  simp only [afterAttempt, attemptEvent, hover, Bool.false_eq_true, if_false, if_true, and_self]

variable [DecidableEq ι]

theorem exec_cons {s t u : System ι Ptr} {a : Action ι Ptr} {as : List (Action ι Ptr)}
    {e : Event ι Ptr} {es : List (Event ι Ptr)} (h : s.step a = some (e, t))
    (hrest : t.exec as = some (es, u)) : s.exec (a :: as) = some (e :: es, u) := by
  rw [exec, h]
  show (t.exec as).bind _ = _
  rw [hrest]
  rfl

/-- Whatever else changes, a producer stands where it was put last. -/
theorem setProducer_setProducer (s : System ι Ptr) (i : ι) (p p' : Producer Ptr)
    (queue queue' : BoundMPSC Ptr) :
    { { s with queue }.setProducer i p with queue := queue' }.setProducer i p' =
      { s with queue := queue' }.setProducer i p' := by
  simp only [setProducer, Function.update_idem]

/-- Two accesses of producer `i` make one `push_try`. -/
theorem exec_pushTry {s u : System ι Ptr} {i : ι} {ptr : Ptr} {retries : Nat} {published : Bool}
    {queue : BoundMPSC Ptr} {as : List (Action ι Ptr)} {es : List (Event ι Ptr)}
    (hpc : s.producer i = .ticketing ptr retries)
    (htry : s.queue.pushTry (some ptr) = (published, queue))
    (hrest : ({ s with queue }.setProducer i (afterAttempt ptr retries published)).exec as =
      some (es, u)) :
    s.exec (.producer i :: .producer i :: as) = some (.ticket i s.queue.ticket ::
      attemptEvent i (indexFromTicket s.queue.ticket) ptr retries published :: es, u) := by
  have hticket : s.step (.producer i) = some (.ticket i s.queue.ticket,
      { s with queue := s.queue.fetchAdd.2 }.setProducer i
        (.publishing ptr retries s.queue.ticket)) := by
    simp only [step, producerStep, hpc, BoundMPSC.fetchAdd]
  have hexchange : ({ s with queue := s.queue.fetchAdd.2 }.setProducer i
      (.publishing ptr retries s.queue.ticket)).queue.compareExchange
        (indexFromTicket s.queue.ticket) ptr = (published, queue) := htry
  refine exec_cons hticket (exec_cons ?_ hrest)
  rw [step, producerStep, setProducer_self]
  dsimp only
  rw [hexchange]
  cases published with
  | true =>
    dsimp only
    rw [setProducer_setProducer]
    rfl
  | false =>
    dsimp only
    rw [setProducer_setProducer, setProducer_setProducer]
    by_cases hlast : retries + 1 > pushRetryLimit
    · simp only [afterAttempt, attemptEvent, hlast, if_true, Bool.false_eq_true, if_false]
    · simp only [afterAttempt, attemptEvent, hlast, Bool.false_eq_true, if_false]

/-- A producer that runs alone finishes its loop. -/
theorem exec_pushLoop {s : System ι Ptr} {i : ι} {ptr : Ptr} {retries : Nat}
    (hpc : s.producer i = .ticketing ptr retries) :
    ∃ n es, s.exec (List.replicate n (.producer i)) = some (es,
        { s with queue := (BoundMPSC.pushLoop ptr retries s.queue).2 }.setProducer i .idle) ∧
      returns es = [.push (BoundMPSC.pushLoop ptr retries s.queue).1] := by
  -- on the number of attempts that are left after this one
  induction hleft : pushRetryLimit - retries using Nat.strong_induction_on
    generalizing s retries with
  | _ left ih =>
    rcases htry : s.queue.pushTry (some ptr) with ⟨published, queue⟩
    cases published with
    | true =>
      rw [BoundMPSC.pushLoop, retryLoop_of_true htry]
      exact ⟨2, _, exec_pushTry hpc htry rfl, rfl⟩
    | false =>
      rcases Nat.lt_or_ge retries pushRetryLimit with hretry | hlast
      · obtain ⟨hpc', hevent⟩ :=
          afterAttempt_of_lt i (indexFromTicket s.queue.ticket) ptr hretry
        obtain ⟨n, es, hexec, hreturns⟩ :=
          ih (s := { s with queue }.setProducer i (.ticketing ptr (retries + 1)))
            (pushRetryLimit - (retries + 1)) (by omega) (setProducer_self ..) rfl
        rw [setProducer_setProducer, ← hpc'] at hexec
        rw [BoundMPSC.pushLoop, retryLoop_of_false htry hretry]
        refine ⟨n + 2, _, exec_pushTry hpc htry hexec, ?_⟩
        rw [hevent]
        exact hreturns
      · obtain ⟨hpc', hevent⟩ :=
          afterAttempt_of_ge i (indexFromTicket s.queue.ticket) ptr hlast
        rw [BoundMPSC.pushLoop, retryLoop_of_last htry hlast]
        refine ⟨2, _, exec_pushTry hpc htry (by rw [hpc']; rfl), ?_⟩
        rw [hevent]
        rfl

/-- **A push alone.** -/
theorem exec_push {s : System ι Ptr} {i : ι} (ptr : Option Ptr) (hidle : s.producer i = .idle) :
    ∃ n es, s.exec (.push i ptr :: List.replicate n (.producer i)) =
        some (es, { s with queue := (s.queue.push ptr).2 }) ∧
      returns es = [.push (s.queue.push ptr).1] := by
  cases ptr with
  | none =>
    refine ⟨0, [.pushNull i], exec_cons ?_ rfl, rfl⟩
    simp only [step, hidle]
    rfl
  | some ptr =>
    have hcall : s.step (.push i (some ptr)) =
        some (.pushCall i ptr, s.setProducer i (.ticketing ptr 0)) := by
      simp only [step, hidle]
    obtain ⟨n, es, hexec, hreturns⟩ := exec_pushLoop (s.setProducer_self i (.ticketing ptr 0))
    refine ⟨n, .pushCall i ptr :: es, exec_cons hcall ?_, hreturns⟩
    rw [hexec]
    have hback : Function.update s.producer i .idle = s.producer := by
      rw [← hidle, Function.update_eq_self]
    show some (es, System.mk _ (Function.update (Function.update s.producer i _) i .idle) _ _) = _
    rw [Function.update_idem, hback]
    rfl

/-- A consumer that runs alone finishes its loop. -/
theorem exec_popLoop {s : System ι Ptr} {retries : Nat} (hpc : s.consumer = .scanning retries) :
    ∃ n es, s.exec (List.replicate n .consumer) = some (es,
        { s with queue := (BoundMPSC.popLoop retries (s.queue, s.out)).2.1
                 out := (BoundMPSC.popLoop retries (s.queue, s.out)).2.2
                 consumer := .idle }) ∧
      returns es = [.pop (BoundMPSC.popLoop retries (s.queue, s.out)).1
        (BoundMPSC.popLoop retries (s.queue, s.out)).2.2] := by
  -- on the number of loads that are left after this one
  induction hleft : popRetryLimit - retries using Nat.strong_induction_on
    generalizing s retries with
  | _ left ih =>
    by_cases hslot : s.queue.buffer s.queue.head = none
    · have htry := BoundMPSC.popTry_of_null s.out hslot
      rcases Nat.lt_or_ge retries popRetryLimit with hretry | hlast
      · have hmore : ¬ retries + 1 > popRetryLimit := by omega
        have hmiss : s.step .consumer = some (.miss s.queue.head,
            { s with queue := { s.queue with head := s.queue.head + 1 }, out := none,
                     consumer := .scanning (retries + 1) }) := by
          simp only [step, consumerStep, hpc, BoundMPSC.advanceHead, BoundMPSC.load, hslot, hmore,
            if_false]
        obtain ⟨n, es, hexec, hreturns⟩ :=
          ih (s := { s with queue := { s.queue with head := s.queue.head + 1 }, out := none,
                            consumer := .scanning (retries + 1) })
            (popRetryLimit - (retries + 1)) (by omega) rfl rfl
        rw [BoundMPSC.popLoop, retryLoop_of_false htry hretry]
        exact ⟨n + 1, _, exec_cons hmiss hexec, hreturns⟩
      · have hover : retries + 1 > popRetryLimit := by omega
        have hempty : s.step .consumer = some (.popEmpty s.queue.head none,
            { s with queue := { s.queue with head := s.queue.head + 1 }, out := none,
                     consumer := .idle }) := by
          simp only [step, consumerStep, hpc, BoundMPSC.advanceHead, BoundMPSC.load, hslot, hover,
            if_true]
        rw [BoundMPSC.popLoop, retryLoop_of_last htry hlast]
        exact ⟨1, _, exec_cons hempty rfl, rfl⟩
    · obtain ⟨ptr, hptr⟩ := Option.ne_none_iff_exists'.mp hslot
      have hload : s.step .consumer = some (.load s.queue.head ptr,
          { s with queue := { s.queue with head := s.queue.head + 1 }, out := some ptr,
                   consumer := .clearing s.queue.head }) := by
        simp only [step, consumerStep, hpc, BoundMPSC.advanceHead, BoundMPSC.load, hptr]
      rw [BoundMPSC.popLoop, retryLoop_of_true (BoundMPSC.popTry_of_some s.out hptr)]
      exact ⟨2, _, exec_cons hload rfl, rfl⟩

/-- **A pop alone.** -/
theorem exec_pop {s : System ι Ptr} (hidle : s.consumer = .idle) :
    ∃ n es, s.exec (.pop :: List.replicate n .consumer) =
        some (es, { s with queue := (s.queue.pop s.out).2.1, out := (s.queue.pop s.out).2.2 }) ∧
      returns es = [.pop (s.queue.pop s.out).1 (s.queue.pop s.out).2.2] := by
  have hcall : s.step .pop = some (.popCall, { s with consumer := .scanning 0 }) := by
    simp only [step, hidle]
  obtain ⟨n, es, hexec, hreturns⟩ := exec_popLoop (s := { s with consumer := .scanning 0 }) rfl
  refine ⟨n, .popCall :: es, exec_cons hcall ?_, hreturns⟩
  rw [hexec, ← hidle]
  rfl

end System

-- ---------------------------------------------------------------------------
-- Undisturbed calls
-- ---------------------------------------------------------------------------

variable [DecidableEq ι]

/-- Producer `i` calls `push(ptr)` and nobody else makes a step until the call
returns `result` and leaves `t`. -/
def PushAlone (s : System ι Ptr) (i : ι) (ptr : Option Ptr) (result : Bool) (t : System ι Ptr) :
    Prop :=
  ∃ n es, s.exec (.push i ptr :: List.replicate n (.producer i)) = some (es, t) ∧
    t.producer i = .idle ∧ returns es = [.push result]

/-- An action list that cannot go on is not a proper prefix of one that runs. -/
theorem System.exec_replicate_le {s t u : System ι Ptr} {a b : Action ι Ptr} {m n : Nat}
    {es fs : List (Event ι Ptr)} (h : s.exec (a :: List.replicate m b) = some (es, t))
    (h' : s.exec (a :: List.replicate n b) = some (fs, u)) (hstop : t.step b = none) : n ≤ m := by
  by_contra hlt
  obtain ⟨d, rfl⟩ : ∃ d, n = m + (d + 1) := ⟨n - m - 1, by omega⟩
  rw [List.replicate_add, ← List.cons_append, exec_append h, List.replicate_succ, exec, hstop] at h'
  simp at h'

/-- **An undisturbed push is `push`.** -/
theorem pushAlone_iff {s t : System ι Ptr} {i : ι} {ptr : Option Ptr} {result : Bool}
    (hidle : s.producer i = .idle) :
    PushAlone s i ptr result t ↔
      result = (s.queue.push ptr).1 ∧ t = { s with queue := (s.queue.push ptr).2 } := by
  obtain ⟨n, es, hexec, hreturns⟩ := System.exec_push ptr hidle
  have hstuck : ∀ u : System ι Ptr, u.producer i = .idle → u.step (.producer i) = none := by
    intro u hu
    simp only [System.step, System.producerStep, hu]
  constructor
  · rintro ⟨m, fs, hexec', hidle', hreturns'⟩
    have hle := System.exec_replicate_le hexec hexec' (hstuck _ hidle)
    have hge := System.exec_replicate_le hexec' hexec (hstuck _ hidle')
    obtain rfl : m = n := Nat.le_antisymm hle hge
    rw [hexec, Option.some.injEq, Prod.mk.injEq] at hexec'
    obtain ⟨rfl, rfl⟩ := hexec'
    rw [hreturns, List.cons.injEq, Return.push.injEq] at hreturns'
    exact ⟨hreturns'.1.symm, rfl⟩
  · rintro ⟨rfl, rfl⟩
    exact ⟨n, es, hexec, hidle, hreturns⟩

/-- The consumer calls `pop` and nobody else makes a step until the call
returns `result` and leaves `t`. -/
def PopAlone (s : System ι Ptr) (result : Bool) (t : System ι Ptr) : Prop :=
  ∃ n es, s.exec (.pop :: List.replicate n .consumer) = some (es, t) ∧
    t.consumer = .idle ∧ returns es = [.pop result t.out]

/-- **An undisturbed pop is `pop`.** -/
theorem popAlone_iff {s t : System ι Ptr} {result : Bool} (hidle : s.consumer = .idle) :
    PopAlone s result t ↔ result = (s.queue.pop s.out).1 ∧
      t = { s with queue := (s.queue.pop s.out).2.1, out := (s.queue.pop s.out).2.2 } := by
  obtain ⟨n, es, hexec, hreturns⟩ := System.exec_pop hidle
  have hstuck : ∀ u : System ι Ptr, u.consumer = .idle → u.step .consumer = none := by
    intro u hu
    simp only [System.step, System.consumerStep, hu]
  constructor
  · rintro ⟨m, fs, hexec', hidle', hreturns'⟩
    have hle := System.exec_replicate_le hexec hexec' (hstuck _ hidle)
    have hge := System.exec_replicate_le hexec' hexec (hstuck _ hidle')
    obtain rfl : m = n := Nat.le_antisymm hle hge
    rw [hexec, Option.some.injEq, Prod.mk.injEq] at hexec'
    obtain ⟨rfl, rfl⟩ := hexec'
    rw [hreturns, List.cons.injEq, Return.pop.injEq] at hreturns'
    exact ⟨hreturns'.1.1.symm, rfl⟩
  · rintro ⟨rfl, rfl⟩
    exact ⟨n, es, hexec, hidle, hreturns⟩

-- ---------------------------------------------------------------------------
-- Sequential runs
-- ---------------------------------------------------------------------------

/-- A call with its arguments and what it returned. -/
inductive Call (Ptr : Type*)
  | push (ptr : Option Ptr) (result : Bool)
  | pop (result : Bool) (out : Option Ptr)

def Call.return : Call Ptr → Return Ptr
  | .push _ result => .push result
  | .pop result out => .pop result out

/-- A whole call as one step. -/
inductive CallStep : BoundMPSC Ptr → Call Ptr → BoundMPSC Ptr → Prop
  | push (q : BoundMPSC Ptr) (ptr : Option Ptr) :
      CallStep q (.push ptr (q.push ptr).1) (q.push ptr).2
  | pop (q : BoundMPSC Ptr) (ptr : Option Ptr) :
      CallStep q (.pop (q.pop ptr).1 (q.pop ptr).2.2) (q.pop ptr).2.1

/-- No `push` or `pop` in progress. -/
structure AtRest (s : System ι Ptr) : Prop where
  producers : ∀ i, s.producer i = .idle
  consumer  : s.consumer = .idle

variable [Nonempty ι]

/-- A call between two states at rest. -/
theorem run_of_call {q q' : BoundMPSC Ptr} {c : Call Ptr} (h : CallStep q c q')
    {s : System ι Ptr} (hqueue : s.queue = q) (hrest : AtRest s) :
    ∃ es t, Run Step s es t ∧ t.queue = q' ∧ AtRest t ∧ returns es = [c.return] := by
  subst hqueue
  cases h with
  | push ptr =>
    obtain ⟨n, es, hexec, hreturns⟩ := System.exec_push ptr (hrest.producers (Classical.arbitrary ι))
    exact ⟨es, _, run_of_exec _ hexec, rfl, ⟨hrest.producers, hrest.consumer⟩, hreturns⟩
  | pop ptr =>
    obtain ⟨n, es, hexec, hreturns⟩ := System.exec_pop hrest.consumer
    rw [s.queue.pop_out ptr s.out]
    exact ⟨es, _, run_of_exec _ hexec, rfl, ⟨hrest.producers, hrest.consumer⟩, hreturns⟩

/-- **Sequential runs are runs.** The step system makes every sequence of calls
that do not overlap, with the same returns. -/
theorem run_of_calls {q q' : BoundMPSC Ptr} {cs : List (Call Ptr)} (h : Run CallStep q cs q')
    {s : System ι Ptr} (hqueue : s.queue = q) (hrest : AtRest s) :
    ∃ es t, Run Step s es t ∧ t.queue = q' ∧ AtRest t ∧ returns es = cs.map Call.return := by
  induction h generalizing s with
  | nil => exact ⟨[], s, .nil s, hqueue, hrest, rfl⟩
  | @cons q m q' c cs hcall _ ih =>
    obtain ⟨es, t, hrun, hmid, hrest', hreturn⟩ := run_of_call hcall hqueue hrest
    obtain ⟨fs, u, hrun', hend, hrest'', hreturns⟩ := ih hmid hrest'
    refine ⟨es ++ fs, u, hrun.append hrun', hend, hrest'', ?_⟩
    rw [returns_append, hreturn, hreturns]
    rfl

end Destiny.Replay
