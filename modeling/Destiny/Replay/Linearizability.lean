import Mathlib.Algebra.Order.BigOperators.Group.Finset
import Destiny.Foundation.LapOrder
import Destiny.Foundation.Linearizability
import Destiny.Replay.Conservation
import Destiny.Replay.Sequential

/-!
# BoundMPSC — linearizability

Whatever the interleaving, the calls of any number of producers and of the
consumer return what they would return from a bag that serves one call at a
time, in an order that respects real time.

A `push` that returns true takes effect with its `compare_exchange`, a `pop`
that returns true with its store of null. A `pop` that returns false takes
effect when it is called, if the bag is empty then; whether it will return false
is not known at that time. So the simulation runs backward: while the consumer
scans, the atomic bag may already have answered "empty", as long as no occupied
slot lies ahead within one lap of the call.

* `BagSpec`  — the sequential specification.
* `View`     — the states the atomic bag may be in.
* `view_back` — one step, from its end back to its start.

Main result: `boundMPSC_linearizable`.
-/

namespace Destiny.Replay

open Foundation

variable {ι Ptr : Type*}

-- ---------------------------------------------------------------------------
-- The sequential specification
-- ---------------------------------------------------------------------------

/-- A call with its argument. -/
inductive Request (Ptr : Type*)
  | push (ptr : Option Ptr)
  | pop

/-- A bag of at most `capacity` pointers. A push may be refused at any time. -/
inductive BagSpec : Multiset Ptr → Request Ptr → Return Ptr → Multiset Ptr → Prop
  | accept {bag : Multiset Ptr} (ptr : Ptr) (hroom : bag.card < capacity) :
      BagSpec bag (.push (some ptr)) (.push true) (ptr ::ₘ bag)
  | refuse (bag : Multiset Ptr) (ptr : Option Ptr) : BagSpec bag (.push ptr) (.push false) bag
  | take (bag : Multiset Ptr) (ptr : Ptr) :
      BagSpec (ptr ::ₘ bag) .pop (.pop true (some ptr)) bag
  | empty : BagSpec 0 .pop (.pop false none) 0

/-- What a step shows of the calls. The thread `none` is the consumer. -/
def Event.history : Event ι Ptr → List (Observation (Option ι) (Request Ptr) (Return Ptr))
  | .pushCall i ptr => [.invoke (some i) (.push (some ptr))]
  | .pushNull i => [.invoke (some i) (.push none), .respond (some i) (.push false)]
  | .publish i _ _ => [.respond (some i) (.push true)]
  | .reject i _ => [.respond (some i) (.push false)]
  | .popCall => [.invoke none .pop]
  | .popEmpty _ out => [.respond none (.pop false out)]
  | .deliver _ out => [.respond none (.pop true out)]
  | _ => []

-- ---------------------------------------------------------------------------
-- The states of the atomic bag
-- ---------------------------------------------------------------------------

def Producer.activity : Producer Ptr → Activity (Request Ptr) (Return Ptr)
  | .idle => .idle
  | .ticketing ptr _ => .pending (.push (some ptr))
  | .publishing ptr _ _ => .pending (.push (some ptr))

def Consumer.activity : Consumer → Activity (Request Ptr) (Return Ptr)
  | .idle => .idle
  | .scanning _ => .pending .pop
  | .clearing _ => .pending .pop

/-- The contents of the slots as an atomic bag; `consumer` is where its consumer
stands. -/
def System.view (s : System ι Ptr) (consumer : Activity (Request Ptr) (Return Ptr)) :
    AtomicObject (Option ι) (Multiset Ptr) (Request Ptr) (Return Ptr) where
  obj := s.queue.contents
  activity
    | some i => (s.producer i).activity
    | none => consumer

/-- The states of the atomic bag in a state of the system. -/
inductive View (s : System ι Ptr) :
    AtomicObject (Option ι) (Multiset Ptr) (Request Ptr) (Return Ptr) → Prop
  | plain : View s (s.view s.consumer.activity)
  -- `pop` has found the bag empty: no pointer that was there when it was called is ahead
  | failing {retries : Nat} (hpc : s.consumer = .scanning retries)
      (hahead : ∀ index, s.queue.buffer index ≠ none →
        capacity ≤ dist s.queue.head index + retries) :
      View s (s.view (.answered (.pop false none)))

/-- A fresh queue is an empty bag. -/
theorem eq_start_of_view {a : AtomicObject (Option ι) (Multiset Ptr) (Request Ptr) (Return Ptr)}
    (h : View (.init : System ι Ptr) a) : a = .start 0 := by
  cases h with
  | plain =>
    have hactivity : ((System.init : System ι Ptr).view Consumer.idle.activity).activity =
        fun _ => .idle := by
      funext t
      cases t <;> rfl
    show AtomicObject.mk _ _ = AtomicObject.mk _ _
    rw [← hactivity, ← contents_empty]
    rfl
  | failing hpc => exact Consumer.noConfusion hpc

/-- What the consumer does not do leaves the bag in one of its earlier states. -/
theorem View.back {s t : System ι Ptr}
    {b : AtomicObject (Option ι) (Multiset Ptr) (Request Ptr) (Return Ptr)} (h : View t b)
    (hconsumer : t.consumer = s.consumer) (hhead : t.queue.head = s.queue.head)
    (hkeep : ∀ index, s.queue.buffer index ≠ none → t.queue.buffer index ≠ none) :
    ∃ c, b = t.view c ∧ View s (s.view c) := by
  cases h with
  | plain =>
    refine ⟨_, rfl, ?_⟩
    rw [hconsumer]
    exact .plain
  | failing hpc hahead =>
    refine ⟨_, rfl, .failing (hconsumer.symm.trans hpc) fun index hslot => ?_⟩
    rw [← hhead]
    exact hahead index (hkeep index hslot)

variable [DecidableEq ι]

theorem view_setProducer (s : System ι Ptr) (queue : BoundMPSC Ptr) (i : ι) (p : Producer Ptr)
    (c : Activity (Request Ptr) (Return Ptr)) :
    ({ s with queue }.setProducer i p).view c =
      { s.view c with obj := queue.contents }.setActivity (some i) p.activity := by
  refine congrArg (AtomicObject.mk _) (funext fun t => ?_)
  cases t with
  | none => rfl
  | some j =>
    by_cases hj : j = i
    · subst hj
      rw [Function.update_self]
      exact congrArg Producer.activity (Function.update_self ..)
    · rw [Function.update_of_ne (fun h => hj (Option.some.inj h))]
      exact congrArg Producer.activity (Function.update_of_ne hj ..)

/-- A producer that stays in its call looks the same. -/
theorem view_setProducer_of_activity {s : System ι Ptr} {queue : BoundMPSC Ptr} {i : ι}
    {p : Producer Ptr} (c : Activity (Request Ptr) (Return Ptr))
    (hbuffer : queue.buffer = s.queue.buffer) (hactivity : p.activity = (s.producer i).activity) :
    ({ s with queue }.setProducer i p).view c = s.view c := by
  have hcontents : queue.contents = s.queue.contents := congrArg bufferContents hbuffer
  rw [view_setProducer, hcontents, hactivity]
  exact congrArg (AtomicObject.mk _) (Function.update_eq_self ..)

-- ---------------------------------------------------------------------------
-- Backward simulation
-- ---------------------------------------------------------------------------

omit [DecidableEq ι] in
/-- A queue with an empty slot is not full. -/
theorem card_contents_lt {q : BoundMPSC Ptr} {index : BitVec 16} (h : q.buffer index = none) :
    q.contents.card < capacity := by
  have hone : ∀ x, (pointers (q.buffer x)).card ≤ 1 := by
    intro x
    cases q.buffer x with
    | none => exact Nat.zero_le 1
    | some ptr => exact Nat.le_refl 1
  have hzero : (pointers (q.buffer index)).card < 1 := by
    rw [h]
    exact Nat.zero_lt_one
  have hall : ∑ _x : BitVec 16, 1 = capacity := by
    rw [← Finset.card_eq_sum_ones, Finset.card_univ, card_index]
  unfold BoundMPSC.contents bufferContents
  rw [Multiset.card_sum, ← hall]
  exact Finset.sum_lt_sum (fun x _ => hone x) ⟨index, Finset.mem_univ _, hzero⟩

omit [DecidableEq ι] in
theorem contents_eq_zero {q : BoundMPSC Ptr} (h : ∀ index, q.buffer index = none) :
    q.contents = 0 := by
  have hbuffer : q.buffer = fun _ => none := funext h
  unfold BoundMPSC.contents
  rw [hbuffer]
  exact contents_empty

theorem view_setConsumer (s : System ι Ptr) (queue : BoundMPSC Ptr)
    (c c' : Activity (Request Ptr) (Return Ptr)) :
    { s.view c with obj := queue.contents }.setActivity none c' = { s with queue }.view c' := by
  refine congrArg (AtomicObject.mk _) (funext fun t => ?_)
  cases t with
  | none => exact Function.update_self ..
  | some i => exact Function.update_of_ne (Option.some_ne_none i) ..

/-- What leads the atomic bag to `b` and shows what `e` shows. -/
def Traced (s : System ι Ptr) (e : Event ι Ptr)
    (b : AtomicObject (Option ι) (Multiset Ptr) (Request Ptr) (Return Ptr)) : Prop :=
  ∃ a marks, View s a ∧ Run (AtomicObject.Step BagSpec) a marks b ∧
    marks.filterMap Mark.observation? = e.history

/-- A step that shows nothing and changes nothing the bag can see. -/
theorem traced_of_silent {s t : System ι Ptr} {e : Event ι Ptr}
    {c : Activity (Request Ptr) (Return Ptr)} (hview : View s (s.view c))
    (heq : t.view c = s.view c) (hsilent : e.history = []) : Traced s e (t.view c) := by
  refine ⟨s.view c, [], hview, ?_, hsilent.symm⟩
  rw [heq]
  exact .nil _

/-- A push takes effect and returns. -/
theorem traced_of_push {s : System ι Ptr} {e : Event ι Ptr} {i : ι} {ptr : Ptr} {result : Bool}
    {queue : BoundMPSC Ptr} {c : Activity (Request Ptr) (Return Ptr)} (hview : View s (s.view c))
    (hcall : (s.producer i).activity = .pending (.push (some ptr)))
    (hspec : BagSpec s.queue.contents (.push (some ptr)) (.push result) queue.contents)
    (hshown : e.history = [.respond (some i) (.push result)]) :
    Traced s e (({ s with queue }.setProducer i .idle).view c) := by
  have hrun := AtomicObject.run_perform_respond (a := s.view c) (t := some i) hcall hspec
  rw [view_setProducer]
  exact ⟨s.view c, _, hview, hrun, hshown.symm⟩

/-- **The steps of the producers.** -/
theorem traced_producer {s t : System ι Ptr} {e : Event ι Ptr} {i : ι}
    {b : AtomicObject (Option ι) (Multiset Ptr) (Request Ptr) (Return Ptr)}
    (h : Step s e t) (hi : e.producer? = some i) (hb : View t b) : Traced s e b := by
  have hkeep : ∀ index, s.queue.buffer index ≠ none → t.queue.buffer index ≠ none := by
    intro index hslot
    obtain ⟨ptr, hptr⟩ := Option.ne_none_iff_exists'.mp hslot
    rw [step_buffer_keep h hptr (by rintro out rfl; simp [Event.producer?] at hi)]
    exact Option.some_ne_none ptr
  cases h.transition with
  | @pushCall j ptr hidle =>
    obtain ⟨c, rfl, hview⟩ := hb.back (s := s) rfl rfl hkeep
    refine ⟨s.view c, [.invoke (some j) (.push (some ptr))], hview, ?_, rfl⟩
    have hactivity : (s.view c).activity (some j) = .idle := congrArg Producer.activity hidle
    rw [view_setProducer s s.queue]
    exact .single (.invoke _ hactivity)
  | @pushNull j hidle =>
    obtain ⟨c, rfl, hview⟩ := hb.back (s := s) rfl rfl hkeep
    have hactivity : (s.view c).activity (some j) = .idle := congrArg Producer.activity hidle
    refine ⟨s.view c, [.invoke (some j) (.push none), .perform (some j) (.push none) (.push false),
      .respond (some j) (.push false)], hview, ?_, rfl⟩
    have hperform := AtomicObject.run_invoke_perform hactivity (BagSpec.refuse s.queue.contents none)
    have hrespond : AtomicObject.Step BagSpec
        ((s.view c).setActivity (some j) (.answered (.push false)))
        (.respond (some j) (.push false))
        (((s.view c).setActivity (some j) (.answered (.push false))).setActivity (some j) .idle) :=
      .respond (Function.update_self ..)
    have hback : ((s.view c).setActivity (some j) (.answered (.push false))).setActivity (some j)
        .idle = s.view c := by
      rw [AtomicObject.setActivity, AtomicObject.setActivity, Function.update_idem, ← hactivity,
        Function.update_eq_self]
    rw [hback] at hrespond
    exact hperform.snoc hrespond
  | @ticket j ptr retries hpc =>
    obtain ⟨c, rfl, hview⟩ := hb.back (s := s) rfl rfl hkeep
    refine traced_of_silent hview (view_setProducer_of_activity c rfl ?_) rfl
    rw [hpc]
    rfl
  | @publish j ptr retries ticket hpc hslot =>
    obtain ⟨c, rfl, hview⟩ := hb.back (s := s) rfl rfl hkeep
    have hcall : (s.producer j).activity = .pending (.push (some ptr)) := by
      rw [hpc]
      rfl
    refine traced_of_push hview hcall ?_ rfl
    have hstored := bufferContents_update s.queue.buffer (indexFromTicket ticket) (some ptr)
    rw [hslot] at hstored
    have hcontents : bufferContents (Function.update s.queue.buffer (indexFromTicket ticket)
        (some ptr)) = ptr ::ₘ s.queue.contents := by
      rw [← Multiset.singleton_add, add_comm]
      exact (add_zero _).symm.trans hstored
    show BagSpec _ _ _ (bufferContents _)
    rw [hcontents]
    exact .accept ptr (card_contents_lt hslot)
  | @collide j ptr retries ticket hpc hslot hretry =>
    obtain ⟨c, rfl, hview⟩ := hb.back (s := s) rfl rfl hkeep
    refine traced_of_silent hview (view_setProducer_of_activity c rfl ?_) rfl
    rw [hpc]
    rfl
  | @reject j ptr retries ticket hpc hslot hretry =>
    obtain ⟨c, rfl, hview⟩ := hb.back (s := s) rfl rfl hkeep
    have hcall : (s.producer j).activity = .pending (.push (some ptr)) := by
      rw [hpc]
      rfl
    exact traced_of_push hview hcall (.refuse _ _) rfl
  | _ => simp [Event.producer?] at hi

/-- **The steps of the consumer.** -/
theorem traced_consumer {s t : System ι Ptr} {e : Event ι Ptr}
    {b : AtomicObject (Option ι) (Multiset Ptr) (Request Ptr) (Return Ptr)}
    (hinv : ConsumerInv s) (h : Step s e t) (he : e.producer? = none) (hb : View t b) :
    Traced s e b := by
  have hplain : View s (s.view s.consumer.activity) := .plain
  cases h.transition with
  | popCall hidle =>
    rw [hidle] at hplain
    have hactivity : (s.view (Consumer.activity .idle)).activity none = .idle := rfl
    cases hb with
    | plain =>
      refine ⟨_, [.invoke none .pop], hplain, ?_, rfl⟩
      have hinvoke : AtomicObject.Step BagSpec (s.view (Consumer.activity .idle))
          (.invoke none .pop) ((s.view (Consumer.activity .idle)).setActivity none (.pending .pop)) :=
        .invoke .pop hactivity
      have hdone := view_setConsumer s s.queue (Consumer.activity .idle) (.pending .pop)
      exact hdone ▸ .single hinvoke
    | failing hpc hahead =>
      -- the pop has answered at once, so the bag was empty
      cases hpc
      have hnull : ∀ index, s.queue.buffer index = none := by
        intro index
        by_contra hslot
        exact absurd (dist_lt s.queue.head index) (Nat.not_lt.mpr (hahead index hslot))
      have hzero : s.queue.contents = 0 := contents_eq_zero hnull
      have hspec : BagSpec (s.view (Consumer.activity .idle)).obj .pop (.pop false none)
          s.queue.contents := by
        show BagSpec s.queue.contents _ _ s.queue.contents
        rw [hzero]
        exact .empty
      have hrun := AtomicObject.run_invoke_perform hactivity hspec
      rw [view_setConsumer s s.queue] at hrun
      exact ⟨_, _, hplain, hrun, rfl⟩
  | @miss retries hpc hslot hretry =>
    cases hb with
    | plain =>
      rw [hpc] at hplain
      exact traced_of_silent hplain rfl rfl
    | failing hpc' hahead =>
      cases hpc'
      refine traced_of_silent (s := s) (.failing hpc fun index hocc => ?_) rfl rfl
      -- the slot just loaded was empty: what is ahead of it came one nearer
      have hne : index ≠ s.queue.head := by
        rintro rfl
        exact hocc hslot
      have hnear := dist_succ_of_ne hne
      have hfar : capacity ≤ dist (s.queue.head + 1) index + (retries + 1) := hahead index hocc
      omega
  | @popEmpty retries hpc hslot hretry =>
    cases hb with
    | plain =>
      -- every slot within one lap of the call has been loaded
      have hview : View s (s.view (.answered (.pop false none))) := by
        refine .failing hpc fun index _ => ?_
        unfold popRetryLimit at hretry
        omega
      refine ⟨_, [.respond none (.pop false none)], hview, ?_, rfl⟩
      have hrespond : AtomicObject.Step BagSpec (s.view (.answered (.pop false none)))
          (.respond none (.pop false none))
          ((s.view (.answered (.pop false none))).setActivity none .idle) := .respond rfl
      have hdone := view_setConsumer s s.queue (.answered (.pop false none)) .idle
      exact hdone ▸ .single hrespond
    | failing hpc' => exact Consumer.noConfusion hpc'
  | @load retries ptr hpc hslot =>
    cases hb with
    | plain =>
      rw [hpc] at hplain
      exact traced_of_silent hplain rfl rfl
    | failing hpc' => exact Consumer.noConfusion hpc'
  | @deliver index hpc =>
    cases hb with
    | plain =>
      rw [hpc] at hplain
      obtain ⟨ptr, hptr⟩ := Option.ne_none_iff_exists'.mp (hinv.out index hpc)
      have hcleared := bufferContents_update s.queue.buffer index none
      rw [hinv.held index hpc, hptr] at hcleared
      have hcontents : s.queue.contents = ptr ::ₘ (s.queue.storeNull index).contents := by
        rw [← Multiset.singleton_add, add_comm]
        exact ((add_zero _).symm.trans hcleared.symm)
      have hspec : BagSpec (s.view (Consumer.activity (.clearing index))).obj .pop
          (.pop true (some ptr)) (s.queue.storeNull index).contents := by
        show BagSpec s.queue.contents _ _ _
        rw [hcontents]
        exact .take _ ptr
      have hrun := AtomicObject.run_perform_respond
        (a := s.view (Consumer.activity (.clearing index))) (t := none) rfl hspec
      rw [view_setConsumer s (s.queue.storeNull index)] at hrun
      rw [hptr]
      exact ⟨_, _, hplain, hrun, rfl⟩
    | failing hpc' => exact Consumer.noConfusion hpc'
  | _ => simp [Event.producer?] at he

/-- **One step**, from its end back to its start. -/
theorem view_back {s t : System ι Ptr} {e : Event ι Ptr}
    {b : AtomicObject (Option ι) (Multiset Ptr) (Request Ptr) (Return Ptr)}
    (hinv : ConsumerInv s) (h : Step s e t) (hb : View t b) : Traced s e b := by
  cases hi : e.producer? with
  | some i => exact traced_producer h hi hb
  | none => exact traced_consumer hinv h hi hb

-- ---------------------------------------------------------------------------
-- Main result
-- ---------------------------------------------------------------------------

/-- **Linearizability.** For every run from a fresh queue there is one order of
the calls, consistent with real time, in which a bag that serves them one at a
time gives the same returns. -/
theorem boundMPSC_linearizable {es : List (Event ι Ptr)} {s : System ι Ptr}
    (h : Run Step .init es s) :
    Linearizable BagSpec (0 : Multiset Ptr) (es.flatMap Event.history) := by
  obtain ⟨a, marks, ha, hrun, hshown⟩ := h.backward_simulation (I := ConsumerInv) (R := View)
    (fun _ _ _ hI hst => step_consumerInv hI hst) (fun _ _ _ _ hI hst hb => view_back hI hst hb)
    consumerInv_init View.plain
  rw [eq_start_of_view ha] at hrun
  exact ⟨marks, _, hrun, hshown⟩

/-- Two pushes overlap and the second publishes first; the pop delivers the
pointer of the first. -/
theorem boundMPSC_linearizable_overtaken :
    Linearizable BagSpec (0 : Multiset Nat)
      [.invoke (some (0 : Fin 2)) (.push (some 7)), .invoke (some 1) (.push (some 9)),
        .respond (some 1) (.push true), .respond (some 0) (.push true), .invoke none .pop,
        .respond none (.pop true (some 7))] := by
  have hrun := run_of_exec (s := (System.init : System (Fin 2) Nat))
    [.push 0 (some 7), .producer 0, .push 1 (some 9), .producer 1, .producer 1, .producer 0,
      .pop, .consumer, .consumer] rfl
  exact boundMPSC_linearizable hrun

end Destiny.Replay
