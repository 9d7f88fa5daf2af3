import Destiny.Foundation.LapOrder
import Destiny.Replay.Delivery

/-!
# BoundMPSC — in which order pointers come out

The queue is no fifo queue: which slot a pointer goes to is decided by a ticket
and by who holds the other slots, and the cursor visits the slots in their own
order. Two orders are kept nevertheless, under any interleaving:

* `slot_is_channel` — each slot is a fifo channel with room for one pointer.
* `scan_order`      — the cursor delivers what it finds in the order in which it
  comes by: of two waiting pointers the one it meets first leaves first, and the
  slots delivered in a run are met by the scan one after the other.
-/

namespace Destiny.Replay

open Foundation

variable {ι Ptr : Type*}

-- ---------------------------------------------------------------------------
-- One slot
-- ---------------------------------------------------------------------------

/-- What this event stores in slot `index`. -/
def Event.publishedTo (index : BitVec 16) : Event ι Ptr → List Ptr
  | .publish _ x ptr => if x = index then [ptr] else []
  | _ => []

/-- What this event delivers from slot `index`. -/
def Event.deliveredFrom (index : BitVec 16) : Event ι Ptr → List Ptr
  | .deliver x out => if x = index then out.toList else []
  | _ => []

variable [DecidableEq ι]

/-- A publication puts a pointer into its slot, which was empty; a delivery takes
the pointer of its slot. -/
theorem step_slot {s t : System ι Ptr} {e : Event ι Ptr} (hinv : ConsumerInv s) (h : Step s e t)
    (index : BitVec 16) :
    (s.queue.buffer index).toList ++ e.publishedTo index =
      e.deliveredFrom index ++ (t.queue.buffer index).toList := by
  rw [step_buffer h]
  cases e with
  | publish i x ptr =>
    have hnull := step_publish_null h
    by_cases hx : x = index
    · subst hx
      rw [hnull, Event.onBuffer, Function.update_self, Event.publishedTo, if_pos rfl]
      rfl
    · rw [Event.onBuffer, Function.update_of_ne (Ne.symm hx), Event.publishedTo, if_neg hx,
        List.append_nil]
      rfl
  | deliver x out =>
    obtain ⟨hpc, rfl⟩ := h.clearing_of_deliver
    by_cases hx : x = index
    · subst hx
      rw [hinv.held x hpc, Event.onBuffer, Function.update_self, Event.deliveredFrom, if_pos rfl]
      rfl
    · rw [Event.onBuffer, Function.update_of_ne (Ne.symm hx), Event.deliveredFrom, if_neg hx]
      exact List.append_nil _
  | _ => exact List.append_nil _

/-- **Each slot is a fifo channel.** In every run, what has been published to a
slot is, in this order, what has been delivered from it and what it holds. -/
theorem slot_is_channel {es : List (Event ι Ptr)} {s : System ι Ptr} (hrun : Run Step .init es s)
    (index : BitVec 16) :
    es.flatMap (Event.publishedTo index) =
      es.flatMap (Event.deliveredFrom index) ++ (s.queue.buffer index).toList :=
  hrun.channel (fun s => (s.queue.buffer index).toList) _ _
    (fun _ _ _ hinv hst => step_consumerInv hinv hst)
    (fun _ _ _ hinv hst => step_slot hinv hst index) consumerInv_init

-- ---------------------------------------------------------------------------
-- The scan
-- ---------------------------------------------------------------------------

/-- The slot in which this event finds a pointer. -/
def Event.foundAt : Event ι Ptr → List (BitVec 16)
  | .load index _ => [index]
  | _ => []

/-- The slot that this event delivers. -/
def Event.deliveredAt : Event ι Ptr → List (BitVec 16)
  | .deliver index _ => [index]
  | _ => []

/-- The slot whose pointer the consumer has in hand. -/
def Consumer.inHand : Consumer → List (BitVec 16)
  | .clearing index => [index]
  | _ => []

/-- What is found is delivered before anything else is found. -/
theorem step_inHand {s t : System ι Ptr} {e : Event ι Ptr} (h : Step s e t) :
    s.consumer.inHand ++ e.foundAt = e.deliveredAt ++ t.consumer.inHand := by
  cases h.transition with
  | popCall hpc | miss hpc | popEmpty hpc | load hpc | deliver hpc => rw [hpc]; rfl
  | _ => exact List.append_nil _

/-- The slots in which a run finds pointers are met by the scan one after the
other. -/
theorem run_found {s t : System ι Ptr} {es : List (Event ι Ptr)} (h : Run Step s es t) :
    ∃ ns : List Nat, ns.Pairwise (· < ·) ∧ (∀ n ∈ ns, n < loads es) ∧
      es.flatMap Event.foundAt = ns.map (lap s.queue.head) := by
  refine h.trace_invariant (P := fun es _ => ∃ ns : List Nat, ns.Pairwise (· < ·) ∧
    (∀ n ∈ ns, n < loads es) ∧ es.flatMap Event.foundAt = ns.map (lap s.queue.head)) ?_ ?_
  · exact ⟨[], .nil, List.forall_mem_nil _, rfl⟩
  · rintro es t e u hrun ⟨ns, hsorted, hlt, hfound⟩ hst
    have hmore : loads es ≤ loads (es ++ [e]) := by
      rw [loads, loads, List.countP_append]
      exact Nat.le_add_right _ _
    rw [List.flatMap_append, hfound]
    cases hst.transition with
    | load hpc hslot =>
      refine ⟨ns ++ [loads es], ?_, ?_, ?_⟩
      · rw [List.pairwise_append]
        refine ⟨hsorted, List.pairwise_singleton _ _, fun n hn m hm => ?_⟩
        rw [List.mem_singleton.mp hm]
        exact hlt n hn
      · rw [loads_snoc_load rfl, List.forall_mem_append, List.forall_mem_singleton]
        exact ⟨fun n hn => Nat.lt_succ_of_lt (hlt n hn), Nat.lt_succ_self _⟩
      · rw [List.map_append, run_head hrun]
        rfl
    | _ =>
      refine ⟨ns, hsorted, fun n hn => (hlt n hn).trans_le hmore, ?_⟩
      exact List.append_nil _

/-- Of two waiting pointers the one that the cursor meets first leaves first. -/
theorem nearer_delivered {s t u : System ι Ptr} {es : List (Event ι Ptr)} {x y : BitVec 16}
    {p q : Ptr} {out : Option Ptr} (hx : s.queue.buffer x = some p) (hy : s.queue.buffer y = some q)
    (hxfree : s.consumer ≠ .clearing x) (hyfree : s.consumer ≠ .clearing y)
    (hnear : dist s.queue.head x < dist s.queue.head y) (hrun : Run Step s es t)
    (hdeliver : Step t (.deliver y out) u) (hfirst : ∀ e ∈ es, ∀ out, e ≠ .deliver y out) :
    ∃ out, .deliver x out ∈ es := by
  by_contra hnever
  push Not at hnever
  have hpc := hdeliver.clearing_of_deliver.1
  have hopen : ∀ e ∈ es, ∀ out, e ≠ .deliver x out := by
    rintro e he out rfl
    exact hnever out he
  cases run_awaitsDelivery hy hyfree hrun hfirst with
  | waiting _ hfree _ => exact hfree hpc
  | loaded _ _ _ hloads =>
    cases run_awaitsDelivery hx hxfree hrun hopen with
    | waiting _ _ hloads' => omega
    | loaded _ _ _ hloads' => omega

/-- The first delivery of an occupied slot delivers the pointer that is in it. -/
theorem first_delivery {s t u : System ι Ptr} {es : List (Event ι Ptr)} {x : BitVec 16} {p : Ptr}
    {out : Option Ptr} (hx : s.queue.buffer x = some p) (hxfree : s.consumer ≠ .clearing x)
    (hrun : Run Step s es t) (hdeliver : Step t (.deliver x out) u)
    (hfirst : ∀ e ∈ es, ∀ out, e ≠ .deliver x out) : out = some p := by
  obtain ⟨hpc, rfl⟩ := hdeliver.clearing_of_deliver
  cases run_awaitsDelivery hx hxfree hrun hfirst with
  | waiting _ hfree _ => exact absurd hpc hfree
  | loaded _ _ hout _ => exact hout

/--
**The order of the scan.** From any reachable state and under any interleaving:

* if `x` and `y` are occupied, the cursor meets `x` first, and the consumer does
  not have the pointer of `y` in hand already, then no delivery of `y` comes
  before the pointer of `x` has been delivered;
* the slots delivered are met by the scan one after the other: apart from the one
  in hand at the start, and together with the one in hand at the end, they are
  the ones with the numbers `ns` in the scan.
-/
theorem scan_order {s t : System ι Ptr} {es : List (Event ι Ptr)} (hreach : Reachable Step .init s)
    (hrun : Run Step s es t) :
    (∀ x y p q pre out post, s.queue.buffer x = some p → s.queue.buffer y = some q →
      s.consumer ≠ .clearing y → dist s.queue.head x < dist s.queue.head y →
      es = pre ++ .deliver y out :: post → .deliver x (some p) ∈ pre) ∧
    ∃ ns : List Nat, ns.Pairwise (· < ·) ∧ (∀ n ∈ ns, n < loads es) ∧
      es.flatMap Event.deliveredAt ++ t.consumer.inHand =
        s.consumer.inHand ++ ns.map (lap s.queue.head) := by
  constructor
  · rintro x y p q pre out post hx hy hyfree hnear rfl
    have hxfree : s.consumer ≠ .clearing x := by
      -- the slot in hand is the one the cursor meets last
      intro hpc
      have hne : y ≠ x := by
        rintro rfl
        exact hyfree hpc
      have hfar := dist_add_one_lt hne
      have hlast : dist (x + 1) x = 2 ^ 16 - 1 := dist_succ_self x
      rw [(reachable_consumerInv hreach).head x hpc] at hnear
      omega
    obtain ⟨m, m', hpre, hdeliver, -⟩ := hrun.split_cons
    by_cases hgone : ∃ e ∈ pre, ∃ out, e = .deliver x out
    · obtain ⟨e, he, hex⟩ := hgone
      obtain ⟨before, f, m₁, m₂, after, rfl, ⟨out', rfl⟩, hfirst, hbefore, hstep, -⟩ :=
        hpre.split_first (P := fun e => ∃ out, e = .deliver x out) he hex
      have hout := first_delivery hx hxfree hbefore hstep fun e he out hout =>
        hfirst e he ⟨out, hout⟩
      rw [hout]
      exact List.mem_append_right _ (List.mem_cons_self ..)
    · obtain ⟨before, f, m₁, m₂, after, hes, ⟨out', rfl⟩, hfirst, hbefore, hstep, -⟩ :=
        (hpre.snoc hdeliver).split_first (P := fun e => ∃ out, e = .deliver y out)
          (List.mem_append_right _ (List.mem_singleton_self _)) ⟨out, rfl⟩
      obtain ⟨out'', hmem⟩ := nearer_delivered hx hy hxfree hyfree hnear hbefore hstep
        fun e he out hout => hfirst e he ⟨out, hout⟩
      have hmem' : .deliver x out'' ∈ pre ++ [.deliver y out] := by
        rw [hes]
        exact List.mem_append_left _ hmem
      rcases List.mem_append.mp hmem' with hold | hlast
      · exact absurd ⟨_, hold, out'', rfl⟩ hgone
      · obtain ⟨rfl, -⟩ := Event.deliver.inj (List.mem_singleton.mp hlast)
        exact absurd hnear (Nat.lt_irrefl _)
  · obtain ⟨ns, hsorted, hlt, hfound⟩ := run_found hrun
    refine ⟨ns, hsorted, hlt, ?_⟩
    rw [← hfound]
    exact (hrun.channel (I := fun _ => True) (fun s => s.consumer.inHand) Event.foundAt
      Event.deliveredAt (fun _ _ _ _ _ => trivial) (fun _ _ _ _ hst => step_inHand hst)
      trivial).symm

/-- Slot 0 has held 7 and holds nothing after one push and one pop. -/
theorem slot_is_channel_popped :
    ∃ (es : List (Event (Fin 2) Nat)) (s : System (Fin 2) Nat), Run Step .init es s ∧
      es.flatMap (Event.deliveredFrom 0) = [7] ∧
      es.flatMap (Event.publishedTo 0) =
        es.flatMap (Event.deliveredFrom 0) ++ (s.queue.buffer 0).toList := by
  have hrun := run_of_exec (s := (System.init : System (Fin 2) Nat))
    [.push 0 (some 7), .producer 0, .producer 0, .pop, .consumer, .consumer] rfl
  exact ⟨_, _, hrun, rfl, slot_is_channel hrun 0⟩

/-- Two producers have published to slots 0 and 256, and the cursor stands at slot 0: the first
`pop` delivers 7, the second one passes 255 null slots and delivers 9. -/
theorem scan_order_two_slots :
    ∃ (s t : System (Fin 2) Nat) (pre : List (Event (Fin 2) Nat)),
      Reachable Step .init s ∧ s.queue.head = 0 ∧ s.queue.buffer 0 = some 7 ∧
      s.queue.buffer 256 = some 9 ∧ Run Step s (pre ++ [.deliver 256 (some 9)]) t ∧
      .deliver 0 (some 7) ∈ pre ∧
      ∃ ns : List Nat, ns.Pairwise (· < ·) ∧
        (∀ n ∈ ns, n < loads (pre ++ [.deliver 256 (some 9)])) ∧
        [0, 256] = ns.map (lap (0 : BitVec 16)) := by
  obtain ⟨s, m, hreach, hpop, hhead, hconsumer, hzero, hnine, hpc, hhead', hbuf⟩ :
      ∃ s m : System (Fin 2) Nat, Reachable Step .init s ∧
      Run Step s [.popCall, .load 0 7, .deliver 0 (some 7), .popCall] m ∧
      s.queue.head = 0 ∧ s.consumer = .idle ∧
      s.queue.buffer 0 = some 7 ∧ s.queue.buffer 256 = some 9 ∧
      m.consumer = .scanning 0 ∧ m.queue.head = 1 ∧
      m.queue.buffer = Function.update (Function.update (Function.update (fun _ => none) 256
        (some 9)) 0 (some 7)) 0 none :=
    ⟨_, _, ⟨_, run_of_exec [.push 0 (some 7), .push 1 (some 9), .producer 0, .producer 1,
      .producer 1, .producer 0] rfl⟩, run_of_exec [.pop, .consumer, .consumer, .pop] rfl,
      rfl, rfl, rfl, rfl, rfl, rfl, rfl⟩
  -- between slot 1 and slot 256 there is nothing
  have hnull : ∀ k < 255, m.queue.buffer (lap m.queue.head k) = none := by
    intro k hk
    have hfirst : lap (1 : BitVec 16) k ≠ 0 := fun h => by
      have hlast : lap (1 : BitVec 16) 65535 = 0 := rfl
      have := lap_injOn (by omega) (by decide) (h.trans hlast.symm)
      omega
    have hsecond : lap (1 : BitVec 16) k ≠ 256 := fun h => by
      have hlast : lap (1 : BitVec 16) 255 = 256 := rfl
      have := lap_injOn (by omega) (by decide) (h.trans hlast.symm)
      omega
    rw [hhead', hbuf, Function.update_of_ne hfirst, Function.update_of_ne hfirst,
      Function.update_of_ne hsecond]
  obtain ⟨fs, v, hscan, -, hmiss, hpc', hqueue⟩ := nullScan_run 255 hpc hnull (by decide)
  have hhead'' : v.queue.head = 256 := by
    rw [hqueue, hhead']
    rfl
  have hslot : v.queue.buffer v.queue.head = some 9 := by
    rw [hhead'', hqueue, hbuf]
    rfl
  obtain ⟨w, hload, hclearing, hout⟩ : ∃ w, Step v (.load 256 9) w ∧
      w.consumer = .clearing 256 ∧ w.out = some 9 := by
    rw [← hhead'']
    exact ⟨_, (Transition.load hpc' hslot).step, rfl, rfl⟩
  obtain ⟨t, hdeliver, hidle⟩ : ∃ t, Step w (.deliver 256 (some 9)) t ∧ t.consumer = .idle := by
    rw [← hout]
    exact ⟨_, (Transition.deliver hclearing).step, rfl⟩
  have hrun := ((hpop.append hscan).snoc hload).snoc hdeliver
  obtain ⟨hfirst, ns, hsorted, hlt, hslots⟩ := scan_order hreach hrun
  have hmem := hfirst 0 256 7 9 _ (some 9) [] hzero hnine (by simp [hconsumer])
    (by rw [hhead]; decide) rfl
  have hmisses : fs.flatMap Event.deliveredAt = [] := List.flatMap_eq_nil_iff.mpr fun e he => by
    obtain ⟨index, rfl⟩ := hmiss e he
    rfl
  refine ⟨s, t, _, hreach, hhead, hzero, hnine, hrun, hmem, ns, hsorted, hlt, ?_⟩
  rw [hidle, hconsumer, hhead, List.flatMap_append, List.flatMap_append, List.flatMap_append,
    hmisses] at hslots
  exact hslots

end Destiny.Replay
