import Destiny.Replay.Sequential

/-!
# BoundMPSC — what a push probes

A push draws tickets until one addresses an empty slot, `pushRetryLimit + 1`
at most. Alone, it is decided by the slots of that many next tickets and by
nothing else.

* `undisturbed_push`       — result and effect of a push during which nobody
  else makes a step.
* `push_false_iff`         — it fails iff the whole window is occupied.
* `BoundMPSC.filled`       — an empty queue after a batch of pushes, in closed form.
* `sequential_push_window` — in sequential runs: a full queue rejects, and after
  a pop from a full queue the next push succeeds iff the freed slot is in the
  window.
* `rejected_below_capacity` — a sequential run whose last push is rejected
  although a slot is free.
-/

namespace Destiny.Replay

open Foundation

variable {ι Ptr : Type*}

-- ---------------------------------------------------------------------------
-- One push
-- ---------------------------------------------------------------------------

/-- **Exact effect of an undisturbed push.** -/
theorem undisturbed_push [DecidableEq ι] {s : System ι Ptr} {i : ι} (hidle : s.producer i = .idle)
    (p : Ptr) (result : Bool) (t : System ι Ptr) :
    (∀ k < 513, (∀ j < k, s.queue.buffer (s.queue.ticketSlot j) ≠ none) →
      s.queue.buffer (s.queue.ticketSlot k) = none →
      (PushAlone s i (some p) result t ↔ result = true ∧ t = { s with queue := { s.queue with
        ticket := lap s.queue.ticket (k + 1)
        buffer := Function.update s.queue.buffer (s.queue.ticketSlot k) (some p) } })) ∧
    ((∀ k < 513, s.queue.buffer (s.queue.ticketSlot k) ≠ none) →
      (PushAlone s i (some p) result t ↔ result = false ∧
        t = { s with queue := { s.queue with ticket := lap s.queue.ticket 513 } })) ∧
    (PushAlone s i none result t ↔ result = false ∧ t = s) := by
  refine ⟨?_, ?_, ?_⟩
  · intro k hk hbusy hfree
    rw [pushAlone_iff hidle, BoundMPSC.push_success p (Nat.le_of_lt_succ hk) hbusy hfree]
  · intro hbusy
    rw [pushAlone_iff hidle,
      BoundMPSC.push_failure p fun j hj => hbusy j (Nat.lt_succ_of_le hj)]
    rfl
  · rw [pushAlone_iff hidle]
    rfl

/-- At the wrap of the counter the second ticket finds a free slot; in a full
queue no ticket does; a null pointer draws none. -/
theorem undisturbed_push_wrap :
    PushAlone { (System.init : System (Fin 2) Nat) with
        queue := ⟨65535, 3, Function.update (fun _ => none) 65535 (some 1)⟩ } 0 (some 7) true
      { System.init with queue := ⟨1, 3,
        Function.update (Function.update (fun _ => none) 65535 (some 1)) 0 (some 7)⟩ } ∧
    PushAlone { (System.init : System (Fin 2) Nat) with queue := ⟨0, 3, fun _ => some 1⟩ } 1 (some 7)
      false { System.init with queue := ⟨513, 3, fun _ => some 1⟩ } ∧
    PushAlone (System.init : System (Fin 2) Nat) 0 none false System.init := by
  refine ⟨?_, ?_, ?_⟩
  · exact ((undisturbed_push rfl 7 true _).1 1 (by decide) (by decide) (by decide)).mpr ⟨rfl, rfl⟩
  · exact ((undisturbed_push rfl 7 false _).2.1 (fun _ _ => Option.some_ne_none _)).mpr ⟨rfl, rfl⟩
  · exact (undisturbed_push rfl 7 false _).2.2.mpr ⟨rfl, rfl⟩

namespace BoundMPSC

/-- **A push fails iff its window is full.** -/
theorem push_false_iff (q : BoundMPSC Ptr) (p : Ptr) :
    (q.push (some p)).1 = false ↔ q.WindowFull := by
  rcases q.push_cases p with ⟨k, hk, -, hfree, hpush⟩ | ⟨hfull, hpush⟩
  · rw [hpush]
    exact iff_of_false Bool.true_eq_false_eq_False fun hfull => hfull k hk hfree
  · rw [hpush]
    exact iff_of_true rfl hfull

theorem push_true_iff (q : BoundMPSC Ptr) (p : Ptr) :
    (q.push (some p)).1 = true ↔ ∃ k < 513, q.buffer (q.ticketSlot k) = none := by
  rw [← Bool.not_eq_false, push_false_iff, WindowFull]
  simp only [not_forall, not_not, exists_prop]
  rfl

/-- A pop from a full queue frees the slot under the cursor. -/
theorem pop_of_full {q : BoundMPSC Ptr} (out : Option Ptr) (hfull : ∀ index, q.buffer index ≠ none) :
    ∃ p, q.buffer q.head = some p ∧ q.pop out = (true, ({ q with
      head := q.head + 1
      buffer := Function.update q.buffer q.head none }, some p)) := by
  obtain ⟨p, hp⟩ := Option.ne_none_iff_exists'.mp (hfull q.head)
  have hslot : q.buffer (q.headSlot 0) = some p := by rw [headSlot, lap_zero, hp]
  refine ⟨p, hp, ?_⟩
  rw [pop_success out (Nat.zero_le _) (fun j hj => absurd hj (Nat.not_lt_zero j)) hslot, lap_succ,
    headSlot, lap_zero]

/-- After a pop from a full queue there is one free slot for the next push. -/
theorem push_after_pop_of_full {q : BoundMPSC Ptr} (out : Option Ptr) (p : Ptr)
    (hfull : ∀ index, q.buffer index ≠ none) :
    ((q.pop out).2.1.push (some p)).1 = true ↔ ∃ k < 513, q.ticketSlot k = q.head := by
  obtain ⟨old, -, hpop⟩ := pop_of_full out hfull
  rw [hpop, push_true_iff]
  show (∃ k < 513, Function.update q.buffer q.head none (q.ticketSlot k) = none) ↔ _
  have hfree : ∀ x, Function.update q.buffer q.head none x = none ↔ x = q.head := by
    intro x
    by_cases hx : x = q.head
    · rw [hx, Function.update_self]
      simp
    · rw [Function.update_of_ne hx]
      simp [hfull x, hx]
  simp only [hfree]

end BoundMPSC

-- ---------------------------------------------------------------------------
-- Sequential runs
-- ---------------------------------------------------------------------------

theorem CallStep.eq_of_push {q q' : BoundMPSC Ptr} {ptr : Option Ptr} {b : Bool}
    (h : CallStep q (.push ptr b) q') : b = (q.push ptr).1 ∧ q' = (q.push ptr).2 := by
  cases h with
  | push => exact ⟨rfl, rfl⟩

theorem CallStep.eq_of_pop {q q' : BoundMPSC Ptr} {b : Bool} {out : Option Ptr}
    (h : CallStep q (.pop b out) q') : ∃ ptr, q.pop ptr = (b, (q', out)) := by
  cases h with
  | pop ptr => exact ⟨ptr, rfl⟩

/-- A push that returned true. -/
def Call.isAccepted : Call Ptr → Bool
  | .push _ result => result
  | .pop _ _ => false

/-- A pop that returned true. -/
def Call.isDelivered : Call Ptr → Bool
  | .push _ _ => false
  | .pop result _ => result

/-- A call fills one slot if it is accepted and frees one if it delivers. -/
theorem CallStep.occupied {q q' : BoundMPSC Ptr} {c : Call Ptr} (h : CallStep q c q') :
    q'.occupied.card + (if c.isDelivered then 1 else 0) =
      q.occupied.card + if c.isAccepted then 1 else 0 := by
  -- the sums are simplified by `add_zero`: by definition they would unfold the cardinals
  cases h with
  | push ptr =>
    simp only [Call.isDelivered, Call.isAccepted, Bool.false_eq_true, if_false, add_zero]
    cases ptr with
    | none =>
      have hpush : q.push none = (false, q) := rfl
      simp only [hpush, Bool.false_eq_true, if_false, add_zero]
    | some p =>
      rcases q.push_cases p with ⟨k, -, -, hfree, hpush⟩ | ⟨-, hpush⟩
      · simp only [hpush, if_true]
        exact BoundMPSC.card_occupied_store hfree rfl
      · simp only [hpush, Bool.false_eq_true, if_false, add_zero]
        rw [BoundMPSC.occupied_congr]
        rfl
  | pop ptr =>
    simp only [Call.isDelivered, Call.isAccepted, Bool.false_eq_true, if_false, add_zero]
    rcases q.pop_cases ptr with ⟨k, p, -, -, hslot, hpop⟩ | ⟨-, hpop⟩
    · simp only [hpop, if_true]
      exact BoundMPSC.card_occupied_clear (by rw [hslot]; exact Option.some_ne_none p) rfl
    · simp only [hpop, Bool.false_eq_true, if_false, add_zero]
      rw [BoundMPSC.occupied_congr]
      rfl

/-- **Occupancy in sequential runs.** -/
theorem run_calls_occupied {cs : List (Call Ptr)} {q : BoundMPSC Ptr}
    (h : Run CallStep BoundMPSC.empty cs q) :
    q.occupied.card + cs.countP Call.isDelivered = cs.countP Call.isAccepted := by
  have hcount := h.balance_count (I := fun _ => True) (fun q => q.occupied.card) Call.isAccepted
    Call.isDelivered (fun _ _ _ _ _ => trivial) (fun _ _ _ _ hst => hst.occupied) trivial
  have hstart : (BoundMPSC.empty : BoundMPSC Ptr).occupied = ∅ := by
    apply Finset.eq_empty_of_forall_notMem
    intro x hx
    exact BoundMPSC.mem_occupied.mp hx rfl
  rwa [hstart, Finset.card_empty, Nat.zero_add] at hcount

/-- The slots of a full window are distinct. -/
theorem BoundMPSC.WindowFull.card_le {q : BoundMPSC Ptr} (h : q.WindowFull) :
    pushRetryLimit + 1 ≤ q.occupied.card := by
  have hcap : pushRetryLimit + 1 ≤ capacity := by decide
  have hsub : (Finset.range (pushRetryLimit + 1)).image q.ticketSlot ⊆ q.occupied := by
    intro x hx
    obtain ⟨k, hk, rfl⟩ := Finset.mem_image.mp hx
    exact mem_occupied.mpr (h k (Finset.mem_range.mp hk))
  have hcard : ((Finset.range (pushRetryLimit + 1)).image q.ticketSlot).card =
      pushRetryLimit + 1 := by
    rw [Finset.card_image_of_injOn, Finset.card_range]
    intro j hj k hk heq
    rw [Finset.mem_coe, Finset.mem_range] at hj hk
    exact ticketSlot_injOn (hj.trans_le hcap) (hk.trans_le hcap) heq
  exact hcard ▸ Finset.card_le_card hsub

-- ---------------------------------------------------------------------------
-- Filling
-- ---------------------------------------------------------------------------

namespace BoundMPSC

/-- The queue, had it been empty, after the pointers were pushed one by one: the
`k`-th is in the slot of the `k`-th ticket. -/
def filled (q : BoundMPSC Ptr) (ptrs : List Ptr) : BoundMPSC Ptr where
  ticket := lap q.ticket ptrs.length
  head := q.head
  buffer index := ptrs[dist q.ticket (indexFromTicket index)]?

theorem filled_nil {q : BoundMPSC Ptr} (h : ∀ index, q.buffer index = none) : q.filled [] = q := by
  have hbuffer : q.buffer = fun _ => none := funext h
  rw [filled, List.length_nil, lap_zero]
  show BoundMPSC.mk q.ticket q.head (fun _ => none) = q
  rw [← hbuffer]

/-- The next ticket of a batch addresses an empty slot. -/
theorem push_filled (q : BoundMPSC Ptr) (ptr : Ptr) {ptrs : List Ptr}
    (h : ptrs.length < capacity) :
    (q.filled ptrs).push (some ptr) = (true, q.filled (ptrs ++ [ptr])) := by
  have hslot : (q.filled ptrs).ticketSlot 0 = indexFromTicket (lap q.ticket ptrs.length) := by
    rw [ticketSlot, lap_zero, filled]
  have hdist : dist q.ticket (lap q.ticket ptrs.length) = ptrs.length := dist_lap h
  have hfree : (q.filled ptrs).buffer ((q.filled ptrs).ticketSlot 0) = none := by
    rw [hslot]
    show ptrs[dist q.ticket (indexFromTicket (indexFromTicket _))]? = none
    rw [indexFromTicket_indexFromTicket, hdist]
    exact List.getElem?_eq_none (Nat.le_refl _)
  rw [push_success ptr (Nat.zero_le _) (fun j hj => absurd hj (Nat.not_lt_zero j)) hfree, hslot]
  refine congrArg (Prod.mk true) ?_
  show BoundMPSC.mk (lap (lap q.ticket ptrs.length) 1) q.head (Function.update
    (fun index => ptrs[dist q.ticket (indexFromTicket index)]?) _ _) =
      BoundMPSC.mk (lap q.ticket (ptrs ++ [ptr]).length) q.head fun index =>
        (ptrs ++ [ptr])[dist q.ticket (indexFromTicket index)]?
  rw [lap_lap, List.length_append, List.length_singleton]
  congr 1
  funext index
  by_cases hindex : index = indexFromTicket (lap q.ticket ptrs.length)
  · rw [hindex, Function.update_self, indexFromTicket_indexFromTicket, hdist,
      List.getElem?_concat_length]
  · -- another slot belongs to another ticket
    have hne : dist q.ticket (indexFromTicket index) ≠ ptrs.length := by
      intro heq
      rw [← heq, lap_dist, indexFromTicket_indexFromTicket] at hindex
      exact hindex rfl
    rw [Function.update_of_ne hindex]
    rcases Nat.lt_or_gt_of_ne hne with hlt | hgt
    · rw [List.getElem?_append_left hlt]
    · rw [List.getElem?_eq_none hgt.le, List.getElem?_eq_none]
      rw [List.length_append, List.length_singleton]
      exact hgt

/-- An empty queue takes a push for each of the pointers, up to the capacity. -/
theorem filled_run {q : BoundMPSC Ptr} (hempty : ∀ index, q.buffer index = none) {ptrs : List Ptr}
    (h : ptrs.length ≤ capacity) :
    Run CallStep q (ptrs.map fun ptr => .push (some ptr) true) (q.filled ptrs) := by
  induction ptrs using List.reverseRecOn with
  | nil =>
    rw [filled_nil hempty]
    exact .nil q
  | append_singleton ptrs ptr ih =>
    rw [List.length_append, List.length_singleton] at h
    have hpush := CallStep.push (q.filled ptrs) (some ptr)
    rw [push_filled q ptr h] at hpush
    rw [List.map_append]
    exact (ih (Nat.le_of_succ_le h)).snoc hpush

end BoundMPSC

/-- A fresh queue after `capacity` pushes of `p`. -/
theorem full_queue_run (p : Ptr) : ∃ q : BoundMPSC Ptr,
    Run CallStep BoundMPSC.empty (List.replicate capacity (.push (some p) true)) q ∧
      (∀ index, q.buffer index = some p) ∧ q.ticket = 0 ∧ q.head = 0 := by
  have hlength : (List.replicate capacity p).length ≤ capacity := List.length_replicate.le
  have hrun := BoundMPSC.filled_run (q := BoundMPSC.empty) (fun _ => rfl) hlength
  rw [List.map_replicate] at hrun
  refine ⟨_, hrun, fun index => ?_, ?_, rfl⟩
  · exact List.getElem?_replicate_of_lt (dist_lt _ _)
  · show lap 0 (List.replicate capacity p).length = 0
    rw [List.length_replicate]
    exact lap_two_pow 0

-- ---------------------------------------------------------------------------
-- Main result
-- ---------------------------------------------------------------------------

/-- **Rejections in sequential runs.** A push is rejected iff the slots of the
next 513 tickets are all occupied: always if the queue is full, and only if 513
accepted pointers are undelivered. After a pop from a full queue the next push
succeeds iff the freed slot is one of those. -/
theorem sequential_push_window {cs : List (Call Ptr)} {q : BoundMPSC Ptr}
    (hrun : Run CallStep BoundMPSC.empty cs q) :
    (∀ p b q', CallStep q (.push (some p) b) q' →
      (b = false ↔ ∀ k < 513, q.buffer (q.ticketSlot k) ≠ none) ∧
      ((∀ index, q.buffer index ≠ none) → b = false) ∧
      (b = false → cs.countP Call.isDelivered + 513 ≤ cs.countP Call.isAccepted)) ∧
    (∀ ok out q₁ p b q₂, (∀ index, q.buffer index ≠ none) → CallStep q (.pop ok out) q₁ →
      CallStep q₁ (.push (some p) b) q₂ → (b = true ↔ ∃ k < 513, q.ticketSlot k = q.head)) := by
  constructor
  · intro p b q' hpush
    obtain ⟨rfl, -⟩ := hpush.eq_of_push
    have hiff := q.push_false_iff p
    refine ⟨hiff, fun hfull => hiff.mpr fun k _ => hfull _, fun hfalse => ?_⟩
    have hcard := (hiff.mp hfalse).card_le
    have hcount := run_calls_occupied hrun
    have hlimit : pushRetryLimit + 1 = 513 := rfl
    omega
  · intro ok out q₁ p b q₂ hfull hpop hpush
    obtain ⟨ptr, hq₁⟩ := hpop.eq_of_pop
    obtain ⟨rfl, -⟩ := hpush.eq_of_push
    rw [← q.push_after_pop_of_full ptr p hfull, hq₁]

/-- A fresh queue that has been filled rejects; after a pop the next push finds the freed slot. -/
theorem sequential_push_window_filled :
    ∃ q : BoundMPSC Nat,
      Run CallStep BoundMPSC.empty (List.replicate capacity (.push (some 7) true)) q ∧
      (∀ b q', CallStep q (.push (some 7) b) q' → b = false) ∧
      ∃ q₁ q₂ : BoundMPSC Nat, CallStep q (.pop true (some 7)) q₁ ∧
        CallStep q₁ (.push (some 7) true) q₂ := by
  obtain ⟨q, hfill, hbuffer, hticket, hhead⟩ := full_queue_run 7
  have hfull : ∀ index, q.buffer index ≠ none := by simp [hbuffer]
  obtain ⟨hpush, hafter⟩ := sequential_push_window hfill
  obtain ⟨p, hp, hpop⟩ := BoundMPSC.pop_of_full none hfull
  obtain rfl : p = 7 := Option.some.inj (hp.symm.trans (hbuffer _))
  have hpopped := CallStep.pop q none
  have hpushed := CallStep.push (q.pop none).2.1 (some 7)
  have hslot : q.ticketSlot 0 = q.head := by
    rw [BoundMPSC.ticketSlot, hticket, lap_zero, hhead]
    decide
  have htrue := (hafter _ _ _ _ _ _ hfull hpopped hpushed).mpr ⟨0, by decide, hslot⟩
  rw [htrue] at hpushed
  rw [hpop] at hpopped hpushed
  exact ⟨q, hfill, fun b q' h => (hpush 7 b q' h).2.1 hfull, _, _, hpopped, hpushed⟩

/-- Sequential calls that end in a rejection although a slot is free: the queue
is filled, a push is rejected and moves the window, a pop frees a slot that the
next window does not reach. -/
theorem rejected_below_capacity :
    ∃ q q' : BoundMPSC Nat,
      Run CallStep BoundMPSC.empty (List.replicate capacity (.push (some 7) true) ++
        [.push (some 7) false, .pop true (some 7)]) q ∧
      CallStep q (.push (some 7) false) q' ∧ ¬ ∀ index, q.buffer index ≠ none := by
  obtain ⟨q₀, hfill, hbuffer, hticket₀, hhead⟩ := full_queue_run 7
  have hfull : ∀ index, q₀.buffer index ≠ none := by simp [hbuffer]
  -- the rejection takes 513 tickets
  obtain ⟨q, hreject, hsame, hticket, hhead⟩ : ∃ q, CallStep q₀ (.push (some 7) false) q ∧
      q.buffer = q₀.buffer ∧ q.ticket = lap 0 513 ∧ q.head = 0 := by
    have hpush := CallStep.push q₀ (some 7)
    rw [BoundMPSC.push_failure 7 fun j _ => hfull _] at hpush
    exact ⟨_, hpush, rfl, congrArg (lap · 513) hticket₀, hhead⟩
  rw [← hsame] at hbuffer hfull
  -- ticket 0 addresses the freed slot and is a lap away
  have hmiss : ¬ ∃ k < 513, q.ticketSlot k = q.head := by
    rintro ⟨k, hk, hslot⟩
    rw [BoundMPSC.ticketSlot, hticket, hhead, lap_lap] at hslot
    have hzero : lap (0 : BitVec 16) (513 + k) = lap 0 0 :=
      indexFromTicket_injective (hslot.trans (by decide))
    have := lap_injOn (by omega) (by decide) hzero
    omega
  obtain ⟨p, hp, hpop⟩ := BoundMPSC.pop_of_full none hfull
  obtain rfl : p = 7 := Option.some.inj (hp.symm.trans (hbuffer _))
  have hpopped := CallStep.pop q none
  rw [hpop] at hpopped
  have hlast : ((q.pop none).2.1.push (some 7)).1 = false :=
    Bool.not_eq_true _ ▸ fun htrue => hmiss ((q.push_after_pop_of_full none 7 hfull).mp htrue)
  have hrejected := CallStep.push (q.pop none).2.1 (some 7)
  rw [hlast, hpop] at hrejected
  refine ⟨_, _, hfill.append (.cons hreject (.single hpopped)), hrejected, fun hall => ?_⟩
  exact hall q.head (Function.update_self ..)

end Destiny.Replay
