import Destiny.Replay.EmptyPop

/-!
# BoundMPSC — no published pointer is starved

Delivery is not first-in first-out, and the slots around the cursor are
refilled all the time. What bounds the delay of a published pointer is the
cursor: nobody but the consumer can clear the slot, and the cursor reaches the
slot within one lap.

* `AwaitsDelivery`  — the pointer in its slot, the cursor on its way; or the
  pointer in the consumer's hands.
* `run_delivers`    — deliveries are paid for by loads, except for one that may
  be pending at the start.
* `published_pointer_is_delivered` — the bounds on loads and on overtaking.
-/

namespace Destiny.Replay

open Foundation

variable {ι Ptr : Type*}

-- ---------------------------------------------------------------------------
-- The way of one pointer
-- ---------------------------------------------------------------------------

/-- After the events `es` from `s`, none of which delivers `index`: the
pointer waits in its slot for the cursor, or the consumer has loaded it. -/
inductive AwaitsDelivery (s : System ι Ptr) (index : BitVec 16) (ptr : Ptr)
    (es : List (Event ι Ptr)) (t : System ι Ptr) : Prop
  | waiting (hslot : t.queue.buffer index = some ptr) (hfree : t.consumer ≠ .clearing index)
      (hloads : loads es ≤ dist s.queue.head index)
  | loaded (hslot : t.queue.buffer index = some ptr) (hpc : t.consumer = .clearing index)
      (hout : t.out = some ptr) (hloads : loads es = dist s.queue.head index + 1)

variable [DecidableEq ι]

/-- The consumer does not get to a slot without loading it. -/
theorem step_consumer_clearing {s t : System ι Ptr} {e : Event ι Ptr} {index : BitVec 16}
    (h : Step s e t) (hpc : t.consumer = .clearing index) :
    (s.consumer = .clearing index ∧ e.isLoad = false ∧ t.out = s.out) ∨
      ∃ ptr, e = .load index ptr ∧ index = s.queue.head ∧ s.queue.buffer index = some ptr ∧
        t.out = some ptr := by
  cases h.transition with
  | popCall | miss | popEmpty | deliver => simp at hpc
  | load hpc' hslot =>
    simp only [Consumer.clearing.injEq] at hpc
    subst hpc
    exact Or.inr ⟨_, rfl, rfl, hslot, rfl⟩
  | _ => exact Or.inl ⟨hpc, rfl, rfl⟩

theorem step_awaitsDelivery {s t u : System ι Ptr} {es : List (Event ι Ptr)} {e : Event ι Ptr}
    {index : BitVec 16} {ptr : Ptr} (hhead : t.queue.head = lap s.queue.head (loads es))
    (hwait : AwaitsDelivery s index ptr es t) (hstep : Step t e u)
    (hopen : ∀ out, e ≠ .deliver index out) : AwaitsDelivery s index ptr (es ++ [e]) u := by
  have hlt : dist s.queue.head index < 2 ^ 16 := dist_lt _ _
  cases hwait with
  | waiting hslot hfree hloads =>
    have hkeep := step_buffer_keep hstep hslot hopen
    by_cases hpc : u.consumer = .clearing index
    · -- the cursor has arrived
      rcases step_consumer_clearing hstep hpc with ⟨hpc', -⟩ | ⟨ptr', rfl, hindex, hslot', hout⟩
      · exact absurd hpc' hfree
      · have hat : loads es = dist s.queue.head index := by
          rw [hindex, hhead, dist_lap (by omega)]
        have hptr : ptr' = ptr := by simpa [hslot'] using hslot
        refine .loaded hkeep hpc (by rw [hout, hptr]) ?_
        rw [loads_snoc_load rfl, hat]
    · refine .waiting hkeep hpc ?_
      by_cases hload : e.isLoad = true
      · -- the slot just loaded is another one: this one would have been found
        have hne : loads es ≠ dist s.queue.head index := by
          intro heq
          have hindex : index = t.queue.head := by rw [hhead, heq, lap_dist]
          cases hstep.transition with
          | miss _ hnull | popEmpty _ hnull => simp [← hindex, hslot] at hnull
          | load => exact hpc (by rw [hindex])
          | _ => simp [Event.isLoad, Event.load?] at hload
        rw [loads_snoc_load hload]
        omega
      · rw [Bool.not_eq_true] at hload
        rwa [loads_snoc_other hload]
  | loaded hslot hpc hout hloads =>
    have hkeep := step_buffer_keep hstep hslot hopen
    have haccess : e.isConsumerAccess = false := by
      cases hstep.transition with
      | miss hpc' | popEmpty hpc' | load hpc' => simp [hpc'] at hpc
      | @deliver index' hpc' =>
        obtain rfl : index' = index := by simpa [hpc'] using hpc
        exact absurd rfl (hopen t.out)
      | _ => rfl
    obtain ⟨hsame, hload, -⟩ := step_consumer_frame hstep (by simp [hpc]) haccess
    have hpc' : u.consumer = .clearing index := hsame.trans hpc
    rcases step_consumer_clearing hstep hpc' with ⟨-, -, hkeepout⟩ | ⟨_, rfl, -⟩
    · exact .loaded hkeep hpc' (hkeepout.trans hout) (by rw [loads_snoc_other hload, hloads])
    · simp [Event.isConsumerAccess] at haccess

/-- **The way of one pointer.** -/
theorem run_awaitsDelivery {s t : System ι Ptr} {es : List (Event ι Ptr)} {index : BitVec 16}
    {ptr : Ptr} (hslot : s.queue.buffer index = some ptr) (hfree : s.consumer ≠ .clearing index)
    (h : Run Step s es t) (hopen : ∀ e ∈ es, ∀ out, e ≠ .deliver index out) :
    AwaitsDelivery s index ptr es t := by
  refine h.trace_invariant (P := fun es t => (∀ e ∈ es, ∀ out, e ≠ .deliver index out) →
    AwaitsDelivery s index ptr es t) ?_ ?_ hopen
  · intro _
    exact .waiting hslot hfree (Nat.zero_le _)
  · intro es t e u hrun ih hstep hopen
    have hwait := ih fun f hf => hopen f (List.mem_append_left _ hf)
    exact step_awaitsDelivery (run_head hrun) hwait hstep (hopen e (by simp))

-- ---------------------------------------------------------------------------
-- Counting deliveries
-- ---------------------------------------------------------------------------

/-- Is a delivery pending: loaded and not yet cleared? -/
def pending (s : System ι Ptr) : Nat :=
  match s.consumer with
  | .clearing _ => 1
  | _ => 0

theorem step_delivers {s t : System ι Ptr} {e : Event ι Ptr} (h : Step s e t) :
    (if e.isDeliver then 1 else 0) + pending t ≤ (if e.isLoad then 1 else 0) + pending s := by
  cases h.transition with
  | popCall hidle => simp [pending, hidle, Event.isDeliver, Event.isLoad, Event.load?]
  | miss hpc | popEmpty hpc | load hpc | deliver hpc =>
    simp [pending, hpc, Event.isDeliver, Event.isLoad, Event.load?]
  | _ => simp [pending, System.setProducer, Event.isDeliver, Event.isLoad, Event.load?]

/-- Every delivery follows a load of its own; one may be pending. -/
theorem run_delivers {s t : System ι Ptr} {es : List (Event ι Ptr)} (h : Run Step s es t) :
    delivers es + pending t ≤ loads es + pending s := by
  induction h with
  | nil => simp [delivers, loads]
  | cons hstep _ ih =>
    have hone := step_delivers hstep
    rw [delivers, loads] at ih ⊢
    rw [List.countP_cons, List.countP_cons]
    omega

-- ---------------------------------------------------------------------------
-- Main result
-- ---------------------------------------------------------------------------

/-- When a pointer is published, the consumer is not clearing its slot, and
even with a delivery pending the slot is within one lap. -/
theorem publish_distance {s₀ s : System ι Ptr} {i : ι} {index : BitVec 16} {ptr : Ptr}
    (hinv : ConsumerInv s₀) (hpub : Step s₀ (.publish i index ptr) s) :
    s.queue.buffer index = some ptr ∧ s.consumer ≠ .clearing index ∧
      dist s.queue.head index + pending s < 2 ^ 16 := by
  have hnull := step_publish_null hpub
  have hinv' := step_consumerInv hinv hpub
  have hcons : s.consumer = s₀.consumer := by
    cases hpub.transition with
    | publish => rfl
  have hfree : s.consumer ≠ .clearing index := by
    intro hpc
    rw [hcons] at hpc
    exact hinv.out index hpc ((hinv.held index hpc).symm.trans hnull)
  refine ⟨?_, hfree, ?_⟩
  · rw [step_buffer hpub, Event.onBuffer, Function.update_self]
  · cases hpc : s.consumer with
    | clearing y =>
      have hne : index ≠ y := by
        rintro rfl
        exact hfree hpc
      have hlt := dist_add_one_lt hne
      rw [hinv'.head y hpc]
      simpa [pending, hpc] using hlt
    | _ =>
      have hlt := dist_lt s.queue.head index
      simpa [pending, hpc] using hlt

/--
**No published pointer is starved.** After a producer has stored `ptr` in slot
`index`, from any reachable state and under any interleaving, let `es` be the
events since, none of them the delivery of that slot.

* `ptr` is still in the slot, and at most `capacity` loads have happened; when
  it is the `capacity`-th, it has loaded `ptr` and the consumer's next access
  delivers it.
* At most `capacity - 1` other pointers have been delivered.
* The next delivery of the slot delivers `ptr`.
-/
theorem published_pointer_is_delivered {s₀ s t : System ι Ptr} {es : List (Event ι Ptr)} {i : ι}
    {index : BitVec 16} {ptr : Ptr} (hreach : Reachable Step .init s₀)
    (hpub : Step s₀ (.publish i index ptr) s) (hrun : Run Step s es t)
    (hopen : ∀ e ∈ es, ∀ out, e ≠ .deliver index out) :
    t.queue.buffer index = some ptr ∧
    loads es ≤ capacity ∧
    (loads es = capacity → ∃ u, t.step .consumer = some (.deliver index (some ptr), u)) ∧
    delivers es ≤ capacity - 1 ∧
    ∀ out u, Step t (.deliver index out) u → out = some ptr := by
  obtain ⟨hslot, hfree, hdist⟩ := publish_distance (reachable_consumerInv hreach) hpub
  have hcount := run_delivers hrun
  have hcap : capacity = 2 ^ 16 := rfl
  cases run_awaitsDelivery hslot hfree hrun hopen with
  | waiting hslot' hfree' hloads =>
    refine ⟨hslot', by omega, by omega, by omega, ?_⟩
    intro out u hstep
    exact absurd hstep.clearing_of_deliver.1 hfree'
  | loaded hslot' hpc hout hloads =>
    have hpend : pending t = 1 := by simp [pending, hpc]
    refine ⟨hslot', by omega, fun _ => ?_, by omega, ?_⟩
    · rw [System.step, System.consumerStep, hpc, hout]
      exact ⟨_, rfl⟩
    · intro out u hstep
      rw [hstep.clearing_of_deliver.2, hout]

/-- Slot 0 is loaded and not yet cleared when producer 1 publishes to slot 256;
slot 0 is delivered first. -/
theorem published_pointer_is_delivered_overtaken :
    ∃ (s₀ s t : System (Fin 2) Nat) (es : List (Event (Fin 2) Nat)),
      Step s₀ (.publish 1 256 9) s ∧ Run Step s es t ∧ delivers es = 1 ∧
      t.queue.buffer 256 = some 9 ∧ loads es ≤ capacity ∧ delivers es ≤ capacity - 1 := by
  obtain ⟨s₀, hpre, hpc, hcons, hslot⟩ : ∃ s₀ : System (Fin 2) Nat,
      Reachable Step .init s₀ ∧ s₀.producer 1 = .publishing 9 0 1 ∧
      s₀.consumer = .clearing 0 ∧ s₀.queue.buffer (indexFromTicket 1) = none :=
    ⟨_, ⟨_, run_of_exec [.push 0 (some 7), .producer 0, .producer 0, .pop, .consumer,
      .push 1 (some 9), .producer 1] rfl⟩, rfl, rfl, rfl⟩
  obtain ⟨s, hpub, hcons'⟩ : ∃ s, Step s₀ (.publish 1 (indexFromTicket 1) 9) s ∧
      s.consumer = .clearing 0 := ⟨_, (Transition.publish hpc hslot).step, hcons⟩
  have hrun := Run.single (Transition.deliver hcons').step
  obtain ⟨hkept, hloads, -, hdelivers, -⟩ :=
    published_pointer_is_delivered hpre hpub hrun (by simp [indexFromTicket])
  exact ⟨s₀, s, _, _, hpub, hrun, rfl, hkept, hloads, hdelivers⟩

end Destiny.Replay
