import Destiny.Replay.Effects

/-!
# BoundMPSC — what a failed pop has seen

`pop` looks at one slot at a time, behind its back producers keep publishing.
Still, a `pop` that returns false proves the queue *was* empty: its last
`capacity` loads cover every slot, a slot only the consumer can clear that is
null when it is loaded was null all the time before, so at the moment the last
lap starts all slots are null together.

* `scan_null`           — a scan that finds nothing: its slots were null before.
* `scan_all_null`       — `capacity` loads that find nothing: all slots were null.
* `popProgress_of_run`  — where a `pop` in progress stands after `n` loads.
* `failed_pop_saw_empty_queue` — the contract of `pop`, from every reachable state.
-/

namespace Destiny.Replay

open Foundation

variable {ι Ptr : Type*} [DecidableEq ι]

-- ---------------------------------------------------------------------------
-- Scans that find nothing
-- ---------------------------------------------------------------------------

/-- Does the consumer find or clear a pointer in this event? -/
def Event.takes : Event ι Ptr → Bool
  | .load _ _ | .deliver _ _ => true
  | _ => false

omit [DecidableEq ι] in
theorem Event.ne_deliver_of_takes {e : Event ι Ptr} (h : e.takes = false) (index : BitVec 16)
    (out : Option Ptr) : e ≠ .deliver index out := by
  rintro rfl
  simp [Event.takes] at h

/-- A slot load that finds nothing looked at a null slot. -/
theorem step_load_null {s t : System ι Ptr} {e : Event ι Ptr} (h : Step s e t)
    (hload : e.isLoad = true) (htakes : e.takes = false) :
    s.queue.buffer s.queue.head = none := by
  cases h.transition with
  | miss _ hslot => exact hslot
  | popEmpty _ hslot => exact hslot
  | load => simp [Event.takes] at htakes
  | _ => simp [Event.isLoad, Event.load?] at hload

/-- The slots a fruitless scan loads were null when it began. -/
theorem scan_null {s t : System ι Ptr} {es : List (Event ι Ptr)} (h : Run Step s es t)
    (htakes : ∀ e ∈ es, e.takes = false) :
    ∀ k < loads es, s.queue.buffer (lap s.queue.head k) = none := by
  induction h with
  | nil =>
    intro k hk
    simp [loads] at hk
  | @cons s m u e es hstep _ ih =>
    intro k hk
    have hfirst : e.takes = false := htakes e (List.mem_cons_self ..)
    have hrest := ih fun e he => htakes e (List.mem_cons_of_mem _ he)
    have hkeep := Event.ne_deliver_of_takes hfirst
    have hhead := step_head hstep
    rw [loads, List.countP_cons] at hk
    by_cases hload : e.isLoad = true
    · rw [if_pos hload] at hk hhead
      cases k with
      | zero =>
        rw [lap_zero]
        exact step_load_null hstep hload hfirst
      | succ k =>
        -- the slot is the `k`-th one of the remaining scan
        have hnull := hrest k (by unfold loads; omega)
        rw [hhead, lap_lap, Nat.add_comm 1 k] at hnull
        exact step_buffer_null_back hstep hnull (hkeep _)
    · rw [if_neg hload] at hk hhead
      have hnull := hrest k (by unfold loads; omega)
      rw [hhead, lap_zero] at hnull
      exact step_buffer_null_back hstep hnull (hkeep _)

/-- **A fruitless lap.** If `capacity` loads in a row find nothing, all slots
were null at once when the first of them was about to happen. -/
theorem scan_all_null {s t : System ι Ptr} {es : List (Event ι Ptr)} (h : Run Step s es t)
    (htakes : ∀ e ∈ es, e.takes = false) (hlap : capacity ≤ loads es) (index : BitVec 16) :
    s.queue.buffer index = none := by
  have hlt : dist s.queue.head index < loads es := lt_of_lt_of_le (dist_lt _ _) hlap
  have hnull := scan_null h htakes _ hlt
  rwa [lap_dist] at hnull

-- ---------------------------------------------------------------------------
-- A pop in progress
-- ---------------------------------------------------------------------------

/-- Where the consumer stands after the events `es` of a `pop` that has not
returned: still scanning, nothing found, one retry for each load; or holding
the pointer that its last load found. -/
inductive PopProgress (es : List (Event ι Ptr)) (t : System ι Ptr) : Prop
  | scanning (hpc : t.consumer = .scanning (loads es)) (hretry : loads es ≤ popRetryLimit)
      (htakes : ∀ e ∈ es, e.takes = false)
  | clearing (index : BitVec 16) (hpc : t.consumer = .clearing index)
      (hretry : loads es ≤ popRetryLimit + 1)

omit [DecidableEq ι] in
theorem loads_snoc_load {es : List (Event ι Ptr)} {e : Event ι Ptr} (h : e.isLoad = true) :
    loads (es ++ [e]) = loads es + 1 := by
  simp [loads, List.countP_append, h]

omit [DecidableEq ι] in
theorem loads_snoc_other {es : List (Event ι Ptr)} {e : Event ι Ptr} (h : e.isLoad = false) :
    loads (es ++ [e]) = loads es := by
  simp [loads, List.countP_append, h]

/-- Inside `pop` the consumer moves by its own accesses only. -/
theorem step_consumer_frame {s t : System ι Ptr} {e : Event ι Ptr} (h : Step s e t)
    (hpop : s.consumer ≠ .idle) (haccess : e.isConsumerAccess = false) :
    t.consumer = s.consumer ∧ e.isLoad = false ∧ e.takes = false := by
  cases h.transition with
  | popCall hidle => exact absurd hidle hpop
  | miss | popEmpty | load | deliver => simp [Event.isConsumerAccess] at haccess
  | _ => exact ⟨rfl, rfl, rfl⟩

theorem step_popProgress {s t : System ι Ptr} {e : Event ι Ptr} {es : List (Event ι Ptr)}
    (hprog : PopProgress es s) (h : Step s e t) (hopen : e.popReturn? = none) :
    PopProgress (es ++ [e]) t := by
  by_cases haccess : e.isConsumerAccess = true
  · cases hprog with
    | scanning hpc hretry htakes =>
      cases h.transition with
      | @miss retries hpc' hslot hlt =>
        have hcount : retries = loads es := by simpa [hpc'] using hpc
        have hnew : loads (es ++ [.miss s.queue.head]) = loads es + 1 := loads_snoc_load rfl
        refine .scanning ?_ (by omega) ?_
        · rw [hnew, ← hcount]
        · intro f hf
          rcases List.mem_append.mp hf with hf | hf
          · exact htakes f hf
          · rw [List.mem_singleton.mp hf]
            rfl
      | @load retries ptr hpc' hslot =>
        have hnew : loads (es ++ [.load s.queue.head ptr]) = loads es + 1 := loads_snoc_load rfl
        exact .clearing _ rfl (by omega)
      | popEmpty | deliver => simp [Event.popReturn?] at hopen
      | _ => simp [Event.isConsumerAccess] at haccess
    | clearing index hpc hretry =>
      -- the next access of the consumer is the one `pop` returns with
      cases h.transition with
      | miss hpc' | popEmpty hpc' | load hpc' => simp [hpc'] at hpc
      | deliver => simp [Event.popReturn?] at hopen
      | _ => simp [Event.isConsumerAccess] at haccess
  · rw [Bool.not_eq_true] at haccess
    cases hprog with
    | scanning hpc hretry htakes =>
      have hpop : s.consumer ≠ .idle := by simp [hpc]
      obtain ⟨hkeep, hload, htake⟩ := step_consumer_frame h hpop haccess
      rw [← loads_snoc_other hload] at hpc hretry
      refine .scanning (hkeep.trans hpc) hretry ?_
      intro f hf
      rcases List.mem_append.mp hf with hf | hf
      · exact htakes f hf
      · rwa [List.mem_singleton.mp hf]
    | clearing index hpc hretry =>
      have hpop : s.consumer ≠ .idle := by simp [hpc]
      obtain ⟨hkeep, hload, -⟩ := step_consumer_frame h hpop haccess
      rw [← loads_snoc_other hload] at hretry
      exact .clearing index (hkeep.trans hpc) hretry

/-- **Progress of a pop.** Its consumer has not moved except by the loads
counted in `es`. -/
theorem popProgress_of_run {s t : System ι Ptr} {es : List (Event ι Ptr)}
    (hcall : s.consumer = .scanning 0) (h : Run Step s es t)
    (hopen : ∀ e ∈ es, e.popReturn? = none) : PopProgress es t := by
  refine h.trace_invariant (P := fun es t => (∀ e ∈ es, e.popReturn? = none) → PopProgress es t)
    ?_ ?_ hopen
  · intro _
    exact .scanning hcall (Nat.zero_le _) (by simp)
  · intro es t e u _ ih hstep hopen
    have hprog := ih fun f hf => hopen f (List.mem_append_left _ hf)
    exact step_popProgress hprog hstep (hopen e (by simp))

omit [DecidableEq ι] in
/-- Before it returns, every access of a `pop` is a slot load. -/
theorem countP_access_of_open {es : List (Event ι Ptr)} (hopen : ∀ e ∈ es, e.popReturn? = none) :
    es.countP Event.isConsumerAccess = loads es := by
  unfold loads
  apply List.countP_congr
  intro e he
  have := hopen e he
  cases e <;> simp_all [Event.popReturn?, Event.isConsumerAccess, Event.isLoad, Event.load?]

/-- Scanning null slots finds nothing, for as many loads as `pop` allows. -/
theorem nullScan_run {s : System ι Ptr} {r : Nat} (n : Nat) (hpc : s.consumer = .scanning r)
    (hnull : ∀ k < n, s.queue.buffer (lap s.queue.head k) = none) (hle : r + n ≤ popRetryLimit) :
    ∃ es t, Run Step s es t ∧ loads es = n ∧ (∀ e ∈ es, ∃ index, e = .miss index) ∧
      t.consumer = .scanning (r + n) ∧
      t.queue = { s.queue with head := lap s.queue.head n } := by
  induction n with
  | zero => exact ⟨[], s, .nil s, rfl, List.forall_mem_nil _, hpc, by rw [lap_zero]⟩
  | succ n ih =>
    obtain ⟨es, t, hrun, hloads, hmiss, hpc', hqueue⟩ :=
      ih (fun k hk => hnull k (Nat.lt_succ_of_lt hk)) (by omega)
    have hslot : t.queue.buffer t.queue.head = none := by
      rw [hqueue]
      exact hnull n (Nat.lt_succ_self n)
    refine ⟨_, _, hrun.snoc (Transition.miss hpc' hslot (by omega)).step, ?_, ?_, rfl, ?_⟩
    · rw [loads_snoc_load rfl, hloads]
    · intro e he
      rcases List.mem_append.mp he with he | he
      · exact hmiss e he
      · exact ⟨_, List.mem_singleton.mp he⟩
    · rw [hqueue, lap_succ]

/-- Scanning an empty queue finds nothing. -/
theorem emptyScan_run {s : System ι Ptr} {r : Nat} (n : Nat) (hpc : s.consumer = .scanning r)
    (hnull : ∀ index, s.queue.buffer index = none) (hle : r + n ≤ popRetryLimit) :
    ∃ es t, Run Step s es t ∧ loads es = n ∧ (∀ e ∈ es, e.popReturn? = none) ∧
      t.consumer = .scanning (r + n) ∧ ∀ index, t.queue.buffer index = none := by
  obtain ⟨es, t, hrun, hloads, hmiss, hend, hqueue⟩ :=
    nullScan_run n hpc (fun k _ => hnull _) hle
  refine ⟨es, t, hrun, hloads, ?_, hend, by rwa [hqueue]⟩
  intro e he
  obtain ⟨index, rfl⟩ := hmiss e he
  rfl

-- ---------------------------------------------------------------------------
-- Main result
-- ---------------------------------------------------------------------------

/-- A failing `pop` has found nothing in `popRetryLimit + 1` loads. -/
theorem failed_pop_scan {s t u : System ι Ptr} {es : List (Event ι Ptr)} {e : Event ι Ptr}
    {out : Option Ptr} (hcall : s.consumer = .scanning 0) (hrun : Run Step s es t)
    (hopen : ∀ e ∈ es, e.popReturn? = none) (hstep : Step t e u)
    (hfail : e.popReturn? = some (false, out)) :
    out = none ∧ u.out = none ∧ loads (es ++ [e]) = popRetryLimit + 1 ∧
      ∀ f ∈ es ++ [e], f.takes = false := by
  have hprog := popProgress_of_run hcall hrun hopen
  cases hstep.transition with
  | @popEmpty retries hpc hslot hretry =>
    simp only [Event.popReturn?, Option.some.injEq, Prod.mk.injEq, true_and] at hfail
    cases hprog with
    | scanning hpc' hle htakes =>
      have hcount : retries = loads es := by simpa [hpc] using hpc'
      have hnew : loads (es ++ [.popEmpty t.queue.head none]) = loads es + 1 := loads_snoc_load rfl
      refine ⟨hfail.symm, rfl, by omega, ?_⟩
      intro f hf
      rcases List.mem_append.mp hf with hf | hf
      · exact htakes f hf
      · rw [List.mem_singleton.mp hf]
        rfl
    | clearing index hpc' => simp [hpc] at hpc'
  | deliver => simp [Event.popReturn?] at hfail
  | _ => simp [Event.popReturn?] at hfail

/--
**A failed `pop` proves that the queue was empty.** Consider a `pop` called in
any reachable state, interleaved in any way with any producers, and the events
`es` since its call, none of them its return.

* If it returns false with the next step, its output is null and it has made
  `popRetryLimit + 1` loads; at every moment from its call up to and including
  its `capacity + 1`-st load all slots were null simultaneously.
* So if some slot held a pointer at such a moment, then when `pop` returns it
  returns true with a non-null pointer.
* And it does return: it has made at most `popRetryLimit + 1` accesses so far,
  and it is never blocked.
-/
theorem failed_pop_saw_empty_queue {s₀ s t : System ι Ptr} {es : List (Event ι Ptr)}
    (hreach : Reachable Step .init s₀) (hcall : Step s₀ .popCall s)
    (hrun : Run Step s es t) (hopen : ∀ e ∈ es, e.popReturn? = none) :
    (∀ e u out, Step t e u → e.popReturn? = some (false, out) →
      out = none ∧ u.out = none ∧ loads (es ++ [e]) = popRetryLimit + 1 ∧
      ∀ es₁ es₂ v, es ++ [e] = es₁ ++ es₂ → Run Step s es₁ v → Run Step v es₂ u →
        loads es₁ ≤ capacity + 1 → ∀ index, v.queue.buffer index = none) ∧
    (∀ e u b out, Step t e u → e.popReturn? = some (b, out) →
      ∀ es₁ es₂ v index, es ++ [e] = es₁ ++ es₂ → Run Step s es₁ v → Run Step v es₂ u →
        loads es₁ ≤ capacity + 1 → v.queue.buffer index ≠ none → b = true ∧ out ≠ none) ∧
    es.countP Event.isConsumerAccess ≤ popRetryLimit + 1 ∧
    ∃ e u, t.step .consumer = some (e, u) := by
  have hscan : s.consumer = .scanning 0 := by
    rw [hcall.eq_of_popCall]
  have hprog := popProgress_of_run hscan hrun hopen
  have hempty : ∀ e u out, Step t e u → e.popReturn? = some (false, out) →
      ∀ es₁ es₂ v, es ++ [e] = es₁ ++ es₂ → Run Step v es₂ u →
        loads es₁ ≤ capacity + 1 → ∀ index, v.queue.buffer index = none := by
    intro e u out hstep hfail es₁ es₂ v hsplit hv hle
    obtain ⟨-, -, hloads, htakes⟩ := failed_pop_scan hscan hrun hopen hstep hfail
    rw [hsplit] at hloads htakes
    -- what is left of the scan is still a full lap
    have hsum : loads (es₁ ++ es₂) = loads es₁ + loads es₂ := List.countP_append
    have hlap : capacity ≤ loads es₂ := by
      unfold popRetryLimit at hloads
      omega
    exact scan_all_null hv (fun f hf => htakes f (List.mem_append_right _ hf)) hlap
  refine ⟨?_, ?_, ?_, ?_⟩
  · intro e u out hstep hfail
    obtain ⟨hout, hu, hloads, -⟩ := failed_pop_scan hscan hrun hopen hstep hfail
    refine ⟨hout, hu, hloads, ?_⟩
    intro es₁ es₂ v hsplit _ hv hle
    exact hempty e u out hstep hfail es₁ es₂ v hsplit hv hle
  · intro e u b out hstep hret es₁ es₂ v index hsplit _ hv hle hslot
    cases b with
    | false => exact absurd (hempty e u out hstep hret es₁ es₂ v hsplit hv hle index) hslot
    | true =>
      refine ⟨rfl, ?_⟩
      have hinv := reachable_consumerInv ((hcall.transition.step |> Run.single).append hrun
        |> Run.reachable hreach)
      cases hstep.transition with
      | @deliver index' hpc =>
        simp only [Event.popReturn?, Option.some.injEq, Prod.mk.injEq, true_and] at hret
        rw [← hret]
        exact hinv.out index' hpc
      | _ => simp [Event.popReturn?] at hret
  · rw [countP_access_of_open hopen]
    cases hprog with
    | scanning _ hle => omega
    | clearing _ _ hle => exact hle
  · cases hprog with
    | scanning hpc hle =>
      simp only [System.step, System.consumerStep, hpc]
      split
      · exact ⟨_, _, rfl⟩
      · split <;> exact ⟨_, _, rfl⟩
    | clearing index hpc => exact ⟨_, _, by rw [System.step, System.consumerStep, hpc]⟩

/-- A `pop` on a fresh queue makes all its loads and fails; one that is called
while slot 0 holds a pointer returns true with this pointer. -/
theorem failed_pop_saw_empty_queue_fresh :
    (∃ (s t u : System (Fin 2) Nat) (es : List (Event (Fin 2) Nat)) (e : Event (Fin 2) Nat),
      Step .init .popCall s ∧ Run Step s es t ∧ Step t e u ∧ e.popReturn? = some (false, none) ∧
      loads (es ++ [e]) = popRetryLimit + 1 ∧ ∀ index, s.queue.buffer index = none) ∧
    ∃ (s₀ s t u : System (Fin 2) Nat) (es : List (Event (Fin 2) Nat)) (e : Event (Fin 2) Nat),
      Reachable Step .init s₀ ∧ Step s₀ .popCall s ∧ Run Step s es t ∧ Step t e u ∧
      s.queue.buffer 0 = some 7 ∧ e.popReturn? = some (true, some 7) ∧
      ∀ b out, e.popReturn? = some (b, out) → b = true ∧ out ≠ none := by
  constructor
  · have hcall : Step (System.init : System (Fin 2) Nat) .popCall _ := (Transition.popCall rfl).step
    obtain ⟨es, t, hrun, hloads, hopen, hpc, hnull⟩ :=
      emptyScan_run popRetryLimit (s := { (System.init : System (Fin 2) Nat) with
        consumer := .scanning 0 }) (r := 0) rfl (fun _ => rfl) (by omega)
    have hlast := Transition.popEmpty hpc (hnull t.queue.head) (by omega)
    obtain ⟨hfail, -⟩ := failed_pop_saw_empty_queue ⟨[], .nil _⟩ hcall hrun hopen
    obtain ⟨-, -, hcount, hempty⟩ := hfail _ _ none hlast.step rfl
    exact ⟨_, t, _, es, _, hcall, hrun, hlast.step, rfl, hcount,
      hempty [] _ _ rfl (.nil _) (hrun.snoc hlast.step) (Nat.zero_le _)⟩
  · obtain ⟨s₀, hpre, hslot, hhead, hidle⟩ : ∃ s₀ : System (Fin 2) Nat,
        Run Step .init [.pushCall 0 7, .ticket 0 0, .publish 0 0 7] s₀ ∧
        s₀.queue.buffer 0 = some 7 ∧ s₀.queue.head = 0 ∧ s₀.consumer = .idle :=
      ⟨_, run_of_exec [.push 0 (some 7), .producer 0, .producer 0] rfl, rfl, rfl, rfl⟩
    have hcall := (Transition.popCall hidle).step
    have hslot' : s₀.queue.buffer s₀.queue.head = some 7 := by rw [hhead, hslot]
    have hload := (Transition.load (s := { s₀ with consumer := .scanning 0 }) rfl hslot').step
    have hlast : Transition
        { s₀ with queue := { s₀.queue with head := s₀.queue.head + 1 }, out := some 7,
                  consumer := .clearing s₀.queue.head } _ _ := .deliver rfl
    obtain ⟨-, hsucceeds, -, -⟩ := failed_pop_saw_empty_queue ⟨_, hpre⟩ hcall (.single hload)
      (by simp [Event.popReturn?])
    have hfull : s₀.queue.buffer 0 ≠ none := by
      rw [hslot]
      exact Option.some_ne_none 7
    refine ⟨s₀, _, _, _, _, _, ⟨_, hpre⟩, hcall, .single hload, hlast.step, hslot, rfl,
      fun b out hret => ?_⟩
    exact hsucceeds _ _ b out hlast.step hret [] _ _ 0 rfl (.nil _)
      (.cons hload (.single hlast.step)) (Nat.zero_le _) hfull

end Destiny.Replay
