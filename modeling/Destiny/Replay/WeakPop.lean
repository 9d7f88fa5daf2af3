import Destiny.Replay.EmptyPop
import Destiny.Replay.HappensBefore
import Destiny.Replay.SpuriousFailure

/-!
# BoundMPSC — what a pop cannot miss

With the memory orders of the source `pop` may come by a pointer and not see it, but
no pointer that it knows of: the slot load that misses a pointer has not heard of its
publication. Its last `capacity` loads cover every slot, so a `pop` that returns false
knew of no pointer when it was called.

* `weak_scan_unknown` — a scan that finds nothing knew nothing of its slots.
* `WeakProgress`      — where a `pop` in progress stands.
* `pop_finds_what_happened_before` — a pointer that was pushed before is found.
-/

namespace Destiny.Replay

open Foundation

variable {ι Ptr : Type} [DecidableEq ι]

/-- The consumer knows of no pointer in slot `index`. -/
def NoneKnown (s : WeakSystem ι Ptr) (index : BitVec 16) : Prop :=
  ∀ m, (s.slot index).getLast? = some m → m.value ≠ none → m.stamp ∉ s.memory.seen none

-- ---------------------------------------------------------------------------
-- Scans that find nothing
-- ---------------------------------------------------------------------------

/-- What was not known after a step was not known before. -/
theorem NoneKnown.of_step {s t : WeakSystem ι Ptr} {e : WeakEvent ι Ptr} {index : BitVec 16}
    (hinv : WeakInv s) (h : WeakStep s e t) (hkeep : ∀ out, e ≠ .queue (.deliver index out))
    (hnone : NoneKnown t index) : NoneKnown s index := by
  intro m hlast hvalue hseen
  exact hnone m (h.pointer_stays hinv hlast hvalue hkeep) hvalue (h.seen_mono none hseen)

/-- A slot load that finds nothing knew of nothing. -/
theorem WeakStep.scan {s t : WeakSystem ι Ptr} {e : WeakEvent ι Ptr} (h : WeakStep s e t)
    (htakes : ∀ f ∈ e.inQueue, f.takes = false) :
    (loads e.inQueue = 0 ∧ t.head = s.head) ∨
      loads e.inQueue = 1 ∧ t.head = s.head + 1 ∧ NoneKnown s s.head := by
  cases h with
  | miss hpc hload hnull | popEmpty hpc hload hnull =>
    exact Or.inr ⟨rfl, rfl, fun m hlast hvalue => unknown_of_load_null hload hnull hlast hvalue⟩
  | load => exact absurd (htakes _ (List.mem_singleton_self _)) (by simp [Event.takes])
  | _ => exact Or.inl ⟨rfl, rfl⟩

omit [DecidableEq ι] in
theorem WeakEvent.ne_deliver {e : WeakEvent ι Ptr} (htakes : ∀ f ∈ e.inQueue, f.takes = false)
    (index : BitVec 16) (out : Option Ptr) : e ≠ .queue (.deliver index out) := by
  rintro rfl
  exact absurd (htakes _ (List.mem_singleton_self _)) (by simp [Event.takes])

/-- Of the slots that a fruitless scan loads nothing was known when it began. -/
theorem weak_scan_unknown {s t : WeakSystem ι Ptr} {es : List (WeakEvent ι Ptr)}
    (h : Run WeakStep s es t) (hinv : WeakInv s)
    (htakes : ∀ f ∈ es.flatMap WeakEvent.inQueue, f.takes = false) :
    ∀ k < loads (es.flatMap WeakEvent.inQueue), NoneKnown s (lap s.head k) := by
  induction h with
  | nil =>
    intro k hk
    exact absurd hk (Nat.not_lt_zero k)
  | @cons s m u e es hstep _ ih =>
    intro k hk
    rw [List.flatMap_cons, List.forall_mem_append] at htakes
    have hsum : loads (e.inQueue ++ es.flatMap WeakEvent.inQueue) =
        loads e.inQueue + loads (es.flatMap WeakEvent.inQueue) := List.countP_append
    rw [List.flatMap_cons, hsum] at hk
    have hkeep := WeakEvent.ne_deliver htakes.1
    have hrest := ih (hstep.weakInv hinv) htakes.2
    obtain ⟨hloads, hhead⟩ | ⟨hloads, hhead, hnone⟩ := hstep.scan htakes.1
    · have hlater := hrest k (by omega)
      rw [hhead] at hlater
      exact hlater.of_step hinv hstep (hkeep _)
    · cases k with
      | zero =>
        rw [lap_zero]
        exact hnone
      | succ k =>
        -- the slot is the `k`-th one of the remaining scan
        have hlater := hrest k (by omega)
        rw [hhead, lap_succ_left] at hlater
        exact hlater.of_step hinv hstep (hkeep _)

-- ---------------------------------------------------------------------------
-- A pop in progress
-- ---------------------------------------------------------------------------

/-- Where the consumer stands after the events `es` of a `pop` that has not
returned. -/
inductive WeakProgress (es : List (Event ι Ptr)) (t : WeakSystem ι Ptr) : Prop
  | scanning (hpc : t.consumer = .scanning (loads es)) (htakes : ∀ e ∈ es, e.takes = false)
  | clearing (index : BitVec 16) (hpc : t.consumer = .clearing index)

omit [DecidableEq ι] in
theorem WeakProgress.of_same {s t : WeakSystem ι Ptr} {es : List (Event ι Ptr)}
    (hprog : WeakProgress es s) (hsame : t.consumer = s.consumer) : WeakProgress es t := by
  cases hprog with
  | scanning hpc htakes => exact .scanning (hsame.trans hpc) htakes
  | clearing index hpc => exact .clearing index (hsame.trans hpc)

omit [DecidableEq ι] in
theorem WeakProgress.snoc_other {s : WeakSystem ι Ptr} {es : List (Event ι Ptr)} {e : Event ι Ptr}
    (hprog : WeakProgress es s) (hload : e.isLoad = false) (htakes : e.takes = false) :
    WeakProgress (es ++ [e]) s := by
  cases hprog with
  | scanning hpc hold =>
    refine .scanning ?_ (List.forall_mem_append.mpr ⟨hold, List.forall_mem_singleton.mpr htakes⟩)
    rw [hpc, loads_snoc_other hload]
  | clearing index hpc => exact .clearing index hpc

theorem WeakStep.progress {s t : WeakSystem ι Ptr} {e : WeakEvent ι Ptr} {es : List (Event ι Ptr)}
    (hprog : WeakProgress es s) (h : WeakStep s e t) (hopen : ∀ f ∈ e.inQueue, f.popReturn? = none) :
    WeakProgress (es ++ e.inQueue) t := by
  cases h with
  | popCall hidle =>
    cases hprog with
    | scanning hpc | clearing index hpc => exact Consumer.noConfusion (hidle.symm.trans hpc)
  | @miss retries m memory hpc hload hnull hretry =>
    cases hprog with
    | scanning hpc' htakes =>
      obtain rfl := Consumer.scanning.inj (hpc.symm.trans hpc')
      refine .scanning ?_ (List.forall_mem_append.mpr ⟨htakes, List.forall_mem_singleton.mpr rfl⟩)
      exact congrArg Consumer.scanning (loads_snoc_load rfl).symm
    | clearing index hpc' => exact Consumer.noConfusion (hpc.symm.trans hpc')
  | popEmpty | deliver => simp [WeakEvent.inQueue, Event.popReturn?] at hopen
  | load => exact .clearing _ rfl
  | work | synchronise =>
    show WeakProgress (es ++ []) _
    rw [List.append_nil]
    exact hprog.of_same rfl
  | _ => exact (hprog.snoc_other rfl rfl).of_same rfl

theorem run_weakProgress {s t : WeakSystem ι Ptr} {es : List (WeakEvent ι Ptr)}
    (hcall : s.consumer = .scanning 0) (h : Run WeakStep s es t)
    (hopen : ∀ f ∈ es.flatMap WeakEvent.inQueue, f.popReturn? = none) :
    WeakProgress (es.flatMap WeakEvent.inQueue) t := by
  refine h.trace_invariant (P := fun es t =>
    (∀ f ∈ es.flatMap WeakEvent.inQueue, f.popReturn? = none) →
      WeakProgress (es.flatMap WeakEvent.inQueue) t) ?_ ?_ hopen
  · exact fun _ => .scanning hcall (List.forall_mem_nil _)
  · intro es t e u _ ih hstep hopen
    rw [List.flatMap_append, List.flatMap_singleton] at hopen ⊢
    obtain ⟨hold, hnew⟩ := List.forall_mem_append.mp hopen
    exact hstep.progress (ih hold) hnew

-- ---------------------------------------------------------------------------
-- The pop that fails
-- ---------------------------------------------------------------------------

/-- **A failing pop knew of no pointer** when it was called. -/
theorem failed_pop_knew_nothing {pre es : List (WeakEvent ι Ptr)} {r s t u : WeakSystem ι Ptr}
    {index : BitVec 16} {out : Option Ptr} (hpre : Run WeakStep .init pre r)
    (hcall : WeakStep r (.queue .popCall) s) (hrun : Run WeakStep s es t)
    (hopen : ∀ f ∈ es.flatMap WeakEvent.inQueue, f.popReturn? = none)
    (hfail : WeakStep t (.queue (.popEmpty index out)) u) (x : BitVec 16) : NoneKnown r x := by
  have hinv := run_weakInv hpre weakInv_init
  have hinv' := hcall.weakInv hinv
  refine NoneKnown.of_step hinv hcall (by simp) ?_
  have hscanning : s.consumer = .scanning 0 := by
    cases hcall with
    | popCall => rfl
  cases hfail with
  | popEmpty hpc hload hnull hretry =>
    cases run_weakProgress hscanning hrun hopen with
    | scanning hpc' htakes =>
      obtain rfl := Consumer.scanning.inj (hpc.symm.trans hpc')
      have hnear : dist s.head x < loads (es.flatMap WeakEvent.inQueue) := by
        have hlt : dist s.head x < capacity := dist_lt _ _
        unfold popRetryLimit at hretry
        omega
      have hnone := weak_scan_unknown hrun hinv' htakes _ hnear
      rwa [lap_dist] at hnone
    | clearing index hpc' => exact Consumer.noConfusion (hpc.symm.trans hpc')

/--
**What was pushed before a pop is found.** If all that the producer of a pointer
knew when it had published it is known to the consumer when it calls `pop`, and the
pointer has not been delivered, then this `pop` returns true, whatever else goes on.
-/
theorem pop_finds_what_happened_before {pre mid es : List (WeakEvent ι Ptr)}
    {q r s t u v : WeakSystem ι Ptr} {i : ι} {index : BitVec 16} {ptr : Ptr} {e : Event ι Ptr}
    {b : Bool} {out : Option Ptr} (hpre : Run WeakStep .init pre q)
    (hpublish : WeakStep q (.queue (.publish i index ptr)) r) (hmid : Run WeakStep r mid s)
    (hkeep : ∀ e ∈ mid, ∀ out, e ≠ .queue (.deliver index out))
    (hknown : r.memory.seen (some i) ⊆ s.memory.seen none) (hcall : WeakStep s (.queue .popCall) t)
    (hrun : Run WeakStep t es u) (hopen : ∀ f ∈ es.flatMap WeakEvent.inQueue, f.popReturn? = none)
    (hreturn : WeakStep u (.queue e) v) (he : e.popReturn? = some (b, out)) : b = true := by
  have hinv := run_weakInv hpre weakInv_init
  have hpre' := (hpre.snoc hpublish).append hmid
  obtain ⟨-, w, -, -, hslot, hvalue, -, -, hseen⟩ := hpublish.publish_appends hinv
  have hpointer : w.value ≠ none := by
    rw [hvalue]
    simp
  have hlast : (r.slot index).getLast? = some w := by
    rw [hslot]
    exact List.getLast?_concat
  have hlast' := run_pointer_stays hmid (hpublish.weakInv hinv) hlast hpointer hkeep
  cases b with
  | true => rfl
  | false =>
    cases e with
    | popEmpty x out =>
      exact absurd (hknown hseen)
        (failed_pop_knew_nothing hpre' hcall hrun hopen hreturn index w hlast' hpointer)
    | _ => simp [Event.popReturn?] at he

/-- The consumer synchronises with producer 0, which has pushed 7, and pops. -/
theorem pop_finds_what_happened_before_synchronised :
    ∃ (es : List (WeakEvent (Fin 2) Nat)) (e : Event (Fin 2) Nat) (u v : WeakSystem (Fin 2) Nat),
      Run WeakStep .init es u ∧
      es.flatMap WeakEvent.inQueue = [.pushCall 0 7, .ticket 0 0, .publish 0 0 7, .popCall,
        .load 0 7] ∧
      WeakStep u (.queue e) v ∧ e.popReturn? = some (true, some 7) := by
  obtain ⟨q, r, s, t, u, v, hpre, hpublish, hmid, hcall, hload, hreturn⟩ :
      ∃ q r s t u v : WeakSystem (Fin 2) Nat,
        Run WeakStep .init [.queue (.pushCall 0 7), .queue (.ticket 0 0)] q ∧
        WeakStep q (.queue (.publish 0 (indexFromTicket 0) 7)) r ∧
        WeakStep r (.synchronise none (some 0)) s ∧ WeakStep s (.queue .popCall) t ∧
        WeakStep t (.queue (.load 0 7)) u ∧ WeakStep u (.queue (.deliver 0 (some 7))) v :=
    ⟨_, _, _, _, _, _,
      .cons (.pushCall rfl) (.single (.ticket (m := WeakSystem.initialWrite 0) rfl
        (.of_last _ _ _ _ rfl))),
      .publish (m := WeakSystem.initialWrite none) rfl rfl (.of_last _ _ _ _ rfl),
      .synchronise none (some 0), .popCall rfl, .load rfl (.of_last _ _ rfl) rfl,
      .deliver rfl (.of_last _ _ _ _)⟩
  have hknown : r.memory.seen (some 0) ⊆ s.memory.seen none := by
    cases hmid with
    | synchronise => exact WeakMemory.learned _ none _
  obtain ⟨b, he⟩ : ∃ b, (Event.deliver 0 (some 7) : Event (Fin 2) Nat).popReturn? =
      some (b, some 7) := ⟨_, rfl⟩
  have hfound : b = true :=
    pop_finds_what_happened_before hpre hpublish (.single hmid) (by simp) hknown hcall
      (.single hload) (by simp [WeakEvent.inQueue, Event.popReturn?]) hreturn he
  rw [hfound] at he
  exact ⟨_, _, u, v, (((hpre.snoc hpublish).snoc hmid).snoc hcall).snoc hload, rfl, hreturn, he⟩

end Destiny.Replay
