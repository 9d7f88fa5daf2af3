import Destiny.Replay.MemoryOrder

/-!
# BoundMPSC — what happens before what

A pointer is a message: what its producer did before `push` has happened when `pop`
returns it. Nothing else goes through the queue. The relaxed accesses pass nothing
on, so that a producer learns neither from the consumer, whose slots it uses again,
nor from the other producers.

* `publication_synchronizes` — what a delivered pointer brings along.
* `spread`, `heard_after_work` — the ways that the news of an event takes: from a
  publication to the slot, from there to a load, and between threads that
  synchronise by other means.
* `happens_before_iff` — who gets to know what through the queue alone.
-/

namespace Destiny.Replay

open Foundation

variable {ι Ptr : Type} [DecidableEq ι]

-- ---------------------------------------------------------------------------
-- A pointer as a message
-- ---------------------------------------------------------------------------

theorem run_seen_mono {es : List (WeakEvent ι Ptr)} {s t : WeakSystem ι Ptr}
    (h : Run WeakStep s es t) (u : Option ι) : s.memory.seen u ⊆ t.memory.seen u :=
  h.invariant (I := fun t => s.memory.seen u ⊆ t.memory.seen u)
    (fun _ _ _ hsub hst => hsub.trans (hst.seen_mono u)) subset_rfl

theorem run_pointer_stays {es : List (WeakEvent ι Ptr)} {s t : WeakSystem ι Ptr}
    {index : BitVec 16} {m : AtomicWrite (Option Ptr)} (h : Run WeakStep s es t) (hinv : WeakInv s)
    (hlast : (s.slot index).getLast? = some m) (hvalue : m.value ≠ none)
    (hkeep : ∀ e ∈ es, ∀ out, e ≠ .queue (.deliver index out)) :
    (t.slot index).getLast? = some m := by
  induction h with
  | nil => exact hlast
  | cons hst _ ih =>
    obtain ⟨hfirst, hrest⟩ := List.forall_mem_cons.mp hkeep
    exact ih (hst.weakInv hinv) (hst.pointer_stays hinv hlast hvalue hfirst) hrest

/--
**A pointer brings along what happened before it was pushed.** A pointer that is
published is what the next delivery of its slot delivers; and all that its producer
knew when it was published, the consumer knows when `pop` returns it.
-/
theorem publication_synchronizes {pre es : List (WeakEvent ι Ptr)} {r s t u : WeakSystem ι Ptr}
    {i : ι} {index : BitVec 16} {ptr : Ptr} {out : Option Ptr} (hpre : Run WeakStep .init pre r)
    (hpublish : WeakStep r (.queue (.publish i index ptr)) s) (hrun : Run WeakStep s es t)
    (hfirst : ∀ e ∈ es, ∀ out, e ≠ .queue (.deliver index out))
    (hdeliver : WeakStep t (.queue (.deliver index out)) u) :
    out = some ptr ∧ r.memory.seen (some i) ⊆ u.memory.seen none := by
  have hinv := run_weakInv hpre weakInv_init
  have hinv' := hpublish.weakInv hinv
  obtain ⟨-, w, -, -, hslot, hvalue, -, hreleased, -⟩ := hpublish.publish_appends hinv
  have hlast : (s.slot index).getLast? = some w := by
    rw [hslot]
    exact List.getLast?_concat
  have hstays := run_pointer_stays hrun hinv' hlast (by rw [hvalue]; simp) hfirst
  have hmono := hdeliver.seen_mono none
  cases hdeliver with
  | deliver hpc hstore =>
    obtain ⟨m, hlast', hout, -, -, hknown⟩ := (run_weakInv hrun hinv').held index hpc
    obtain rfl := Option.some.inj (hstays.symm.trans hlast')
    exact ⟨hout.symm.trans hvalue, hreleased.trans (hknown.trans hmono)⟩

-- ---------------------------------------------------------------------------
-- The news of an event
-- ---------------------------------------------------------------------------

/-- Where the news of an event can be: with a thread, or in a slot with a pointer. -/
inductive Place (ι : Type)
  | thread (t : Option ι)
  | slot (index : BitVec 16)

/-- The news at `a` goes to `b` as well. -/
def pass (news : Set (Place ι)) (a b : Place ι) : Set (Place ι) :=
  {p | p ∈ news ∨ p = b ∧ a ∈ news}

/-- How an event spreads the news. -/
def spread (news : Set (Place ι)) : WeakEvent ι Ptr → Set (Place ι)
  | .queue (.publish i index _) => pass news (.thread (some i)) (.slot index)
  | .queue (.load index _)      => pass news (.slot index) (.thread none)
  | .queue (.deliver index _)   => {p | p ∈ news ∧ p ≠ .slot index}
  | .synchronise t u            => pass news (.thread u) (.thread t)
  | _                           => news

/-- The event `n` is no write, and the news of it are where `news` says. -/
structure Heard (n : Nat) (news : Set (Place ι))
    (M : WeakMemory (Option ι) Cell (Cell.Value Ptr)) : Prop where
  past    : n < M.next
  writes  : ∀ x, ∀ m ∈ M.history x, m.stamp ≠ n
  threads : ∀ t, n ∈ M.seen t ↔ .thread t ∈ news
  nulls   : ∀ index, ∀ m : AtomicWrite (Option Ptr), m ∈ M.history (.slot index) →
    m.value = none → n ∉ m.released
  slots   : ∀ index, ∀ m : AtomicWrite (Option Ptr),
    (M.history (.slot index)).getLast? = some m → (n ∈ m.released ↔ .slot index ∈ news)

namespace Heard

variable {n : Nat} {news : Set (Place ι)} {M : WeakMemory (Option ι) Cell (Cell.Value Ptr)}

theorem learn {E : Set Nat} {a : Place ι} (h : Heard n news M) (t : Option ι) (hE : n ∈ E ↔ a ∈ news) :
    Heard n (pass news a (.thread t)) (M.learn t E) where
  past := h.past
  writes := h.writes
  threads u := by
    rw [WeakMemory.mem_seen_learn, h.threads u, hE]
    simp [pass]
  nulls := h.nulls
  slots index m hlast := by
    rw [h.slots index m hlast]
    simp [pass]

theorem learn_other {E : Set Nat} (h : Heard n news M) (t : Option ι) (hE : n ∉ E) :
    Heard n news (M.learn t E) where
  past := h.past
  writes := h.writes
  threads u := by
    rw [WeakMemory.mem_seen_learn, h.threads u]
    simp [hE]
  nulls := h.nulls
  slots := h.slots

theorem work (h : Heard n news M) (t : Option ι) : Heard n news (M.work t) where
  past := Nat.lt_succ_of_lt h.past
  writes := h.writes
  threads := (h.learn_other (E := {M.next}) t (Nat.ne_of_lt h.past)).threads
  nulls := h.nulls
  slots := h.slots

/-- A relaxed load passes nothing on. -/
theorem read_relaxed {x : Cell} {m : AtomicWrite (x.Value Ptr)} (h : Heard n news M)
    (t : Option ι) (hm : m ∈ M.history x) : Heard n news (M.read .relaxed t m) :=
  h.learn_other t (by simpa using (h.writes x m hm).symm)

/-- Null passes nothing on. -/
theorem read_null {index : BitVec 16} {m : AtomicWrite (Option Ptr)} (h : Heard n news M)
    (o : MemoryOrder) (t : Option ι) (hm : m ∈ M.history (.slot index)) (hnull : m.value = none) :
    Heard n news (M.read (x := .slot index) o t m) := by
  have hstamp : n ≠ m.stamp := (h.writes (.slot index) m hm).symm
  exact h.learn_other t (by simp [hstamp, h.nulls index m hm hnull])

theorem writes_put {x y : Cell} {w : AtomicWrite (x.Value Ptr)} (h : Heard n news M) (t : Option ι)
    (hstamp : w.stamp = M.next) :
    ∀ m ∈ (M.put t x (M.history x ++ [w])).history y, m.stamp ≠ n := by
  intro m hm
  by_cases hy : y = x
  · subst hy
    rw [WeakMemory.put_history, List.mem_append, List.mem_singleton] at hm
    rcases hm with hold | rfl
    · exact h.writes y m hold
    · rw [hstamp]
      exact (Nat.ne_of_lt h.past).symm
  · rw [M.put_history_of_ne t _ hy] at hm
    exact h.writes y m hm

/-- A relaxed update of `ticket_` passes nothing on. -/
theorem put_ticket {w : AtomicWrite (BitVec 16)} (h : Heard n news M) (t : Option ι)
    (hstamp : w.stamp = M.next) :
    Heard n news (M.put t .ticket (M.history .ticket ++ [w])) where
  past := (h.work t).past
  writes _ := h.writes_put t hstamp
  threads := (h.work t).threads
  nulls index m hm := by
    rw [M.put_history_of_ne t _ Cell.noConfusion] at hm
    exact h.nulls index m hm
  slots index m hlast := by
    rw [M.put_history_of_ne t _ Cell.noConfusion] at hlast
    exact h.slots index m hlast

/-- After a write to slot `index` the news is there if the write hands it on. -/
theorem put_slot {news' : Set (Place ι)} {index : BitVec 16} {w : AtomicWrite (Option Ptr)}
    (h : Heard n news M) (t : Option ι) (hstamp : w.stamp = M.next)
    (hother : ∀ p, p ≠ .slot index → (p ∈ news' ↔ p ∈ news))
    (hslot : n ∈ w.released ↔ .slot index ∈ news') (hnull : w.value = none → n ∉ w.released) :
    Heard n news' (M.put t (.slot index) (M.history (.slot index) ++ [w])) where
  past := (h.work t).past
  writes _ := h.writes_put t hstamp
  threads u := by
    rw [hother _ (by simp)]
    exact (h.work t).threads u
  nulls x m hm hvalue := by
    by_cases hx : x = index
    · subst hx
      rw [WeakMemory.put_history, List.mem_append, List.mem_singleton] at hm
      rcases hm with hold | rfl
      · exact h.nulls x m hold hvalue
      · exact hnull hvalue
    · rw [M.put_history_of_ne t _ fun heq => hx (Cell.slot.inj heq)] at hm
      exact h.nulls x m hm hvalue
  slots x m hlast := by
    by_cases hx : x = index
    · subst hx
      rw [WeakMemory.last_put] at hlast
      rwa [← Option.some.inj hlast]
    · rw [M.put_history_of_ne t _ fun heq => hx (Cell.slot.inj heq)] at hlast
      rw [hother _ fun heq => hx (Place.slot.inj heq)]
      exact h.slots x m hlast

end Heard

/-- One step spreads the news. -/
theorem WeakStep.heard {n : Nat} {news : Set (Place ι)} {s t : WeakSystem ι Ptr}
    {e : WeakEvent ι Ptr} (hinv : WeakInv s) (hh : Heard n news s.memory) (h : WeakStep s e t) :
    Heard n (spread news e) t.memory := by
  have hstep := h
  cases h with
  | pushCall | pushNull | popCall => exact hh
  | @ticket i ptr retries m memory hpc hadd =>
    obtain ⟨hlast, rfl⟩ := hadd.append hinv.tickets fun _ hupdate => hupdate
    exact (hh.read_relaxed (some i) (List.mem_of_getLast? hlast)).put_ticket (some i) rfl
  | @publish i ptr retries ticket m memory hpc hnull hcas =>
    have hchain := (hinv.slots (indexFromTicket ticket)).chain
    obtain ⟨hlast, rfl⟩ := hcas.append hchain fun m' hfollows => (hfollows.pointer hnull).2
    have hm := List.mem_of_getLast? hlast
    have hread := hh.read_relaxed (some i) hm
    have hno := hh.nulls _ m hm hnull
    have hempty : .slot (indexFromTicket ticket) ∉ news := by
      rwa [← hh.slots _ m hlast]
    refine hread.put_slot (some i) rfl (fun p hp => by simp [spread, pass, hp]) ?_ ?_
    · rw [WeakMemory.mem_released_write, hread.threads]
      simp [spread, pass, hno, hempty, Nat.ne_of_lt hread.past]
    · exact fun hvalue => nomatch hvalue
  | collide hpc hvalue hcas | reject hpc hvalue hcas =>
    obtain rfl := hcas.eq
    exact hh.read_relaxed _ hcas.mem
  | miss hpc hload hnull | popEmpty hpc hload hnull =>
    obtain rfl := hload.eq
    exact hh.read_null _ _ hload.mem hnull
  | @load retries ptr m memory hpc hload hvalue =>
    obtain ⟨pre, post, hslot, hpost⟩ := hload.readable
    have hlast := (hinv.slots s.head).pointer_last hslot hpost (by rw [hvalue]; simp)
    obtain rfl := hload.eq
    refine hh.learn none ?_
    have hstamp : n ≠ m.stamp := (hh.writes (.slot s.head) m hload.mem).symm
    rw [← hh.slots s.head m hlast]
    simp [hstamp]
  | @deliver index memory hpc hstore =>
    obtain rfl := hstore.append (hinv.held index hpc).last_known
    have hnext : n ≠ s.memory.next := Nat.ne_of_lt hh.past
    refine hh.put_slot none rfl (fun p hp => by simp [spread, hp]) ?_ fun _ => ?_
    · rw [WeakMemory.mem_released_write]
      simp [spread, hnext]
    · rw [WeakMemory.mem_released_write]
      simp [hnext]
  | work u => exact hh.work u
  | synchronise u v => exact hh.learn u (hh.threads v)

-- ---------------------------------------------------------------------------
-- Runs
-- ---------------------------------------------------------------------------

omit [DecidableEq ι] in
theorem past_init : (WeakSystem.init : WeakSystem ι Ptr).memory.Past where
  seen _ _ hn := by
    rw [Set.mem_singleton_iff.mp hn]
    exact Nat.zero_lt_one
  written x m hm := by
    cases x with
    | ticket | slot =>
      rw [List.mem_singleton.mp hm]
      exact ⟨Nat.zero_lt_one, fun _ hn => hn.elim⟩

theorem WeakStep.past {s t : WeakSystem ι Ptr} {e : WeakEvent ι Ptr} (hpast : s.memory.Past)
    (h : WeakStep s e t) : t.memory.Past := by
  cases h with
  | pushCall | pushNull | popCall => exact hpast
  | ticket hpc hadd => exact hpast.update hadd
  | publish hpc hnull hcas => exact hpast.update hcas
  | collide hpc hvalue hcas | reject hpc hvalue hcas => exact hpast.load hcas
  | miss hpc hload | popEmpty hpc hload | load hpc hload => exact hpast.load hload
  | deliver hpc hstore => exact hpast.store hstore
  | work u => exact hpast.work u
  | synchronise u v => exact hpast.learn (hpast.seen v) u

/-- When it happens, an event is known to its own thread alone. -/
theorem heard_work {s : WeakSystem ι Ptr} (hpast : s.memory.Past) (u : Option ι) :
    Heard s.memory.next {.thread u} (s.memory.work u) where
  past := Nat.lt_succ_self _
  writes x m hm := Nat.ne_of_lt (hpast.written x m hm).1
  threads v := by
    have hunknown : s.memory.next ∉ s.memory.seen v := fun hn =>
      absurd (hpast.seen v _ hn) (Nat.lt_irrefl _)
    show s.memory.next ∈ (s.memory.learn u {s.memory.next}).seen v ↔ _
    rw [WeakMemory.mem_seen_learn]
    simp [hunknown]
  nulls index m hm _ hn := absurd ((hpast.written (.slot index) m hm).2 _ hn) (Nat.lt_irrefl _)
  slots index m hlast := by
    have hunknown : s.memory.next ∉ m.released := fun hn =>
      absurd ((hpast.written (.slot index) m (List.mem_of_getLast? hlast)).2 _ hn) (Nat.lt_irrefl _)
    simp [hunknown]

theorem run_heard {n : Nat} {news : Set (Place ι)} {es : List (WeakEvent ι Ptr)}
    {s t : WeakSystem ι Ptr} (h : Run WeakStep s es t) (hinv : WeakInv s)
    (hh : Heard n news s.memory) : Heard n (es.foldl spread news) t.memory := by
  induction h generalizing news with
  | nil => exact hh
  | cons hst _ ih => exact ih (hst.weakInv hinv) (hst.heard hinv hh)

/-- **The ways of the news.** Who knows of an event is decided by what happened after
it. -/
theorem heard_after_work {pre es : List (WeakEvent ι Ptr)} {r s t : WeakSystem ι Ptr}
    {u : Option ι} {n : Nat} (hpre : Run WeakStep .init pre r) (hwork : WeakStep r (.work u n) s)
    (hrun : Run WeakStep s es t) : Heard n (es.foldl spread {.thread u}) t.memory := by
  have hpast := hpre.invariant (I := fun s => s.memory.Past) (fun _ _ _ hp hst => hst.past hp)
    past_init
  have hinv := hwork.weakInv (run_weakInv hpre weakInv_init)
  cases hwork with
  | work => exact run_heard hrun hinv (heard_work hpast u)

-- ---------------------------------------------------------------------------
-- Through the queue alone
-- ---------------------------------------------------------------------------

/-- Producer `i` publishes a pointer to slot `index`, which is not delivered after
that. -/
def Published (i : ι) (index : BitVec 16) (es : List (WeakEvent ι Ptr)) : Prop :=
  ∃ pre ptr post, es = pre ++ .queue (.publish i index ptr) :: post ∧
    ∀ e ∈ post, ∀ out, e ≠ .queue (.deliver index out)

/-- The consumer loads a pointer that producer `i` has published. -/
def Received (i : ι) (es : List (WeakEvent ι Ptr)) : Prop :=
  ∃ pre index ptr post, es = pre ++ .queue (.load index ptr) :: post ∧ Published i index pre

omit [DecidableEq ι] in
theorem published_snoc {i : ι} {index : BitVec 16} {es : List (WeakEvent ι Ptr)}
    {e : WeakEvent ι Ptr} : Published i index (es ++ [e]) ↔
      (∃ ptr, e = .queue (.publish i index ptr)) ∨
        Published i index es ∧ ∀ out, e ≠ .queue (.deliver index out) := by
  constructor
  · rintro ⟨pre, ptr, post, hes, hpost⟩
    obtain ⟨rfl, rfl, rfl⟩ | ⟨post, rfl, rfl⟩ := split_snoc hes
    · exact Or.inl ⟨ptr, rfl⟩
    · obtain ⟨hold, hnew⟩ := List.forall_mem_append.mp hpost
      exact Or.inr ⟨⟨pre, ptr, post, rfl, hold⟩, List.forall_mem_singleton.mp hnew⟩
  · rintro (⟨ptr, rfl⟩ | ⟨⟨pre, ptr, post, rfl, hpost⟩, hkeep⟩)
    · exact ⟨es, ptr, [], rfl, List.forall_mem_nil _⟩
    · refine ⟨pre, ptr, post ++ [e], by rw [List.append_assoc, List.cons_append], ?_⟩
      exact List.forall_mem_append.mpr ⟨hpost, List.forall_mem_singleton.mpr hkeep⟩

omit [DecidableEq ι] in
theorem received_snoc {i : ι} {es : List (WeakEvent ι Ptr)} {e : WeakEvent ι Ptr} :
    Received i (es ++ [e]) ↔
      Received i es ∨ ∃ index ptr, e = .queue (.load index ptr) ∧ Published i index es := by
  constructor
  · rintro ⟨pre, index, ptr, post, hes, hpublished⟩
    obtain ⟨rfl, rfl, rfl⟩ | ⟨post, rfl, rfl⟩ := split_snoc hes
    · exact Or.inr ⟨index, ptr, rfl, hpublished⟩
    · exact Or.inl ⟨pre, index, ptr, post, rfl, hpublished⟩
  · rintro (⟨pre, index, ptr, post, rfl, hpublished⟩ | ⟨index, ptr, rfl, hpublished⟩)
    · exact ⟨pre, index, ptr, post ++ [e], by rw [List.append_assoc, List.cons_append], hpublished⟩
    · exact ⟨es, index, ptr, [], rfl, hpublished⟩

omit [DecidableEq ι] in
/-- Where the news of an event of thread `u` is if nobody synchronises by other
means. -/
theorem foldl_spread {u : Option ι} {es : List (WeakEvent ι Ptr)}
    (hqueue : ∀ e ∈ es, ∀ t v, e ≠ .synchronise t v) :
    (∀ v, .thread v ∈ es.foldl spread {.thread u} ↔
      v = u ∨ v = none ∧ ∃ i, u = some i ∧ Received i es) ∧
    ∀ index, .slot index ∈ es.foldl spread {.thread u} ↔ ∃ i, u = some i ∧ Published i index es := by
  induction es using List.reverseRecOn with
  | nil => simp [Published, Received]
  | append_singleton es e ih =>
    obtain ⟨hold, hnew⟩ := List.forall_mem_append.mp hqueue
    obtain ⟨hthreads, hslots⟩ := ih hold
    rw [List.foldl_append]
    constructor
    · intro v
      cases e with
      | queue e =>
        cases e with
        | load index ptr =>
          simp [spread, pass, received_snoc, hthreads, hslots, and_or_left, exists_or, or_assoc]
        | _ => simp [spread, pass, received_snoc, hthreads]
      | work t n => simp [spread, received_snoc, hthreads]
      | synchronise t v => exact absurd rfl (hnew _ (List.mem_singleton_self _) t v)
    · intro index
      cases e with
      | queue e =>
        cases e with
        | publish i x ptr =>
          simp [spread, pass, published_snoc, hthreads, hslots, and_or_left, exists_or, or_comm,
            and_comm, eq_comm]
        | deliver x out =>
          simp [spread, published_snoc, hslots, eq_comm, ← and_assoc]
        | _ => simp [spread, pass, published_snoc, hslots]
      | work t n => simp [spread, published_snoc, hslots]
      | synchronise t v => exact absurd rfl (hnew _ (List.mem_singleton_self _) t v)

/--
**The queue is one way.** If the threads do not synchronise by other means, an
event of thread `u` outside the queue is known to `u` and, as soon as the consumer has
loaded a pointer that `u` has published after the event, to the consumer; nobody else
gets to know of it, and in particular no producer knows of an event of the consumer.
-/
theorem happens_before_iff {pre es : List (WeakEvent ι Ptr)} {r s t : WeakSystem ι Ptr}
    {u : Option ι} {n : Nat} (hpre : Run WeakStep .init pre r) (hwork : WeakStep r (.work u n) s)
    (hrun : Run WeakStep s es t) (hqueue : ∀ e ∈ es, ∀ t v, e ≠ .synchronise t v) (v : Option ι) :
    n ∈ t.memory.seen v ↔ v = u ∨ v = none ∧ ∃ i, u = some i ∧ Received i es := by
  rw [(heard_after_work hpre hwork hrun).threads v]
  exact (foldl_spread hqueue).1 v

/-- Producer 0 does some work, the event 1, and pushes 7; the consumer pops it. -/
theorem message_sent :
    ∃ a b c d e : WeakSystem (Fin 2) Nat, WeakStep .init (.work (some 0) 1) a ∧
      Run WeakStep a [.queue (.pushCall 0 7), .queue (.ticket 0 0)] b ∧
      WeakStep b (.queue (.publish 0 (indexFromTicket 0) 7)) c ∧
      Run WeakStep c [.queue .popCall, .queue (.load 0 7)] d ∧
      WeakStep d (.queue (.deliver 0 (some 7))) e := by
  refine ⟨_, _, _, _, _, .work (some 0),
    .cons (.pushCall rfl) (.single (.ticket (m := WeakSystem.initialWrite 0) rfl
      (.of_last _ _ _ _ rfl))),
    .publish (m := WeakSystem.initialWrite none) rfl rfl (.of_last _ _ _ _ rfl),
    .cons (.popCall rfl) (.single (.load rfl (.of_last _ _ rfl) rfl)),
    .deliver rfl (.of_last _ _ _ _)⟩

/-- The event 1 comes with the 7. -/
theorem publication_synchronizes_message :
    ∃ b e : WeakSystem (Fin 2) Nat, 1 ∈ b.memory.seen (some 0) ∧
      Run WeakStep b [.queue (.publish 0 (indexFromTicket 0) 7), .queue .popCall,
        .queue (.load 0 7), .queue (.deliver 0 (some 7))] e ∧ 1 ∈ e.memory.seen none := by
  obtain ⟨a, b, c, d, e, hwork, hpush, hpublish, hpop, hdeliver⟩ := message_sent
  have hknown : 1 ∈ a.memory.seen (some 0) := by
    cases hwork with
    | work => exact WeakMemory.work_seen _ (some 0)
  have hknown' := run_seen_mono hpush (some 0) hknown
  have hpre := (Run.single hwork).append hpush
  exact ⟨b, e, hknown', ((Run.single hpublish).append hpop).snoc hdeliver,
    (publication_synchronizes hpre hpublish hpop (by simp) hdeliver).2 hknown'⟩

/-- The consumer gets to know of the event 1, and producer 1 does not. -/
theorem happens_before_iff_message :
    ∃ (es : List (WeakEvent (Fin 2) Nat)) (e : WeakSystem (Fin 2) Nat),
      Run WeakStep .init (.work (some 0) 1 :: es) e ∧ 1 ∈ e.memory.seen none ∧
        1 ∉ e.memory.seen (some 1) := by
  obtain ⟨a, b, c, d, e, hwork, hpush, hpublish, hpop, hdeliver⟩ := message_sent
  have hrun := ((hpush.snoc hpublish).append hpop).snoc hdeliver
  have hreceived : Received (0 : Fin 2) [.queue (.pushCall 0 7), .queue (.ticket 0 0),
      .queue (.publish 0 (indexFromTicket 0) 7), .queue .popCall, .queue (.load 0 7),
      .queue (.deliver 0 (some 7))] :=
    ⟨[_, _, _, _], 0, 7, [_], rfl, [_, _], 7, [_], rfl, by simp⟩
  have hiff := happens_before_iff (.nil _) hwork hrun (by simp)
  refine ⟨_, e, .cons hwork hrun, (hiff none).mpr (Or.inr ⟨rfl, 0, rfl, hreceived⟩), ?_⟩
  rw [hiff]
  simp

end Destiny.Replay
