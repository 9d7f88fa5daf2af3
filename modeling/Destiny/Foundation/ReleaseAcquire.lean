import Mathlib.Data.List.Chain
import Mathlib.Data.Set.Insert

/-!
# Atomic locations with release and acquire accesses

A memory in which a thread may read stale writes. Every location keeps the
history of its writes in modification order. A thread knows a set of events: what
happens before its next access, and the writes that have been read there. It may
read every write that no later write it knows of has replaced. A releasing write
hands the writer's knowledge on to the threads that acquire it; a relaxed access
hands on nothing but the write itself. A write may go anywhere behind the writes
its thread knows, but not between an atomic update and the write it read.

These are the executions of the C++ memory model without fences and sequentially
consistent accesses in which program order together with reads-from has no cycle,
as in RC11: nobody reads a write that is made later. Load buffering, which C++
allows for relaxed accesses, is left out.

* `Load`, `Store`, `Update` — the accesses.
* `…seen_mono`, `…history_of_ne` — what an access leaves alone.
* `Load.of_last`, `Store.of_last`, `Update.of_last` — the last write can always be
  read, and a write can always go last.
* `Load.last`, `Store.append`, `Update.append` — where there is no other way.
* `Past` — only what has happened is known.
-/

namespace Foundation

variable {Tid Loc : Type*}

/-- The `memory_order` of an access. -/
inductive MemoryOrder
  | relaxed
  | acquire
  | release
deriving DecidableEq

/-- A write to a location. -/
structure AtomicWrite (V : Type*) where
  -- the event of writing
  stamp    : Nat
  value    : V
  -- what a thread learns that acquires this write
  released : Set Nat
  -- written by an atomic update of the write before it
  update   : Bool

/-- The writes to each location, the oldest first, and what each thread knows. -/
structure WeakMemory (Tid Loc : Type*) (V : Loc → Type*) where
  history : (x : Loc) → List (AtomicWrite (V x))
  seen    : Tid → Set Nat
  next    : Nat

namespace WeakMemory

variable {V : Loc → Type*} {M M' : WeakMemory Tid Loc V} {o o' : MemoryOrder} {t u : Tid}
  {x y : Loc} {m : AtomicWrite (V x)} {v : V x}

-- ---------------------------------------------------------------------------
-- Knowledge
-- ---------------------------------------------------------------------------

/-- Thread `t` knows none of the writes `post`. -/
def Unseen (M : WeakMemory Tid Loc V) (t : Tid) (post : List (AtomicWrite (V x))) : Prop :=
  ∀ m ∈ post, m.stamp ∉ M.seen t

/-- Behind a write that a thread knows there is nothing it does not know. -/
theorem Unseen.eq_nil {pre post : List (AtomicWrite (V x))} (h : M.Unseen t post)
    (hlast : ∀ m ∈ (pre ++ post).getLast?, m.stamp ∈ M.seen t) : post = [] := by
  by_contra hne
  refine h _ (List.getLast_mem hne) (hlast _ ?_)
  rw [List.getLast?_append_of_ne_nil _ hne, List.getLast?_eq_some_getLast hne]
  rfl

variable [DecidableEq Tid]

/-- Thread `t` comes to know the events `E`. -/
def learn (M : WeakMemory Tid Loc V) (t : Tid) (E : Set Nat) : WeakMemory Tid Loc V :=
  { M with seen := Function.update M.seen t (M.seen t ∪ E) }

/-- An event of thread `t`, outside the atomic locations or in one. -/
def work (M : WeakMemory Tid Loc V) (t : Tid) : WeakMemory Tid Loc V :=
  { M.learn t {M.next} with next := M.next + 1 }

theorem mem_seen_learn {M : WeakMemory Tid Loc V} {t u : Tid} {E : Set Nat} {n : Nat} :
    n ∈ (M.learn t E).seen u ↔ n ∈ M.seen u ∨ u = t ∧ n ∈ E := by
  by_cases h : u = t
  · subst h
    simp [learn]
  · simp [learn, h]

theorem seen_learn (M : WeakMemory Tid Loc V) (t u : Tid) (E : Set Nat) :
    M.seen u ⊆ (M.learn t E).seen u :=
  fun _ h => mem_seen_learn.mpr (Or.inl h)

theorem learned (M : WeakMemory Tid Loc V) (t : Tid) (E : Set Nat) : E ⊆ (M.learn t E).seen t :=
  fun _ h => mem_seen_learn.mpr (Or.inr ⟨rfl, h⟩)

/-- A thread knows its own events. -/
theorem work_seen (M : WeakMemory Tid Loc V) (t : Tid) : M.next ∈ (M.work t).seen t :=
  M.learned t {M.next} rfl

-- ---------------------------------------------------------------------------
-- Loads
-- ---------------------------------------------------------------------------

/-- Thread `t` reads the write `m`. -/
def read (M : WeakMemory Tid Loc V) (o : MemoryOrder) (t : Tid) (m : AtomicWrite (V x)) :
    WeakMemory Tid Loc V :=
  M.learn t (insert m.stamp (if o = .acquire then m.released else ∅))

/-- A load by thread `t` gives the write `m`. -/
structure Load (M : WeakMemory Tid Loc V) (o : MemoryOrder) (t : Tid) (x : Loc)
    (m : AtomicWrite (V x)) (M' : WeakMemory Tid Loc V) : Prop where
  readable : ∃ pre post, M.history x = pre ++ m :: post ∧ M.Unseen t post
  eq       : M' = M.read o t m

theorem read_seen (M : WeakMemory Tid Loc V) (o : MemoryOrder) (t : Tid) (m : AtomicWrite (V x)) :
    m.stamp ∈ (M.read o t m).seen t :=
  M.learned t _ (Set.mem_insert _ _)

namespace Load

theorem seen_mono (h : M.Load o t x m M') (u : Tid) : M.seen u ⊆ M'.seen u := by
  rw [h.eq]
  exact seen_learn M t u _

theorem stamp_seen (h : M.Load o t x m M') : m.stamp ∈ M'.seen t := by
  rw [h.eq]
  exact M.read_seen o t m

/-- Acquiring a write brings what it releases. -/
theorem acquired (h : M.Load .acquire t x m M') : m.released ⊆ M'.seen t := by
  rw [h.eq, read, if_pos rfl]
  exact (Set.subset_insert _ _).trans (M.learned t _)

theorem mem (h : M.Load o t x m M') : m ∈ M.history x := by
  obtain ⟨pre, post, hhistory, -⟩ := h.readable
  rw [hhistory]
  exact List.mem_append_right _ List.mem_cons_self

theorem history_eq (h : M.Load o t x m M') : M'.history = M.history := by
  rw [h.eq]
  rfl

end Load

/-- The last write can be read. -/
theorem Load.of_last (o : MemoryOrder) (t : Tid) (h : (M.history x).getLast? = some m) :
    M.Load o t x m (M.read o t m) := by
  obtain ⟨pre, hpre⟩ := List.getLast?_eq_some_iff.mp h
  exact ⟨⟨pre, [], hpre, List.forall_mem_nil _⟩, rfl⟩

/-- A thread that knows the last write reads it. -/
theorem Load.last (h : M.Load o t x m M')
    (hlast : ∀ m ∈ (M.history x).getLast?, m.stamp ∈ M.seen t) :
    (M.history x).getLast? = some m := by
  obtain ⟨pre, post, hhistory, hpost⟩ := h.readable
  have hsplit : M.history x = (pre ++ [m]) ++ post := by
    rw [hhistory, List.append_assoc, List.singleton_append]
  rw [hsplit] at hlast
  rw [hsplit, hpost.eq_nil hlast, List.append_nil, List.getLast?_concat]

-- ---------------------------------------------------------------------------
-- Stores and atomic updates
-- ---------------------------------------------------------------------------

/-- What thread `t` writes; `E` is handed on in any case. -/
def write (M : WeakMemory Tid Loc V) (o : MemoryOrder) (t : Tid) (E : Set Nat) (update : Bool)
    (v : V x) : AtomicWrite (V x) :=
  ⟨M.next, v, insert M.next E ∪ (if o = .release then M.seen t else ∅), update⟩

omit [DecidableEq Tid] in
theorem mem_released_write {E : Set Nat} {b : Bool} {n : Nat} :
    n ∈ (M.write o t E b v).released ↔ n = M.next ∨ n ∈ E ∨ o = .release ∧ n ∈ M.seen t := by
  simp only [write, Set.mem_union, Set.mem_insert_iff, Set.mem_ite_empty_right, or_assoc]

variable [DecidableEq Loc]

/-- Thread `t` has written to `x`, whose history is now `h`. -/
def put (M : WeakMemory Tid Loc V) (t : Tid) (x : Loc) (h : List (AtomicWrite (V x))) :
    WeakMemory Tid Loc V :=
  { M.work t with history := Function.update M.history x h }

/-- Thread `t` stores `v`. -/
def Store (M : WeakMemory Tid Loc V) (o : MemoryOrder) (t : Tid) (x : Loc) (v : V x)
    (M' : WeakMemory Tid Loc V) : Prop :=
  ∃ pre post, M.history x = pre ++ post ∧ M.Unseen t post ∧ (∀ m ∈ post.head?, m.update = false) ∧
    M' = M.put t x (pre ++ M.write o t ∅ false v :: post)

/-- Thread `t` reads the write `m` and stores `v` in one atomic access, with the
order `o` for reading and `o'` for storing. -/
def Update (M : WeakMemory Tid Loc V) (o o' : MemoryOrder) (t : Tid) (x : Loc)
    (m : AtomicWrite (V x)) (v : V x) (M' : WeakMemory Tid Loc V) : Prop :=
  ∃ pre post, M.history x = pre ++ m :: post ∧ M.Unseen t post ∧
    (∀ m' ∈ post.head?, m'.update = false) ∧
    M' = (M.read o t m).put t x (pre ++ m :: (M.read o t m).write o' t m.released true v :: post)

theorem put_history (M : WeakMemory Tid Loc V) (t : Tid) (x : Loc) (h : List (AtomicWrite (V x))) :
    (M.put t x h).history x = h :=
  Function.update_self ..

theorem last_put (M : WeakMemory Tid Loc V) (t : Tid) (x : Loc) (h : List (AtomicWrite (V x)))
    (w : AtomicWrite (V x)) : ((M.put t x (h ++ [w])).history x).getLast? = some w := by
  rw [put_history]
  exact List.getLast?_concat

theorem put_history_of_ne (M : WeakMemory Tid Loc V) (t : Tid) (h : List (AtomicWrite (V x)))
    (hy : y ≠ x) : (M.put t x h).history y = M.history y :=
  Function.update_of_ne hy ..

theorem seen_put (M : WeakMemory Tid Loc V) (t u : Tid) (x : Loc) (h : List (AtomicWrite (V x))) :
    M.seen u ⊆ (M.put t x h).seen u :=
  seen_learn M t u _

theorem next_seen_put (M : WeakMemory Tid Loc V) (t : Tid) (x : Loc)
    (h : List (AtomicWrite (V x))) : M.next ∈ (M.put t x h).seen t :=
  M.work_seen t

namespace Store

theorem seen_mono (h : M.Store o t x v M') (u : Tid) : M.seen u ⊆ M'.seen u := by
  obtain ⟨pre, post, -, -, -, rfl⟩ := h
  exact M.seen_put t u x _

theorem history_of_ne (h : M.Store o t x v M') (hy : y ≠ x) : M'.history y = M.history y := by
  obtain ⟨pre, post, -, -, -, rfl⟩ := h
  exact M.put_history_of_ne t _ hy

/-- A write can go last. -/
theorem of_last (M : WeakMemory Tid Loc V) (o : MemoryOrder) (t : Tid) (v : V x) :
    M.Store o t x v (M.put t x (M.history x ++ [M.write o t ∅ false v])) :=
  ⟨M.history x, [], (List.append_nil _).symm, List.forall_mem_nil _, by simp, rfl⟩

/-- A thread that knows the last write can only write behind it. -/
theorem append (h : M.Store o t x v M')
    (hlast : ∀ m ∈ (M.history x).getLast?, m.stamp ∈ M.seen t) :
    M' = M.put t x (M.history x ++ [M.write o t ∅ false v]) := by
  obtain ⟨pre, post, hhistory, hpost, -, rfl⟩ := h
  rw [hhistory] at hlast
  obtain rfl := hpost.eq_nil hlast
  rw [hhistory, List.append_nil]

end Store

namespace Update

theorem seen_mono (h : M.Update o o' t x m v M') (u : Tid) : M.seen u ⊆ M'.seen u := by
  obtain ⟨pre, post, -, -, -, rfl⟩ := h
  exact (seen_learn M t u _).trans ((M.read o t m).seen_put t u x _)

theorem history_of_ne (h : M.Update o o' t x m v M') (hy : y ≠ x) :
    M'.history y = M.history y := by
  obtain ⟨pre, post, -, -, -, rfl⟩ := h
  exact (M.read o t m).put_history_of_ne t _ hy

/-- The last write can be updated. -/
theorem of_last (o o' : MemoryOrder) (t : Tid) (v : V x)
    (h : (M.history x).getLast? = some m) :
    M.Update o o' t x m v ((M.read o t m).put t x
      (M.history x ++ [(M.read o t m).write o' t m.released true v])) := by
  obtain ⟨pre, hpre⟩ := List.getLast?_eq_some_iff.mp h
  refine ⟨pre, [], hpre, List.forall_mem_nil _, by simp, ?_⟩
  rw [hpre, List.append_assoc, List.singleton_append]

/-- **Updates exclude each other.** Where `m` can only be followed by an update,
an update of `m` finds it last. -/
theorem append (h : M.Update o o' t x m v M')
    {R : AtomicWrite (V x) → AtomicWrite (V x) → Prop} (hchain : (M.history x).IsChain R)
    (hupdate : ∀ m', R m m' → m'.update = true) :
    (M.history x).getLast? = some m ∧ M' = (M.read o t m).put t x
      (M.history x ++ [(M.read o t m).write o' t m.released true v]) := by
  obtain ⟨pre, post, hhistory, -, hhead, rfl⟩ := h
  cases post with
  | nil =>
    rw [hhistory, List.append_assoc, List.singleton_append]
    exact ⟨List.getLast?_concat, rfl⟩
  | cons m' post =>
    rw [hhistory] at hchain
    have hfollows : R m m' := (List.isChain_append_cons_cons.mp hchain).2.1
    have hno : m'.update = false := hhead m' rfl
    rw [hupdate m' hfollows] at hno
    cases hno

end Update

-- ---------------------------------------------------------------------------
-- Only what has happened is known
-- ---------------------------------------------------------------------------

/-- Only events that have happened are known or handed on. -/
structure Past (M : WeakMemory Tid Loc V) : Prop where
  seen    : ∀ u, ∀ n ∈ M.seen u, n < M.next
  written : ∀ x, ∀ m ∈ M.history x, m.stamp < M.next ∧ ∀ n ∈ m.released, n < M.next

namespace Past

omit [DecidableEq Loc] in
theorem learn {E : Set Nat} (h : M.Past) (hE : ∀ n ∈ E, n < M.next) (t : Tid) :
    (M.learn t E).Past where
  seen u n hn := by
    rcases mem_seen_learn.mp hn with hold | ⟨-, hnew⟩
    · exact h.seen u n hold
    · exact hE n hnew
  written := h.written

omit [DecidableEq Loc] in
theorem work (h : M.Past) (t : Tid) : (M.work t).Past where
  seen u n hn := by
    rcases mem_seen_learn.mp hn with hold | ⟨-, rfl⟩
    · exact Nat.lt_succ_of_lt (h.seen u n hold)
    · exact Nat.lt_succ_self _
  written y m hm := ⟨Nat.lt_succ_of_lt (h.written y m hm).1,
    fun n hn => Nat.lt_succ_of_lt ((h.written y m hm).2 n hn)⟩

omit [DecidableEq Loc] in
theorem read (h : M.Past) (hm : m ∈ M.history x) (o : MemoryOrder) (t : Tid) :
    (M.read o t m).Past := by
  refine h.learn (fun n hn => ?_) t
  rcases Set.mem_insert_iff.mp hn with rfl | hn
  · exact (h.written x m hm).1
  · split at hn
    · exact (h.written x m hm).2 n hn
    · exact hn.elim

omit [DecidableEq Tid] [DecidableEq Loc] in
theorem write_released {E : Set Nat} (h : M.Past) (hE : ∀ n ∈ E, n < M.next) (o : MemoryOrder)
    (t : Tid) (b : Bool) (v : V x) : ∀ n ∈ (M.write o t E b v).released, n < M.next + 1 := by
  intro n hn
  rcases mem_released_write.mp hn with rfl | hn | ⟨-, hn⟩
  · exact Nat.lt_succ_self _
  · exact Nat.lt_succ_of_lt (hE n hn)
  · exact Nat.lt_succ_of_lt (h.seen t n hn)

theorem put {pre post : List (AtomicWrite (V x))} {E : Set Nat} (h : M.Past)
    (hE : ∀ n ∈ E, n < M.next) (hhistory : M.history x = pre ++ post) (o : MemoryOrder) (t : Tid)
    (b : Bool) (v : V x) : (M.put t x (pre ++ M.write o t E b v :: post)).Past where
  seen := (h.work t).seen
  written y m hm := by
    by_cases hy : y = x
    · subst hy
      rw [put_history, List.mem_append, List.mem_cons] at hm
      have hold : m = M.write o t E b v ∨ m ∈ M.history y := by
        rw [hhistory, List.mem_append]
        tauto
      rcases hold with rfl | hold
      · exact ⟨Nat.lt_succ_self _, h.write_released hE o t b v⟩
      · exact (h.work t).written y m hold
    · rw [put_history_of_ne _ _ _ hy] at hm
      exact (h.work t).written y m hm

omit [DecidableEq Loc] in
theorem load (h : M.Past) (hload : M.Load o t x m M') : M'.Past := by
  rw [hload.eq]
  exact h.read hload.mem o t

theorem store (h : M.Past) (hstore : M.Store o t x v M') : M'.Past := by
  obtain ⟨pre, post, hhistory, -, -, rfl⟩ := hstore
  exact h.put (fun _ hn => hn.elim) hhistory o t false v

theorem update (h : M.Past) (hupdate : M.Update o o' t x m v M') : M'.Past := by
  obtain ⟨pre, post, hhistory, -, -, rfl⟩ := hupdate
  have hm : m ∈ M.history x := hhistory ▸ List.mem_append_right _ List.mem_cons_self
  have hsplit : (M.read o t m).history x = (pre ++ [m]) ++ post := by
    rw [List.append_assoc, List.singleton_append]
    exact hhistory
  have hput := (h.read hm o t).put (h.written x m hm).2 hsplit o' t true v
  rwa [List.append_assoc, List.singleton_append] at hput

end Past

end WeakMemory

end Foundation
