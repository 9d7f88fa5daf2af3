import Mathlib.Algebra.BigOperators.Group.Finset.Basic
import Mathlib.Data.Multiset.AddSub
import Destiny.Replay.Effects

/-!
# BoundMPSC — conservation of pointers

Whatever the interleaving, a pointer that a `compare_exchange` stored is in
its slot until `pop` delivers it, once:

* `run_stored_balance` — stored = delivered + contents, as multisets;
* `push_accounting` — a `push` that returned true stored its pointer exactly
  once, a `push` that returned false stored nothing;
* `bag_conserves_pointers` — both, for every run from a fresh queue.

The balance is an instance of `Run.balance`; what makes the delivering step
balance is `ConsumerInv`: the slot being cleared still has the pointer that
`pop` is about to return.
-/

namespace Destiny.Replay

open Foundation

variable {ι Ptr : Type*}

-- ---------------------------------------------------------------------------
-- Quantities
-- ---------------------------------------------------------------------------

/-- A nullable pointer as a multiset of pointers. -/
def pointers : Option Ptr → Multiset Ptr
  | none => 0
  | some ptr => {ptr}

/-- The pointers in the slots of a buffer. (Irreducible: unfolding a sum over
all slots is never what a proof wants.) -/
@[irreducible] def bufferContents (buffer : BitVec 16 → Option Ptr) : Multiset Ptr :=
  ∑ index, pointers (buffer index)

/-- The pointers in the slots of a queue. -/
def BoundMPSC.contents (q : BoundMPSC Ptr) : Multiset Ptr := bufferContents q.buffer

/-- What a step stores by a successful `compare_exchange`. -/
def Event.stored : Event ι Ptr → Multiset Ptr
  | .publish _ _ ptr => {ptr}
  | _ => 0

/-- What a step stores on behalf of producer `i`. -/
def Event.storedBy [DecidableEq ι] (i : ι) : Event ι Ptr → Multiset Ptr
  | .publish j _ ptr => if j = i then {ptr} else 0
  | _ => 0

/-- What a step delivers by a returning `pop`. -/
def Event.delivered : Event ι Ptr → Multiset Ptr
  | .deliver _ out => pointers out
  | _ => 0

/-- The pointers stored in a run. -/
def stored (es : List (Event ι Ptr)) : Multiset Ptr := (es.map Event.stored).sum

/-- The pointers stored in a run by producer `i`. -/
def storedBy [DecidableEq ι] (i : ι) (es : List (Event ι Ptr)) : Multiset Ptr :=
  (es.map (Event.storedBy i)).sum

/-- The pointers delivered in a run. -/
def delivered (es : List (Event ι Ptr)) : Multiset Ptr := (es.map Event.delivered).sum

-- ---------------------------------------------------------------------------
-- Contents under an update of one slot
-- ---------------------------------------------------------------------------

theorem bufferContents_update (buffer : BitVec 16 → Option Ptr) (index : BitVec 16)
    (slot : Option Ptr) :
    bufferContents (Function.update buffer index slot) + pointers (buffer index) =
      bufferContents buffer + pointers slot := by
  classical
  -- split the sum into the updated slot and all the others
  have hsum : ∀ b : BitVec 16 → Option Ptr, ∑ x, pointers (b x) =
      pointers (b index) + ∑ x ∈ Finset.univ.erase index, pointers (b x) := fun b =>
    (Finset.add_sum_erase Finset.univ (fun x => pointers (b x)) (Finset.mem_univ index)).symm
  have hrest : ∑ x ∈ Finset.univ.erase index, pointers (Function.update buffer index slot x) =
      ∑ x ∈ Finset.univ.erase index, pointers (buffer x) := by
    refine Finset.sum_congr rfl fun x hx => ?_
    rw [Function.update_of_ne (Finset.ne_of_mem_erase hx)]
  unfold bufferContents
  rw [hsum, hsum buffer, hrest, Function.update_self]
  abel

theorem contents_empty : (BoundMPSC.empty : BoundMPSC Ptr).contents = 0 := by
  unfold BoundMPSC.contents bufferContents
  exact Finset.sum_eq_zero fun _ _ => rfl

variable [DecidableEq ι]

-- ---------------------------------------------------------------------------
-- Stored = delivered + contents
-- ---------------------------------------------------------------------------

/-- The balance of one step. -/
theorem step_stored_balance {s t : System ι Ptr} {e : Event ι Ptr}
    (hinv : ConsumerInv s) (h : Step s e t) :
    t.queue.contents + e.delivered = s.queue.contents + e.stored := by
  cases h.transition with
  | @publish i ptr retries ticket hpc hslot =>
    have hupd := bufferContents_update s.queue.buffer (indexFromTicket ticket) (some ptr)
    rw [hslot] at hupd
    exact hupd
  | @deliver index hpc =>
    -- the slot still has the pointer the consumer loaded
    have hupd := bufferContents_update s.queue.buffer index none
    rw [hinv.held index hpc] at hupd
    exact hupd
  | _ => rfl

/-- **Conservation.** Along a run, what is stored is delivered or is in the
slots. -/
theorem run_stored_balance {s t : System ι Ptr} {es : List (Event ι Ptr)}
    (hinv : ConsumerInv s) (h : Run Step s es t) :
    t.queue.contents + delivered es = s.queue.contents + stored es := by
  have hbal := h.balance (fun s => s.queue.contents) Event.stored Event.delivered
    (fun _ _ _ hI hstep => step_consumerInv hI hstep)
    (fun _ _ _ hI hstep => step_stored_balance hI hstep) hinv
  unfold delivered stored
  exact hbal

-- ---------------------------------------------------------------------------
-- What one push accounts for
-- ---------------------------------------------------------------------------

/-- Producer `i` stores only in the step its `push` returns with. -/
theorem storedBy_eq_zero {i : ι} {es : List (Event ι Ptr)}
    (hret : ∀ e ∈ es, ∀ b, e.pushReturn? ≠ some (i, b)) : storedBy i es = 0 := by
  unfold storedBy
  apply List.sum_eq_zero
  intro m hm
  obtain ⟨e, he, rfl⟩ := List.mem_map.mp hm
  cases e with
  | publish j index ptr =>
    have hne : j ≠ i := by
      rintro rfl
      exact hret _ he true rfl
    simp [Event.storedBy, hne]
  | _ => rfl

/-- From its call to its return, a `push(ptr)` that returns true stores `ptr`
once, and a `push(ptr)` that returns false stores nothing. -/
theorem push_accounting {s t u : System ι Ptr} {mid : List (Event ι Ptr)} {e : Event ι Ptr}
    {i : ι} {ptr : Ptr} {b : Bool}
    (hpush : InPush s i ptr) (hmid : Run Step s mid t) (hstep : Step t e u)
    (hret : ∀ e ∈ mid, ∀ b, e.pushReturn? ≠ some (i, b)) (hlast : e.pushReturn? = some (i, b)) :
    storedBy i (mid ++ [e]) = if b then {ptr} else 0 := by
  have hin : InPush t i ptr := run_inPush hmid hpush hret
  have hzero := storedBy_eq_zero hret
  have happ : storedBy i (mid ++ [e]) = storedBy i mid + e.storedBy i := by
    simp [storedBy]
  rw [happ, hzero, zero_add]
  cases hstep.transition with
  | pushNull hidle =>
    -- an idle producer is not inside a call
    simp only [Event.pushReturn?, Option.some.injEq, Prod.mk.injEq] at hlast
    obtain ⟨rfl, rfl⟩ := hlast
    simp [InPush, hidle] at hin
  | publish hpc hslot =>
    simp only [Event.pushReturn?, Option.some.injEq, Prod.mk.injEq] at hlast
    obtain ⟨rfl, rfl⟩ := hlast
    simp only [InPush, hpc] at hin
    rcases hin with ⟨retries, hin⟩ | ⟨retries, ticket, hin⟩
    · simp at hin
    · -- the pointer in the producer's hands is the one it was called with
      simp only [Producer.publishing.injEq] at hin
      simp [Event.storedBy, hin.1]
  | reject hpc hslot =>
    simp only [Event.pushReturn?, Option.some.injEq, Prod.mk.injEq] at hlast
    obtain ⟨rfl, rfl⟩ := hlast
    simp [Event.storedBy]
  | _ => simp [Event.pushReturn?] at hlast

-- ---------------------------------------------------------------------------
-- Main result
-- ---------------------------------------------------------------------------

/--
**No pointer is lost, overwritten, duplicated or invented.** After every run
from a fresh queue, by any number of producers and one consumer:

* the pointers stored are those delivered plus those in the slots;
* a pointer the consumer has loaded but not yet cleared is still in its slot,
  so it is counted there, once;
* every `push(ptr)` that has returned true stored `ptr` exactly once, every
  `push` that has returned false stored nothing.
-/
theorem bag_conserves_pointers {es : List (Event ι Ptr)} {s : System ι Ptr}
    (h : Run Step .init es s) :
    stored es = delivered es + s.queue.contents ∧
    (∀ index, s.consumer = .clearing index →
      ∃ ptr, s.out = some ptr ∧ s.queue.buffer index = some ptr) ∧
    (∀ pre i ptr mid e b post, es = pre ++ .pushCall i ptr :: mid ++ e :: post →
      (∀ e ∈ mid, ∀ b, e.pushReturn? ≠ some (i, b)) → e.pushReturn? = some (i, b) →
      storedBy i (mid ++ [e]) = if b then {ptr} else 0) := by
  refine ⟨?_, ?_, ?_⟩
  · have hbal := run_stored_balance consumerInv_init h
    rw [System.init, contents_empty, zero_add] at hbal
    rw [← hbal, add_comm]
  · intro index hclear
    have hinv := reachable_consumerInv ⟨es, h⟩
    obtain ⟨ptr, hptr⟩ := Option.ne_none_iff_exists'.mp (hinv.out index hclear)
    exact ⟨ptr, hptr, (hinv.held index hclear).trans hptr⟩
  · intro pre i ptr mid e b post hes hret hlast
    rw [hes, List.append_assoc] at h
    obtain ⟨s₁, s₂, -, hcall, hrest⟩ := h.split_cons
    obtain ⟨s₃, s₄, hmid, hstep, -⟩ := hrest.split_cons
    have hin : InPush s₂ i ptr := Or.inl ⟨0, hcall.producer_of_pushCall⟩
    exact push_accounting hin hmid hstep hret hlast

/-- Producer 0 draws ticket 0 and is overtaken by producer 1, which publishes
first; the consumer has loaded 0's pointer and not yet cleared its slot. -/
theorem bag_conserves_pointers_overtaken :
    ∃ (es : List (Event (Fin 2) Nat)) (s : System (Fin 2) Nat),
      Run Step .init es s ∧ stored es = {9} + {7} ∧ stored es = delivered es + s.queue.contents ∧
      (∃ ptr, s.out = some ptr ∧ s.queue.buffer 0 = some ptr) ∧
      storedBy 0 ([.ticket 0 0, .pushCall 1 9, .ticket 1 1, .publish 1 256 9] ++
        [(.publish 0 0 7 : Event (Fin 2) Nat)]) = {7} := by
  have hrun := run_of_exec (s := (System.init : System (Fin 2) Nat))
    [.push 0 (some 7), .producer 0, .push 1 (some 9), .producer 1, .producer 1, .producer 0,
      .pop, .consumer] rfl
  obtain ⟨hbal, hheld, hpush⟩ := bag_conserves_pointers hrun
  refine ⟨_, _, hrun, rfl, hbal, hheld 0 rfl, ?_⟩
  exact hpush [] 0 7 _ (.publish 0 0 7) true [.popCall, .load 0 7] rfl (by simp [Event.pushReturn?])
    rfl

end Destiny.Replay
