import Destiny.Replay.Drain
import Destiny.Replay.PushWindow

/-!
# BoundMPSC — filling and emptying, over and over

Without overlapping calls the queue is used in rounds: a batch of pushes, then a
pop for each of them. Wherever the two counters stand, no call of such a round
fails, and the next round finds the queue as empty as the first one did.

* `pushAll_filled`    — what the pushes of a batch return and leave.
* `popAll_pending`    — what as many pops return and leave.
* `batches_round_trip` — rounds of any number and any sizes up to `capacity`.
-/

namespace Destiny.Replay

open Foundation

namespace BoundMPSC

variable {Ptr : Type*}

-- ---------------------------------------------------------------------------
-- Rounds
-- ---------------------------------------------------------------------------

/-- A `push` for each of the pointers, and what these calls return. -/
def pushAll : BoundMPSC Ptr → List Ptr → List Bool × BoundMPSC Ptr
  | q, [] => ([], q)
  | q, ptr :: ptrs =>
    let (result, q) := q.push (some ptr)
    let (results, q) := q.pushAll ptrs
    (result :: results, q)

/-- `n` times `pop`, and what these calls return. -/
def popAll : BoundMPSC Ptr → Nat → List (Bool × Option Ptr) × BoundMPSC Ptr
  | q, 0 => ([], q)
  | q, n + 1 =>
    let (result, q, out) := q.pop none
    let (results, q) := q.popAll n
    ((result, out) :: results, q)

/-- For each batch a `push` for each of its pointers and then as many times `pop`. -/
def rounds : BoundMPSC Ptr → List (List Ptr) →
    List (List Bool × List (Bool × Option Ptr)) × BoundMPSC Ptr
  | q, [] => ([], q)
  | q, batch :: batches =>
    let (pushes, q) := q.pushAll batch
    let (pops, q) := q.popAll batch.length
    let (results, q) := q.rounds batches
    ((pushes, pops) :: results, q)

-- ---------------------------------------------------------------------------
-- Filling
-- ---------------------------------------------------------------------------

/-- **Filling.** While the batch is within `capacity`, every push returns true. -/
theorem pushAll_filled (q : BoundMPSC Ptr) (ptrs rest : List Ptr)
    (h : ptrs.length + rest.length ≤ capacity) :
    (q.filled ptrs).pushAll rest =
      (List.replicate rest.length true, q.filled (ptrs ++ rest)) := by
  induction rest generalizing ptrs with
  | nil => rw [List.append_nil]; rfl
  | cons ptr rest ih =>
    rw [List.length_cons] at h
    have hrest := ih (ptrs ++ [ptr]) (by rw [List.length_append, List.length_singleton]; omega)
    rw [pushAll, push_filled q ptr (by omega)]
    dsimp only
    rw [hrest, List.append_assoc]
    rfl

-- ---------------------------------------------------------------------------
-- Emptying
-- ---------------------------------------------------------------------------

/-- **Emptying.** As many pops as there are pointers return them in the order of
the scan and leave the queue empty. -/
theorem popAll_pending (q : BoundMPSC Ptr) {n : Nat} (h : q.pending.length = n) :
    (q.popAll n).1 = q.pending.map (fun index => (true, q.buffer index)) ∧
      (q.popAll n).2.pending = [] ∧ (q.popAll n).2.ticket = q.ticket := by
  induction n generalizing q with
  | zero =>
    have hnil : q.pending = [] := List.length_eq_zero_iff.mp h
    rw [hnil]
    exact ⟨rfl, hnil, rfl⟩
  | succ n ih =>
    obtain ⟨index, rest, hpending⟩ := List.exists_cons_of_length_eq_add_one h
    have hrest := pending_take hpending
    have hlength : (q.take index).pending.length = n := by
      rw [hpending, List.length_cons] at h
      rw [hrest]
      exact Nat.succ_injective h
    obtain ⟨hout, hempty, hticket⟩ := ih (q.take index) hlength
    rw [popAll, pop_next hpending]
    dsimp only
    refine ⟨?_, hempty, hticket⟩
    rw [hout, hrest, hpending, List.map_cons]
    refine congrArg _ (List.map_congr_left fun x hx => ?_)
    have hnodup := q.pending_sorted.nodup
    rw [hpending, List.nodup_cons] at hnodup
    have hne : x ≠ index := by
      rintro rfl
      exact hnodup.1 hx
    exact congrArg (Prod.mk true) (Function.update_of_ne hne ..)

-- ---------------------------------------------------------------------------
-- One round
-- ---------------------------------------------------------------------------

theorem mem_pending_filled {q : BoundMPSC Ptr} {ptrs : List Ptr} {index : BitVec 16} :
    index ∈ (q.filled ptrs).pending ↔ dist q.ticket (indexFromTicket index) < ptrs.length := by
  rw [mem_pending]
  show ptrs[_]? ≠ none ↔ _
  rw [Ne, List.getElem?_eq_none_iff, Nat.not_le]

/-- The slots of a batch are the slots of as many tickets, one each. -/
theorem pending_filled_perm (q : BoundMPSC Ptr) {ptrs : List Ptr} (h : ptrs.length ≤ capacity) :
    ((q.filled ptrs).pending.map fun index => dist q.ticket (indexFromTicket index)).Perm
      (List.range ptrs.length) := by
  have hinj : ∀ x y : BitVec 16, dist q.ticket (indexFromTicket x) =
      dist q.ticket (indexFromTicket y) → x = y := by
    intro x y hxy
    apply indexFromTicket_injective
    rw [← lap_dist q.ticket (indexFromTicket x), hxy, lap_dist]
  rw [List.perm_ext_iff_of_nodup ((q.filled ptrs).pending_sorted.nodup.map hinj) List.nodup_range]
  intro k
  rw [List.mem_map, List.mem_range]
  constructor
  · rintro ⟨index, hindex, rfl⟩
    exact mem_pending_filled.mp hindex
  · intro hk
    have hdist : dist q.ticket (lap q.ticket k) = k := dist_lap (hk.trans_le h)
    refine ⟨indexFromTicket (lap q.ticket k), mem_pending_filled.mpr ?_, ?_⟩
    · rwa [indexFromTicket_indexFromTicket, hdist]
    · rw [indexFromTicket_indexFromTicket, hdist]

/-- **One round.** Every call returns true, and the pops return the batch in the
order in which the scan meets the slots of the tickets. -/
theorem round_trip {q : BoundMPSC Ptr} (hempty : ∀ index, q.buffer index = none) {ptrs : List Ptr}
    (h : ptrs.length ≤ capacity) :
    q.pushAll ptrs = (List.replicate ptrs.length true, q.filled ptrs) ∧
    ((q.filled ptrs).popAll ptrs.length).1 =
      (lapFilter q.head fun index => dist q.ticket (indexFromTicket index) < ptrs.length).map
        (fun index => (true, ptrs[dist q.ticket (indexFromTicket index)]?)) ∧
    ((q.filled ptrs).popAll ptrs.length).1.Perm (ptrs.map fun ptr => (true, some ptr)) ∧
    (∀ index, ((q.filled ptrs).popAll ptrs.length).2.buffer index = none) ∧
    ((q.filled ptrs).popAll ptrs.length).2.ticket = lap q.ticket ptrs.length := by
  have hperm := q.pending_filled_perm h
  have hlength : (q.filled ptrs).pending.length = ptrs.length := by
    rw [← List.length_map, hperm.length_eq, List.length_range]
  obtain ⟨hout, hleft, hticket⟩ := (q.filled ptrs).popAll_pending hlength
  have hslots : (q.filled ptrs).pending =
      lapFilter q.head fun index => dist q.ticket (indexFromTicket index) < ptrs.length :=
    ((q.filled ptrs).pending_sorted).eq (lapSorted_lapFilter _ _) fun index => by
      rw [mem_pending_filled, mem_lapFilter, decide_eq_true_iff]
  refine ⟨?_, ?_, ?_, pending_eq_nil.mp hleft, hticket⟩
  · have hfill := q.pushAll_filled [] ptrs ((Nat.zero_add _).trans_le h)
    rwa [filled_nil hempty] at hfill
  · rw [hout, hslots]
    rfl
  · -- the pointers of the batch, by the numbers of their tickets
    have hbatch : (List.range ptrs.length).map (fun k => (true, ptrs[k]?)) =
        ptrs.map fun ptr => (true, some ptr) := by
      refine List.ext_getElem (by rw [List.length_map, List.length_map, List.length_range]) ?_
      intro k hk hk'
      rw [List.getElem_map, List.getElem_map, List.getElem_range]
      rw [List.length_map] at hk'
      rw [List.getElem?_eq_getElem hk']
    rw [hout, ← hbatch]
    have hmap := hperm.map fun k => (true, ptrs[k]?)
    rwa [List.map_map] at hmap

-- ---------------------------------------------------------------------------
-- Main result
-- ---------------------------------------------------------------------------

/--
**Rounds.** From an empty queue, wherever its two counters stand, let any number
of batches follow, each of at most `capacity` pointers. In every round all pushes
return true, all pops return true, and the pops return the pointers of the batch,
each as often as it was pushed. After the last round the queue is empty and has
issued a ticket for every pointer.
-/
theorem batches_round_trip {q : BoundMPSC Ptr} (hempty : ∀ index, q.buffer index = none)
    {batches : List (List Ptr)} (hsize : ∀ batch ∈ batches, batch.length ≤ capacity) :
    List.Forall₂ (fun batch result => result.1 = List.replicate batch.length true ∧
        result.2.Perm (batch.map fun ptr => (true, some ptr))) batches (q.rounds batches).1 ∧
      (∀ index, (q.rounds batches).2.buffer index = none) ∧
      (q.rounds batches).2.ticket = lap q.ticket batches.flatten.length := by
  induction batches generalizing q with
  | nil => exact ⟨.nil, hempty, (lap_zero q.ticket).symm⟩
  | cons batch batches ih =>
    obtain ⟨hfirst, hrest⟩ := List.forall_mem_cons.mp hsize
    obtain ⟨hpushes, -, hpops, hempty', hticket⟩ := round_trip hempty hfirst
    obtain ⟨hall, hend, hcount⟩ := ih hempty' hrest
    rw [rounds, hpushes]
    refine ⟨.cons ⟨rfl, hpops⟩ hall, hend, ?_⟩
    rw [List.flatten_cons, List.length_append, ← lap_lap, ← hticket]
    exact hcount

/-- Two rounds, the counters at the wrap. -/
theorem batches_round_trip_wrap :
    (((⟨65535, 3, fun _ => none⟩ : BoundMPSC Nat).rounds [[7, 8, 9], [10]]).2.ticket = 3) ∧
    List.Forall₂ (fun batch result => result.1 = List.replicate batch.length true ∧
      result.2.Perm (batch.map fun ptr => (true, some ptr))) [[7, 8, 9], [10]]
        ((⟨65535, 3, fun _ => none⟩ : BoundMPSC Nat).rounds [[7, 8, 9], [10]]).1 := by
  have hsize : ∀ batch ∈ [[7, 8, 9], [10]], batch.length ≤ capacity := by decide
  have h := batches_round_trip (q := (⟨65535, 3, fun _ => none⟩ : BoundMPSC Nat)) (fun _ => rfl) hsize
  exact ⟨h.2.2, h.1⟩

end BoundMPSC

end Destiny.Replay
