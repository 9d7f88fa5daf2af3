import Mathlib.Data.FinEnum
import Mathlib.Tactic.IntervalCases
import Destiny.Foundation.WrapCounter

/-!
# BoundMPSC — the class

`BoundMPSC` (`core/replay/src/boundMPSC.hpp`): a multi-producer
single-consumer bag of non-null pointers, `capacity` slots addressed by two
wrapping 16-bit counters. Producers draw tickets and try the slot of the
byte-swapped ticket; the consumer walks the slots in order with `head`.

This module has the data members, the constants, and the four accesses the
member functions are made of:

* `fetchAdd` — `ticket_.fetch_add(1)`;
* `compareExchange` — `buffer_[index].compare_exchange_strong(nullptr, ptr)`;
* `load` with `advanceHead` — `head_++` and the slot load;
* `storeNull` — `buffer_[index].store(nullptr)`.

A nullable `void*` is an `Option Ptr`; `std::uint16_t` is `BitVec 16`.
-/

namespace Destiny.Replay

open Foundation

/-! ## Constants -/

/-- `capacity_ = UINT16_MAX + 1u`. -/
def capacity : Nat := 65535 + 1

/-- `pushRetryLimit_`. -/
def pushRetryLimit : Nat := 512

/-- `popRetryLimit_ = 2u * capacity_`. -/
def popRetryLimit : Nat := 2 * capacity

/-- `indexFromTicket`: the two bytes of the ticket change places. The shifts
happen in `unsigned int`, the result is cut back to 16 bits. -/
def indexFromTicket (ticket : BitVec 16) : BitVec 16 :=
  (((ticket.setWidth 32 &&& 0xff#32) <<< 8) ||| (ticket.setWidth 32 >>> 8)).setWidth 16

/-- Swapping the bytes twice gives the ticket back. -/
@[simp] theorem indexFromTicket_indexFromTicket (ticket : BitVec 16) :
    indexFromTicket (indexFromTicket ticket) = ticket := by
  unfold indexFromTicket
  ext i hi
  interval_cases i <;> simp

theorem indexFromTicket_injective : Function.Injective indexFromTicket :=
  Function.LeftInverse.injective indexFromTicket_indexFromTicket

theorem indexFromTicket_surjective : Function.Surjective indexFromTicket :=
  Function.RightInverse.surjective indexFromTicket_indexFromTicket

example : indexFromTicket 0x0102 = 0x0201 := by decide

theorem card_index : Fintype.card (BitVec 16) = capacity := by
  rw [← FinEnum.card_eq_fintypeCard, FinEnum.card_bitVec]
  rfl

/-! ## Data members and accesses -/

/-- The data members of `BoundMPSC`. -/
structure BoundMPSC (Ptr : Type*) where
  ticket : BitVec 16
  head   : BitVec 16
  buffer : BitVec 16 → Option Ptr

namespace BoundMPSC

variable {Ptr : Type*}

/-- A default-constructed queue. -/
def empty : BoundMPSC Ptr := ⟨0, 0, fun _ => none⟩

/-- `ticket_.fetch_add(1)`: the old value, and the queue after it. -/
def fetchAdd (q : BoundMPSC Ptr) : BitVec 16 × BoundMPSC Ptr :=
  (q.ticket, { q with ticket := q.ticket + 1 })

/-- `buffer_[index].compare_exchange_strong(expected, ptr)` with `expected`
null: whether the slot was null, and the queue after it. -/
def compareExchange (q : BoundMPSC Ptr) (index : BitVec 16) (ptr : Ptr) : Bool × BoundMPSC Ptr :=
  match q.buffer index with
  | none => (true, { q with buffer := Function.update q.buffer index (some ptr) })
  | some _ => (false, q)

/-- `head_++`: the old value, and the queue after it. -/
def advanceHead (q : BoundMPSC Ptr) : BitVec 16 × BoundMPSC Ptr :=
  (q.head, { q with head := q.head + 1 })

/-- `buffer_[index].load()`. -/
def load (q : BoundMPSC Ptr) (index : BitVec 16) : Option Ptr := q.buffer index

/-- `buffer_[index].store(nullptr)`. -/
def storeNull (q : BoundMPSC Ptr) (index : BitVec 16) : BoundMPSC Ptr :=
  { q with buffer := Function.update q.buffer index none }

theorem compareExchange_of_null {q : BoundMPSC Ptr} {index : BitVec 16} (ptr : Ptr)
    (h : q.buffer index = none) :
    q.compareExchange index ptr =
      (true, { q with buffer := Function.update q.buffer index (some ptr) }) := by
  rw [compareExchange, h]

theorem compareExchange_of_ne_null {q : BoundMPSC Ptr} {index : BitVec 16} (ptr : Ptr)
    (h : q.buffer index ≠ none) : q.compareExchange index ptr = (false, q) := by
  obtain ⟨old, hold⟩ := Option.ne_none_iff_exists'.mp h
  rw [compareExchange, hold]

/-! ## Occupied slots -/

/-- The slots that hold a pointer. (Irreducible, like every set over all slots.) -/
@[irreducible] def occupied (q : BoundMPSC Ptr) : Finset (BitVec 16) :=
  Finset.univ.filter fun index => (q.buffer index).isSome

@[simp] theorem mem_occupied {q : BoundMPSC Ptr} {index : BitVec 16} :
    index ∈ q.occupied ↔ q.buffer index ≠ none := by
  unfold occupied
  rw [Finset.mem_filter, Option.isSome_iff_ne_none]
  simp

theorem occupied_congr {q q' : BoundMPSC Ptr} (h : q'.buffer = q.buffer) :
    q'.occupied = q.occupied := by
  ext x
  rw [mem_occupied, mem_occupied, h]

/-- Storing a pointer to an empty slot. -/
theorem card_occupied_store {q q' : BoundMPSC Ptr} {index : BitVec 16} {ptr : Ptr}
    (hold : q.buffer index = none)
    (hnew : q'.buffer = Function.update q.buffer index (some ptr)) :
    q'.occupied.card = q.occupied.card + 1 := by
  have hout : index ∉ q.occupied := by simp [hold]
  have hinsert : q'.occupied = insert index q.occupied := by
    ext x
    by_cases hx : x = index
    · simp [hnew, hx]
    · simp [hnew, hx]
  rw [hinsert, Finset.card_insert_of_notMem hout]

/-- Clearing an occupied slot. -/
theorem card_occupied_clear {q q' : BoundMPSC Ptr} {index : BitVec 16}
    (hold : q.buffer index ≠ none) (hnew : q'.buffer = Function.update q.buffer index none) :
    q'.occupied.card + 1 = q.occupied.card := by
  have herase : q'.occupied = q.occupied.erase index := by
    ext x
    by_cases hx : x = index
    · simp [hnew, hx]
    · simp [hnew, hx]
  rw [herase, Finset.card_erase_add_one (mem_occupied.mpr hold)]

/-! ## Slots ahead of the counters -/

/-- The slot addressed by the `k`-th next ticket. -/
def ticketSlot (q : BoundMPSC Ptr) (k : Nat) : BitVec 16 := indexFromTicket (lap q.ticket k)

/-- The slot of the `k`-th next slot load. -/
def headSlot (q : BoundMPSC Ptr) (k : Nat) : BitVec 16 := lap q.head k

/-- `capacity` consecutive tickets address pairwise distinct slots. -/
theorem ticketSlot_injOn {q : BoundMPSC Ptr} {j k : Nat} (hj : j < capacity) (hk : k < capacity)
    (h : q.ticketSlot j = q.ticketSlot k) : j = k :=
  lap_injOn hj hk (indexFromTicket_injective h)

end BoundMPSC

end Destiny.Replay
