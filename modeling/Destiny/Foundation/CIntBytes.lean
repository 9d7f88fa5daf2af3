import Destiny.Foundation.CIntBits

/-!
# Object representations

The bytes of an integer in memory, on a little-endian host: byte `k` holds
bits `8 * k` to `8 * k + 7`.

* `CInt.bytes`, `CInt.ofBytes` — the representation and what it represents.
* `bit_of_byte`, `bit_setByte` — what reading and replacing one byte does to
  single bits.
-/

namespace Foundation

namespace CInt

variable {t : CTy}

/-- The object representation, least significant byte first. -/
def bytes (x : CInt t) : List (CInt .uint8) :=
  List.ofFn fun k : Fin (t.width / 8) => ⟨x.bits.extractLsb' (8 * k) 8⟩

/-- The bytes as the digits of a number. -/
def digits : List (CInt .uint8) → Nat
  | []        => 0
  | b :: rest => 2 ^ 8 * digits rest + b.bits.toNat

/-- The value that the bytes represent. -/
def ofBytes (t : CTy) (bs : List (CInt .uint8)) : CInt t := ⟨BitVec.ofNat t.width (digits bs)⟩

@[simp] theorem length_bytes (x : CInt t) : x.bytes.length = t.width / 8 :=
  List.length_ofFn

theorem bit_of_byte {x : CInt t} {k : Nat} {b : CInt .uint8} (h : x.bytes[k]? = some b) (i : Nat) :
    b.bit i = (decide (i < 8) && x.bit (8 * k + i)) := by
  obtain ⟨hk, rfl⟩ := List.getElem?_eq_some_iff.mp h
  simp only [bytes, List.getElem_ofFn]
  exact BitVec.getLsbD_extractLsb' ..

theorem testBit_digits (bs : List (CInt .uint8)) {k : Nat} {b : CInt .uint8} (h : bs[k]? = some b)
    {i : Nat} (hi : i < 8) : (digits bs).testBit (8 * k + i) = b.bit i := by
  induction bs generalizing k with
  | nil => simp at h
  | cons c cs ih =>
    have hlt : c.bits.toNat < 2 ^ 8 := c.bits.isLt
    rw [digits, Nat.testBit_two_pow_mul_add _ hlt]
    cases k with
    | zero =>
      have hc : c = b := by simpa using h
      rw [if_pos (by omega), Nat.mul_zero, Nat.zero_add, hc]
      rfl
    | succ k =>
      have hrest : cs[k]? = some b := by simpa using h
      rw [if_neg (by omega), show 8 * (k + 1) + i - 8 = 8 * k + i by omega]
      exact ih hrest

theorem bit_ofBytes {bs : List (CInt .uint8)} {k : Nat} {b : CInt .uint8} (h : bs[k]? = some b)
    {i : Nat} (hi : i < 8) (hlt : 8 * k + i < t.width) :
    (ofBytes t bs).bit (8 * k + i) = b.bit i := by
  rw [bit, ofBytes, BitVec.getLsbD_ofNat, testBit_digits bs h hi]
  simp [hlt]

/-- Replacing byte `k` replaces its eight bits and no other. -/
theorem bit_setByte (x : CInt t) {k : Nat} (hk : k < t.width / 8) (hdvd : 8 ∣ t.width)
    (v : CInt .uint8) {j : Nat} (hj : j < t.width) :
    (ofBytes t (x.bytes.set k v)).bit j =
      if 8 * k ≤ j ∧ j < 8 * k + 8 then v.bit (j - 8 * k) else x.bit j := by
  have hq : j / 8 < t.width / 8 := by omega
  have hi : j % 8 < 8 := Nat.mod_lt _ (by omega)
  have hsplit : 8 * (j / 8) + j % 8 = j := Nat.div_add_mod j 8
  by_cases h : j / 8 = k
  · have hget : (x.bytes.set k v)[j / 8]? = some v := by
      rw [h]
      exact List.getElem?_set_self (by rw [length_bytes]; exact hk)
    have hbit := bit_ofBytes (t := t) hget hi (by omega)
    rw [hsplit] at hbit
    rw [hbit, if_pos (by omega)]
    congr 1
    omega
  · have hlen : j / 8 < x.bytes.length := by rw [length_bytes]; exact hq
    have hold : x.bytes[j / 8]? = some x.bytes[j / 8] := List.getElem?_eq_getElem hlen
    have hget : (x.bytes.set k v)[j / 8]? = some x.bytes[j / 8] := by
      rw [List.getElem?_set_ne (Ne.symm h), hold]
    have hbit := bit_ofBytes (t := t) hget hi (by omega)
    rw [hsplit, bit_of_byte hold, hsplit] at hbit
    rw [hbit, if_neg (by omega)]
    simp [hi]

end CInt

end Foundation
