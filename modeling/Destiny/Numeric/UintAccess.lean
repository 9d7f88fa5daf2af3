import Destiny.Foundation.CIntBytes
import Destiny.Numeric.Types

/-!
# Bit, piece and byte access

The access members of the unsigned classes. The four sources are written with
their own literals: `u` in `Uint8`, `Uint16` and `Uint32`, `ull` in `Uint64`;
the operands of the two narrow classes are promoted to `int` before they meet
the literal.

* `pieceAt`, `setPieceAt`, `bitAt`, `setBitAt`, `byteAt`, `setByteAt` — the
  bodies, over the literal type.
* `Uint8`, `Uint16`, `Uint32`, `Uint64` — the members.
* `bitAt_spec`, `setBitAt_spec`, … — what each body reads or replaces.

An access is `none` where it is undefined: a shift by the width or more, a
byte outside the object.
-/

namespace Destiny.Numeric

open Foundation

/-- Targets: they differ in `std::size_t`. -/
inductive Arch where
  | x86
  | x64
deriving DecidableEq, Repr

/-- `std::size_t` -/
def Arch.sizeT : Arch → CTy
  | x86 => CTy.uint32
  | x64 => CTy.uint64

variable {arch : Arch} {T G : IntegerType} {L : CTy}

-- ---------------------------------------------------------------------------
-- Bodies
-- ---------------------------------------------------------------------------

/-- `out = G((data_ >> (i * g)) & mask)`; `g` and `mask` are literals of type `L`. -/
def pieceAt (L : CTy) (g mask : Int) (self : Integer T) (i : CInt arch.sizeT) :
    Option (Integer G) := do
  let shift ← CInt.mul i (CInt.ofInt L g)
  let moved ← CInt.shr self.data shift
  return ⟨(CInt.and moved (CInt.ofInt L mask)).cast G.underlying⟩

/-- `data_ = (data_ & ~(mask << shift)) | (static_cast<L>(v.value()) << shift)`
with `const L shift = static_cast<L>(i) * g`. -/
def setPieceAt (L : CTy) (g mask : Int) (self : Integer T) (v : Integer G) (i : CInt arch.sizeT) :
    Option (Integer T) := do
  let product ← CInt.mul (i.cast L) (CInt.ofInt L g)
  let shift := product.cast L
  let hole ← CInt.shl (CInt.ofInt L mask) shift
  let piece ← CInt.shl (v.value.cast L) shift
  return ⟨(CInt.or (CInt.and self.data (CInt.not hole)) piece).cast T.underlying⟩

/-- `out = Bool(static_cast<bool>((data_ >> i) & 1))` -/
def bitAt (L : CTy) (self : Integer T) (i : CInt arch.sizeT) : Option Bool := do
  let moved ← CInt.shr self.data i
  return decide ((CInt.and moved (CInt.ofInt L 1)).val ≠ 0)

/-- `data_ = data_ | (1 << i)` if the bit is to be set, `data_ = data_ & ~(1 << i)`
otherwise. -/
def setBitAt (L : CTy) (self : Integer T) (v : Bool) (i : CInt arch.sizeT) :
    Option (Integer T) :=
  if v then do
    let one ← CInt.shl (CInt.ofInt L 1) i
    return ⟨(CInt.or self.data one).cast T.underlying⟩
  else do
    let one ← CInt.shl (CInt.ofInt L 1) i
    return ⟨(CInt.and self.data (CInt.not one)).cast T.underlying⟩

/-- `out = Uint8(*(reinterpret_cast<const unsigned char*>(&data_) + i))` -/
def byteAt (self : Integer T) (i : CInt arch.sizeT) : Option (Integer .uint8) :=
  self.data.bytes[i.val.toNat]?.map Integer.mk

/-- `*(reinterpret_cast<unsigned char*>(&data_) + i) = v.value()` -/
def setByteAt (self : Integer T) (v : Integer .uint8) (i : CInt arch.sizeT) : Option (Integer T) :=
  if i.val.toNat < self.data.bytes.length then
    some ⟨CInt.ofBytes T.underlying (self.data.bytes.set i.val.toNat v.value)⟩
  else none

-- ---------------------------------------------------------------------------
-- Members
-- ---------------------------------------------------------------------------

namespace Uint8

def bit : Integer .uint8 → CInt arch.sizeT → Option Bool := bitAt CTy.uint32

def setBit : Integer .uint8 → Bool → CInt arch.sizeT → Option (Integer .uint8) :=
  setBitAt CTy.uint32

end Uint8

namespace Uint16

def pieceUint8 : Integer .uint16 → CInt arch.sizeT → Option (Integer .uint8) :=
  pieceAt CTy.uint32 8 0xFF

def setPieceUint8 : Integer .uint16 → Integer .uint8 → CInt arch.sizeT → Option (Integer .uint16) :=
  setPieceAt CTy.uint32 8 0xFF

def byte : Integer .uint16 → CInt arch.sizeT → Option (Integer .uint8) := byteAt

def setByte : Integer .uint16 → Integer .uint8 → CInt arch.sizeT → Option (Integer .uint16) :=
  setByteAt

def bit : Integer .uint16 → CInt arch.sizeT → Option Bool := bitAt CTy.uint32

def setBit : Integer .uint16 → Bool → CInt arch.sizeT → Option (Integer .uint16) :=
  setBitAt CTy.uint32

end Uint16

namespace Uint32

def pieceUint8 : Integer .uint32 → CInt arch.sizeT → Option (Integer .uint8) :=
  pieceAt CTy.uint32 8 0xFF

def setPieceUint8 : Integer .uint32 → Integer .uint8 → CInt arch.sizeT → Option (Integer .uint32) :=
  setPieceAt CTy.uint32 8 0xFF

def pieceUint16 : Integer .uint32 → CInt arch.sizeT → Option (Integer .uint16) :=
  pieceAt CTy.uint32 16 0xFFFF

def setPieceUint16 :
    Integer .uint32 → Integer .uint16 → CInt arch.sizeT → Option (Integer .uint32) :=
  setPieceAt CTy.uint32 16 0xFFFF

def byte : Integer .uint32 → CInt arch.sizeT → Option (Integer .uint8) := byteAt

def setByte : Integer .uint32 → Integer .uint8 → CInt arch.sizeT → Option (Integer .uint32) :=
  setByteAt

def bit : Integer .uint32 → CInt arch.sizeT → Option Bool := bitAt CTy.uint32

def setBit : Integer .uint32 → Bool → CInt arch.sizeT → Option (Integer .uint32) :=
  setBitAt CTy.uint32

end Uint32

namespace Uint64

def pieceUint8 : Integer .uint64 → CInt arch.sizeT → Option (Integer .uint8) :=
  pieceAt CTy.uint64 8 0xFF

def setPieceUint8 : Integer .uint64 → Integer .uint8 → CInt arch.sizeT → Option (Integer .uint64) :=
  setPieceAt CTy.uint64 8 0xFF

def pieceUint16 : Integer .uint64 → CInt arch.sizeT → Option (Integer .uint16) :=
  pieceAt CTy.uint64 16 0xFFFF

def setPieceUint16 :
    Integer .uint64 → Integer .uint16 → CInt arch.sizeT → Option (Integer .uint64) :=
  setPieceAt CTy.uint64 16 0xFFFF

def pieceUint32 : Integer .uint64 → CInt arch.sizeT → Option (Integer .uint32) :=
  pieceAt CTy.uint64 32 0xFFFFFFFF

def setPieceUint32 :
    Integer .uint64 → Integer .uint32 → CInt arch.sizeT → Option (Integer .uint64) :=
  setPieceAt CTy.uint64 32 0xFFFFFFFF

def byte : Integer .uint64 → CInt arch.sizeT → Option (Integer .uint8) := byteAt

def setByte : Integer .uint64 → Integer .uint8 → CInt arch.sizeT → Option (Integer .uint64) :=
  setByteAt

def bit : Integer .uint64 → CInt arch.sizeT → Option Bool := bitAt CTy.uint64

def setBit : Integer .uint64 → Bool → CInt arch.sizeT → Option (Integer .uint64) :=
  setBitAt CTy.uint64

end Uint64

-- ---------------------------------------------------------------------------
-- Operands of the bodies
-- ---------------------------------------------------------------------------

/-- What the bodies need of the data type and the type of their literals. -/
structure LiteralFor (W L : CTy) : Prop where
  data_unsigned : W.signed = false
  unsigned      : L.signed = false
  promote_eq    : L.promote = L
  width_eq      : W.promote.width = L.width

namespace LiteralFor

variable {W : CTy} (hL : LiteralFor W L)

include hL

theorem width_le : W.width ≤ L.width := by
  have hle := W.width_le_promote
  have heq := hL.width_eq
  omega

theorem thirtytwo_le : 32 ≤ L.width := by
  have hle := L.thirtytwo_le_promote
  rw [hL.promote_eq] at hle
  exact hle

/-- The data, promoted or not, and a literal of type `L` meet in `L`'s width, unsigned. -/
theorem usual_unsigned : (CTy.usual W L).signed = false := by
  unfold CTy.usual
  simp only [hL.promote_eq, hL.width_eq, if_true]
  split
  · exact hL.unsigned
  · rename_i hs
    simpa using hs

theorem promoted : LiteralFor W L.promote := by
  rw [hL.promote_eq]
  exact hL

end LiteralFor

/-- A small product of indices and literals is exact, whatever the types. -/
theorem mul_small {t u : CTy} {x : CInt t} {y : CInt u} (hx : 0 ≤ x.val ∧ x.val < 2 ^ 31)
    (hy : 0 ≤ y.val ∧ y.val < 2 ^ 31) (h : x.val * y.val < 2 ^ 31) :
    ∃ r, CInt.mul x y = some r ∧ r.val = x.val * y.val := by
  have hwidth : 32 ≤ (CTy.usual t u).width := by
    have hle := t.thirtytwo_le_promote
    rw [CTy.width_usual]
    omega
  have hz : 0 ≤ x.val * y.val := mul_nonneg hx.1 hy.1
  exact CInt.arith_exact (CTy.inRange_of_small hwidth hx) (CTy.inRange_of_small hwidth hy)
    (CTy.inRange_of_small hwidth ⟨hz, h⟩)

theorem Arch.signed_sizeT (arch : Arch) : arch.sizeT.signed = false := by
  cases arch <;> rfl

/-- The position where piece `n` of `g` bits starts, as the bodies compute it. -/
theorem position_spec {t : CTy} {i : CInt t} {g n : Nat} (hL : LiteralFor T.underlying L)
    (hi : i.val = n) (hg : 0 < g) (hend : g * n + g ≤ T.width) :
    ∃ r, CInt.mul i (CInt.ofInt L g) = some r ∧ r.val = (g * n : Nat) := by
  have hT := T.width_le_64
  have hn : n ≤ g * n := Nat.le_mul_of_pos_left n hg
  have hlit : (CInt.ofInt L g).val = g :=
    CInt.val_ofInt (CTy.inRange_of_small hL.thirtytwo_le ⟨by positivity, by omega⟩)
  have hprod : i.val * (CInt.ofInt L g).val = (g * n : Nat) := by
    rw [hi, hlit, Nat.mul_comm]
    push_cast
    rfl
  obtain ⟨r, hr, hval⟩ := mul_small (x := i) (y := CInt.ofInt L g) (by omega) (by omega) (by omega)
  exact ⟨r, hr, hval.trans hprod⟩

-- ---------------------------------------------------------------------------
-- What the bodies read
-- ---------------------------------------------------------------------------

variable (self : Integer T) {i : CInt arch.sizeT}

/-- The data shifted down and masked with `g` ones: bits `n` to `n + g - 1`. -/
theorem bit_shr_mask {t : CTy} {s : CInt t} {g n : Nat} (hL : LiteralFor T.underlying L)
    (hs : s.val = n) (hg : g ≤ T.width) (hlt : n < T.width) :
    ∃ moved, CInt.shr self.data s = some moved ∧
      ∀ k, (CInt.and moved (CInt.ofInt L (2 ^ g - 1))).bit k =
        (decide (k < g) && self.data.bit (n + k)) := by
  have hle := hL.width_le
  have hprom := T.underlying.width_le_promote
  rw [T.width_underlying] at hle hprom
  obtain ⟨moved, hmoved, hbit⟩ := CInt.shr_unsigned (x := self.data) hL.data_unsigned
    (by omega : 0 ≤ s.val) (by omega)
  refine ⟨moved, hmoved, fun k => ?_⟩
  have hkeeps : CInt.KeepsBits T.underlying.promote (CTy.usual T.underlying.promote L) := by
    right
    rw [CTy.width_usual, CTy.promote_promote, hL.promote_eq, hL.width_eq, Nat.max_self]
  rw [CInt.bit_and hkeeps (Or.inl hL.unsigned), CInt.bit_ones (by omega), hbit, hs,
    Int.toNat_natCast, Bool.and_comm]

theorem pieceAt_spec (hL : LiteralFor T.underlying L) {n : Nat} (hi : i.val = n)
    (hend : G.width * n + G.width ≤ T.width) :
    ∃ out : Integer G, pieceAt L G.width (2 ^ G.width - 1) self i = some out ∧
      ∀ k < G.width, out.data.bit k = self.data.bit (G.width * n + k) := by
  have hpos := G.width_pos
  obtain ⟨shift, hshift, hval⟩ := position_spec hL hi hpos hend
  obtain ⟨moved, hmoved, hbit⟩ :=
    bit_shr_mask self (g := G.width) hL hval (by omega) (by omega)
  refine ⟨⟨(CInt.and moved (CInt.ofInt L (2 ^ G.width - 1))).cast G.underlying⟩, ?_, fun k hk => ?_⟩
  · unfold pieceAt
    rw [hshift]
    show (CInt.shr self.data shift).bind _ = _
    rw [hmoved]
    rfl
  · have hle : G.underlying.width ≤ (CTy.usual T.underlying.promote L).width := by
      have h64 := CTy.width_le_usual_right T.underlying.promote L
      have hTL := hL.width_le
      rw [T.width_underlying] at hTL
      rw [G.width_underlying]
      omega
    rw [CInt.bit_cast (Or.inr hle), hbit, G.width_underlying]
    simp [hk]

theorem bitAt_spec (hL : LiteralFor T.underlying L) {n : Nat} (hi : i.val = n) (hlt : n < T.width) :
    bitAt L self i = some (self.data.bit n) := by
  obtain ⟨moved, hmoved, hbit⟩ := bit_shr_mask self (g := 1) hL hi (by omega) hlt
  have hone : (2 : Int) ^ 1 - 1 = 1 := by norm_num
  rw [hone] at hbit
  unfold bitAt
  rw [hmoved]
  show some (decide ((CInt.and moved (CInt.ofInt L 1)).val ≠ 0)) = _
  congr 1
  cases hn : self.data.bit n with
  | true =>
    have hzero := hbit 0
    rw [Nat.add_zero, hn] at hzero
    simp only [decide_eq_true_eq]
    intro h
    rw [CInt.val_eq_zero_iff.mp h] at hzero
    simp at hzero
  | false =>
    -- the mask keeps bit 0 only
    rw [decide_eq_false_iff_not, not_not, CInt.val_eq_zero_iff]
    intro k
    rw [hbit]
    by_cases hk : k < 1
    · rw [show k = 0 by omega, Nat.add_zero, hn, Bool.and_false]
    · rw [decide_eq_false hk, Bool.false_and]

theorem byteAt_spec {n : Nat} (hi : i.val = n) (hend : 8 * n + 8 ≤ T.width) :
    ∃ out : Integer .uint8, byteAt self i = some out ∧
      ∀ k < 8, out.data.bit k = self.data.bit (8 * n + k) := by
  have hlt : n < self.data.bytes.length := by
    rw [CInt.length_bytes, T.width_underlying]
    omega
  have hget : self.data.bytes[n]? = some self.data.bytes[n] := List.getElem?_eq_getElem hlt
  refine ⟨⟨self.data.bytes[n]⟩, ?_, fun k hk => ?_⟩
  · rw [byteAt, hi, Int.toNat_natCast, hget]
    rfl
  · have hbit := CInt.bit_of_byte hget k
    rw [decide_eq_true hk, Bool.true_and] at hbit
    exact hbit

-- ---------------------------------------------------------------------------
-- What the bodies replace
-- ---------------------------------------------------------------------------

/-- The range of `g` bits from `lo` is `f` and every other bit is as before. -/
def Replaces (x y : Integer T) (lo g : Nat) (f : Nat → Bool) : Prop :=
  ∀ j < T.width, y.data.bit j = if lo ≤ j ∧ j < lo + g then f (j - lo) else x.data.bit j

/-- A value of the literals' type shifted up: its bits from position `n` on. -/
theorem bit_shl {t : CTy} {s : CInt t} {n : Nat} (hL : LiteralFor T.underlying L) (x : CInt L)
    (hs : s.val = n) (hlt : n < T.width) :
    ∃ moved, CInt.shl x s = some moved ∧
      ∀ j < T.width, moved.bit j = (decide (n ≤ j) && x.bit (j - n)) := by
  have hle := hL.width_le
  rw [T.width_underlying] at hle
  obtain ⟨moved, hmoved, hbit⟩ := CInt.shl_unsigned (x := x) (n := s) hL.unsigned hL.promote_eq
    (by omega) (by omega)
  refine ⟨moved, hmoved, fun j hj => ?_⟩
  have hfrom : (!decide (j < n)) = decide (n ≤ j) := by
    rw [← decide_not, decide_eq_decide]
    omega
  rw [hbit, hs, Int.toNat_natCast, decide_eq_true (by omega : j < L.width), Bool.true_and, hfrom]

/-- The mask shifted up: `g` ones from position `n` on. -/
theorem bit_shl_mask {t : CTy} {s : CInt t} {g n : Nat} (hL : LiteralFor T.underlying L)
    (hs : s.val = n) (hg : g ≤ T.width) (hlt : n < T.width) :
    ∃ hole, CInt.shl (CInt.ofInt L (2 ^ g - 1)) s = some hole ∧
      ∀ j < T.width, hole.bit j = decide (n ≤ j ∧ j < n + g) := by
  have hle := hL.width_le
  rw [T.width_underlying] at hle
  obtain ⟨hole, hhole, hbit⟩ := bit_shl hL (CInt.ofInt L (2 ^ g - 1)) hs hlt
  refine ⟨hole, hhole, fun j hj => ?_⟩
  rw [hbit j hj, CInt.bit_ones (by omega), ← Bool.decide_and, decide_eq_decide]
  omega

/-- `data & ~hole` -/
theorem bit_and_not {W : CTy} (hL : LiteralFor W L) (x : CInt W) (hole : CInt L.promote) {j : Nat}
    (hj : j < W.width) : (CInt.and x (CInt.not hole)).bit j = (x.bit j && !hole.bit j) := by
  have hwidth : L.promote.promote.width = L.width := by
    rw [CTy.promote_promote, hL.promote_eq]
  have hle := hL.width_le
  rw [CInt.bit_and (Or.inl hL.data_unsigned) (Or.inl hL.promoted.promoted.unsigned),
    CInt.bit_not hL.promoted.unsigned, hwidth, decide_eq_true (by omega), Bool.true_and]

/-- A piece is widened to the literals' type without a change. -/
theorem bit_widened (hL : LiteralFor T.underlying L) (hG : G.signed = false)
    (hle : G.width ≤ T.width) (v : Integer G) (j : Nat) :
    (v.value.cast L).bit j = v.data.bit j := by
  have hTL := hL.width_le
  have hGL : G.underlying.width ≤ L.width := by
    rw [G.width_underlying]
    rw [T.width_underlying] at hTL
    omega
  exact CInt.bit_cast_of_le hGL (Or.inl (by rw [G.signed_underlying, hG])) j

theorem setPieceAt_spec (hL : LiteralFor T.underlying L) {n : Nat} (hi : i.val = n)
    (hG : G.signed = false) (hend : G.width * n + G.width ≤ T.width) (v : Integer G) :
    ∃ y, setPieceAt L G.width (2 ^ G.width - 1) self v i = some y ∧
      Replaces self y (G.width * n) G.width v.data.bit := by
  have hpos := G.width_pos
  have h64 := T.width_le_64
  have hn : n ≤ G.width * n := Nat.le_mul_of_pos_left n hpos
  -- neither conversion of the position loses anything
  have hcast : (i.cast L).val = n := by
    rw [CInt.val_cast, hi]
    rw [hi]
    exact CTy.inRange_of_small hL.thirtytwo_le (by omega)
  obtain ⟨product, hproduct, hval⟩ := position_spec hL hcast hpos hend
  have hshift : (product.cast L).val = (G.width * n : Nat) := by
    rw [CInt.val_cast, hval]
    rw [hval]
    exact CTy.inRange_of_small hL.thirtytwo_le (by omega)
  obtain ⟨hole, hhole, hholeBit⟩ := bit_shl_mask (g := G.width) hL hshift (by omega) (by omega)
  obtain ⟨piece, hpiece, hpieceBit⟩ := bit_shl hL (v.value.cast L) hshift (by omega)
  refine ⟨⟨(CInt.or (CInt.and self.data (CInt.not hole)) piece).cast T.underlying⟩, ?_, ?_⟩
  · unfold setPieceAt
    rw [hproduct]
    show (CInt.shl _ (product.cast L)).bind _ = _
    rw [hhole]
    show (CInt.shl _ (product.cast L)).bind _ = _
    rw [hpiece]
    rfl
  · intro j hj
    have hjW : j < T.underlying.width := by rwa [T.width_underlying]
    have hwide : T.underlying.width ≤
        (CTy.usual (CTy.usual T.underlying L.promote.promote) L.promote).width :=
      (CTy.width_le_usual_left _ _).trans (CTy.width_le_usual_left _ _)
    rw [CInt.bit_cast (Or.inr hwide),
      CInt.bit_or (Or.inl hL.promoted.promoted.usual_unsigned) (Or.inl hL.promoted.unsigned),
      bit_and_not hL _ _ hjW, hholeBit j hj, hpieceBit j hj, bit_widened hL hG (by omega),
      decide_eq_true hjW, Bool.true_and]
    by_cases hin : G.width * n ≤ j ∧ j < G.width * n + G.width
    · rw [if_pos hin, decide_eq_true hin, decide_eq_true hin.1]
      simp
    · rw [if_neg hin, decide_eq_false hin]
      -- above the range the piece has no bits, below it there are none
      have hnone : (decide (G.width * n ≤ j) && v.data.bit (j - G.width * n)) = false := by
        by_cases hlo : G.width * n ≤ j
        · rw [v.data.bit_of_ge (by rw [G.width_underlying]; omega), Bool.and_false]
        · rw [decide_eq_false hlo, Bool.false_and]
      rw [hnone]
      simp

theorem setBitAt_spec (hL : LiteralFor T.underlying L) {n : Nat} (hi : i.val = n)
    (hlt : n < T.width) (v : Bool) :
    ∃ y, setBitAt L self v i = some y ∧ Replaces self y n 1 fun _ => v := by
  obtain ⟨one, hone, hbit⟩ := bit_shl_mask (g := 1) hL hi (by omega) hlt
  have hlit : (2 : Int) ^ 1 - 1 = 1 := by norm_num
  rw [hlit] at hone
  unfold setBitAt
  rw [hone]
  cases v with
  | true =>
    refine ⟨⟨(CInt.or self.data one).cast T.underlying⟩, rfl, fun j hj => ?_⟩
    have hjW : j < T.underlying.width := by rwa [T.width_underlying]
    rw [CInt.bit_cast (Or.inr (CTy.width_le_usual_left _ _)),
      CInt.bit_or (Or.inl hL.data_unsigned) (Or.inl hL.promoted.unsigned), hbit j hj,
      decide_eq_true hjW]
    by_cases h : n ≤ j ∧ j < n + 1
    · rw [if_pos h, decide_eq_true h, Bool.true_and, Bool.or_true]
    · rw [if_neg h, decide_eq_false h, Bool.true_and, Bool.or_false]
  | false =>
    refine ⟨⟨(CInt.and self.data (CInt.not one)).cast T.underlying⟩, rfl, fun j hj => ?_⟩
    have hjW : j < T.underlying.width := by rwa [T.width_underlying]
    rw [CInt.bit_cast (Or.inr (CTy.width_le_usual_left _ _)), bit_and_not hL _ _ hjW, hbit j hj,
      decide_eq_true hjW]
    by_cases h : n ≤ j ∧ j < n + 1
    · rw [if_pos h, decide_eq_true h, Bool.not_true, Bool.and_false, Bool.and_false]
    · rw [if_neg h, decide_eq_false h, Bool.not_false, Bool.and_true, Bool.true_and]

theorem setByteAt_spec {n : Nat} (hi : i.val = n) (hend : 8 * n + 8 ≤ T.width)
    (v : Integer .uint8) :
    ∃ y, setByteAt self v i = some y ∧ Replaces self y (8 * n) 8 v.data.bit := by
  have hdvd : 8 ∣ T.underlying.width := by
    cases T <;> decide
  have hlt : n < T.underlying.width / 8 := by
    rw [T.width_underlying]
    omega
  refine ⟨⟨CInt.ofBytes T.underlying (self.data.bytes.set n v.value)⟩, ?_, fun j hj => ?_⟩
  · rw [setByteAt, hi, Int.toNat_natCast, if_pos (by rw [CInt.length_bytes]; exact hlt)]
  · exact CInt.bit_setByte self.data hlt hdvd v.value (by rwa [T.width_underlying])

end Destiny.Numeric
