import Destiny.Foundation.BitArray
import Destiny.Numeric.UintAccess

/-!
# One array under all views

Bits, pieces and bytes of an unsigned object are views of one bit array: any
sequence of in-range writes through any of the views leaves an object on which
every in-range read, through any of the views, is the read of the abstract
array after the same writes.

* `pieces`, `bytewise` — which views a class has.
* `Index`, `Write`     — positions and writes, in range by construction.
* `Agrees`             — all reads of an object are those of an array.
* `write_refines`      — one write.

Main result: `access_views_agree`. The byte view is that of a little-endian
host.
-/

namespace Destiny.Numeric

open Foundation

-- ---------------------------------------------------------------------------
-- Overload sets
-- ---------------------------------------------------------------------------

namespace IntegerType

/-- The classes of the pieces that `piece` and `setPiece` are overloaded for. -/
def pieces : IntegerType → List IntegerType
  | uint16 => [uint8]
  | uint32 => [uint8, uint16]
  | uint64 => [uint8, uint16, uint32]
  | _      => []

/-- `byte` and `setByte` are declared. -/
def bytewise : IntegerType → Bool
  | uint16 | uint32 | uint64 => true
  | _ => false

/-- The type of the literals in the class's source. -/
def literal : IntegerType → CTy
  | uint64 => CTy.uint64
  | _ => CTy.uint32

theorem literalFor {T : IntegerType} (hT : T.signed = false) :
    LiteralFor T.underlying T.literal := by
  cases T
  case uint8 | uint16 | uint32 | uint64 => constructor <;> decide
  all_goals simp [signed] at hT

theorem signed_of_mem_pieces {T G : IntegerType} (h : G ∈ T.pieces) : G.signed = false := by
  cases T <;> cases G <;> revert h <;> decide

end IntegerType

variable {arch : Arch} {T G : IntegerType}

/-- `self.piece(out, i)` with an `out` of class `G`; `none` where there is no such overload. -/
def piece : {T : IntegerType} → (G : IntegerType) → Integer T → CInt arch.sizeT → Option (Integer G)
  | .uint16, .uint8,  self, i => Uint16.pieceUint8 self i
  | .uint32, .uint8,  self, i => Uint32.pieceUint8 self i
  | .uint32, .uint16, self, i => Uint32.pieceUint16 self i
  | .uint64, .uint8,  self, i => Uint64.pieceUint8 self i
  | .uint64, .uint16, self, i => Uint64.pieceUint16 self i
  | .uint64, .uint32, self, i => Uint64.pieceUint32 self i
  | _,       _,       _,    _ => none

/-- `self.setPiece(v, i)` -/
def setPiece : {T G : IntegerType} → Integer T → Integer G → CInt arch.sizeT → Option (Integer T)
  | .uint16, .uint8,  self, v, i => Uint16.setPieceUint8 self v i
  | .uint32, .uint8,  self, v, i => Uint32.setPieceUint8 self v i
  | .uint32, .uint16, self, v, i => Uint32.setPieceUint16 self v i
  | .uint64, .uint8,  self, v, i => Uint64.setPieceUint8 self v i
  | .uint64, .uint16, self, v, i => Uint64.setPieceUint16 self v i
  | .uint64, .uint32, self, v, i => Uint64.setPieceUint32 self v i
  | _,       _,       _,    _, _ => none

/-- `self.byte(out, i)` -/
def byte : {T : IntegerType} → Integer T → CInt arch.sizeT → Option (Integer .uint8)
  | .uint16, self, i => Uint16.byte self i
  | .uint32, self, i => Uint32.byte self i
  | .uint64, self, i => Uint64.byte self i
  | _,       _,    _ => none

/-- `self.setByte(v, i)` -/
def setByte : {T : IntegerType} → Integer T → Integer .uint8 → CInt arch.sizeT → Option (Integer T)
  | .uint16, self, v, i => Uint16.setByte self v i
  | .uint32, self, v, i => Uint32.setByte self v i
  | .uint64, self, v, i => Uint64.setByte self v i
  | _,       _,    _, _ => none

/-- `self.bit(out, i)` -/
def bit : {T : IntegerType} → Integer T → CInt arch.sizeT → Option Bool
  | .uint8,  self, i => Uint8.bit self i
  | .uint16, self, i => Uint16.bit self i
  | .uint32, self, i => Uint32.bit self i
  | .uint64, self, i => Uint64.bit self i
  | _,       _,    _ => none

/-- `self.setBit(v, i)` -/
def setBit : {T : IntegerType} → Integer T → Bool → CInt arch.sizeT → Option (Integer T)
  | .uint8,  self, v, i => Uint8.setBit self v i
  | .uint16, self, v, i => Uint16.setBit self v i
  | .uint32, self, v, i => Uint32.setBit self v i
  | .uint64, self, v, i => Uint64.setBit self v i
  | _,       _,    _, _ => none

-- The literals of every overload are the width of its pieces and a mask of as many ones.

theorem piece_eq (h : G ∈ T.pieces) (self : Integer T) (i : CInt arch.sizeT) :
    piece G self i = pieceAt T.literal G.width (2 ^ G.width - 1) self i := by
  cases T <;> cases G <;> first | rfl | exact absurd h (by decide)

theorem setPiece_eq (h : G ∈ T.pieces) (self : Integer T) (v : Integer G) (i : CInt arch.sizeT) :
    setPiece self v i = setPieceAt T.literal G.width (2 ^ G.width - 1) self v i := by
  cases T <;> cases G <;> first | rfl | exact absurd h (by decide)

theorem byte_eq (h : T.bytewise) (self : Integer T) (i : CInt arch.sizeT) :
    byte self i = byteAt self i := by
  cases T <;> first | rfl | exact absurd h (by decide)

theorem setByte_eq (h : T.bytewise) (self : Integer T) (v : Integer .uint8)
    (i : CInt arch.sizeT) : setByte self v i = setByteAt self v i := by
  cases T <;> first | rfl | exact absurd h (by decide)

theorem bit_eq (h : T.signed = false) (self : Integer T) (i : CInt arch.sizeT) :
    bit self i = bitAt T.literal self i := by
  cases T <;> first | rfl | exact absurd h (by decide)

theorem setBit_eq (h : T.signed = false) (self : Integer T) (v : Bool) (i : CInt arch.sizeT) :
    setBit self v i = setBitAt T.literal self v i := by
  cases T <;> first | rfl | exact absurd h (by decide)

-- ---------------------------------------------------------------------------
-- Positions and writes
-- ---------------------------------------------------------------------------

/-- A position of type `std::size_t` among `n`. -/
structure Index (arch : Arch) (n : Nat) where
  value   : CInt arch.sizeT
  inRange : value.val < n

namespace Index

variable {n : Nat}

def toNat (i : Index arch n) : Nat := i.value.val.toNat

theorem val_eq (i : Index arch n) : i.value.val = i.toNat :=
  (Int.toNat_of_nonneg (i.value.val_nonneg arch.signed_sizeT)).symm

theorem toNat_lt (i : Index arch n) : i.toNat < n := by
  have hlt := i.inRange
  rw [i.val_eq] at hlt
  exact_mod_cast hlt

/-- A piece at an in-range position lies within the object. -/
theorem end_le {w g : Nat} (i : Index arch (w / g)) : g * i.toNat + g ≤ w := by
  have hle : g * (i.toNat + 1) ≤ g * (w / g) := Nat.mul_le_mul_left g i.toNat_lt
  have hdiv := Nat.mul_div_le w g
  rw [Nat.mul_add, Nat.mul_one] at hle
  omega

end Index

/-- A write through one of the views, in range. -/
inductive Write (arch : Arch) (T : IntegerType) where
  | setBit (i : Index arch T.width) (v : Bool)
  | setPiece (G : IntegerType) (hG : G ∈ T.pieces) (i : Index arch (T.width / G.width))
      (v : Integer G)
  | setByte (hT : T.bytewise) (i : Index arch (T.width / 8)) (v : Integer .uint8)

/-- The bits of an object as an abstract array. -/
def Integer.bitArray (x : Integer T) : BitArray T.width := fun j => x.data.bit j

namespace Write

/-- What the member does. -/
def run : Write arch T → Integer T → Option (Integer T)
  | setBit i v,       self => Numeric.setBit self v i.value
  | setPiece _ _ i v, self => Numeric.setPiece self v i.value
  | setByte _ i v,    self => Numeric.setByte self v i.value

/-- What it is meant to do. -/
def apply : Write arch T → BitArray T.width → BitArray T.width
  | setBit i v,       a => a.write i.toNat fun _ : Fin 1 => v
  | setPiece G _ i v, a => a.write (G.width * i.toNat) v.bitArray
  | setByte _ i v,    a => a.write (8 * i.toNat) v.bitArray

/-- The bits in the range of a write. -/
def Covers : Write arch T → Nat → Prop
  | setBit i _,       j => j = i.toNat
  | setPiece G _ i _, j => G.width * i.toNat ≤ j ∧ j < G.width * i.toNat + G.width
  | setByte _ i _,    j => 8 * i.toNat ≤ j ∧ j < 8 * i.toNat + 8

theorem apply_of_not_covers (w : Write arch T) (a : BitArray T.width) {j : Fin T.width}
    (h : ¬ w.Covers j) : w.apply a j = a j := by
  cases w with
  | setBit i v =>
    have hne : j.val ≠ i.toNat := h
    exact BitArray.write_outside a i.toNat (fun _ : Fin 1 => v) (by omega)
  | setPiece G hG i v =>
    have hout : ¬ (G.width * i.toNat ≤ j.val ∧ j.val < G.width * i.toNat + G.width) := h
    exact BitArray.write_outside a _ v.bitArray (by omega)
  | setByte hT i v =>
    have hout : ¬ (8 * i.toNat ≤ j.val ∧ j.val < 8 * i.toNat + 8) := h
    exact BitArray.write_outside a (8 * i.toNat) v.bitArray
      (by show j.val < 8 * i.toNat ∨ 8 * i.toNat + 8 ≤ j.val; omega)

end Write

-- ---------------------------------------------------------------------------
-- Refinement
-- ---------------------------------------------------------------------------

/-- Replacing a range of an object is writing it in the array. -/
theorem Replaces.bitArray {x y : Integer T} {lo g : Nat} {f : Nat → Bool}
    (h : Replaces x y lo g f) : y.bitArray = x.bitArray.write lo fun k : Fin g => f k := by
  funext j
  show y.data.bit j = if h : lo ≤ j.val ∧ j.val < lo + g then f (j.val - lo) else x.data.bit j
  rw [h j j.isLt]
  rfl

/-- **One write.** It is defined and does to the bits what the abstract write does. -/
theorem write_refines (hT : T.signed = false) (w : Write arch T) (x : Integer T) :
    ∃ y, w.run x = some y ∧ y.bitArray = w.apply x.bitArray := by
  have hL := IntegerType.literalFor hT
  cases w with
  | setBit i v =>
    obtain ⟨y, hy, hrep⟩ := setBitAt_spec x hL i.val_eq i.toNat_lt v
    exact ⟨y, (setBit_eq hT x v i.value).trans hy, hrep.bitArray⟩
  | setPiece G hG i v =>
    have hunsigned := IntegerType.signed_of_mem_pieces hG
    obtain ⟨y, hy, hrep⟩ := setPieceAt_spec x hL i.val_eq hunsigned i.end_le v
    exact ⟨y, (setPiece_eq hG x v i.value).trans hy, hrep.bitArray⟩
  | setByte hbytes i v =>
    obtain ⟨y, hy, hrep⟩ := setByteAt_spec x i.val_eq i.end_le v
    exact ⟨y, (setByte_eq hbytes x v i.value).trans hy, hrep.bitArray⟩

/-- All in-range reads of an object are those of an array. -/
structure Agrees (arch : Arch) (x : Integer T) (a : BitArray T.width) : Prop where
  bit   : ∀ i : Index arch T.width, Numeric.bit x i.value = some (a ⟨i.toNat, i.toNat_lt⟩)
  piece : ∀ G ∈ T.pieces, ∀ i : Index arch (T.width / G.width), ∃ out : Integer G,
            Numeric.piece G x i.value = some out ∧
              out.bitArray = a.slice (G.width * i.toNat) G.width i.end_le
  byte  : T.bytewise → ∀ i : Index arch (T.width / 8), ∃ out : Integer .uint8,
            Numeric.byte x i.value = some out ∧ out.bitArray = a.slice (8 * i.toNat) 8 i.end_le
  value : x.value.val = a.toNat

theorem agrees_bitArray (hT : T.signed = false) (x : Integer T) : Agrees arch x x.bitArray where
  bit i := (bit_eq hT x i.value).trans
    (bitAt_spec x (IntegerType.literalFor hT) i.val_eq i.toNat_lt)
  piece G hG i := by
    obtain ⟨out, hout, hbits⟩ :=
      pieceAt_spec x (G := G) (IntegerType.literalFor hT) i.val_eq i.end_le
    exact ⟨out, (piece_eq hG x i.value).trans hout, funext fun k => hbits k k.isLt⟩
  byte hbytes i := by
    obtain ⟨out, hout, hbits⟩ := byteAt_spec x i.val_eq i.end_le
    exact ⟨out, (byte_eq hbytes x i.value).trans hout, funext fun k => hbits k k.isLt⟩
  value := by
    have hsum := CInt.val_eq_sum_bits x.data (by rw [T.signed_underlying, hT])
    rw [T.width_underlying] at hsum
    show x.data.val = _
    rw [hsum, BitArray.toNat]
    push_cast
    rfl

/-- **All views agree, after any writes.** Whatever in-range writes are made to
an unsigned object, through bits, pieces of any class and bytes, in any order:
they are all defined, and every read of the result, through any of the views,
is the read of the abstract array after the same writes. One more write
changes only the bits of its own range. -/
theorem access_views_agree (arch : Arch) (T : IntegerType) (hT : T.signed = false)
    (x₀ : Integer T) (ws : List (Write arch T)) :
    ∃ x, ws.foldlM (fun x w => w.run x) x₀ = some x ∧
      Agrees arch x (ws.foldl (fun a w => w.apply a) x₀.bitArray) ∧
      ∀ w : Write arch T, ∃ y, w.run x = some y ∧
        ∀ j : Fin T.width, ¬ w.Covers j → y.bitArray j = x.bitArray j := by
  obtain ⟨x, hrun, hbits⟩ := foldlM_refines (write_refines hT) ws x₀
  refine ⟨x, hrun, ?_, fun w => ?_⟩
  · rw [← hbits]
    exact agrees_bitArray hT x
  · obtain ⟨y, hy, hbits⟩ := write_refines hT w x
    refine ⟨y, hy, fun j hj => ?_⟩
    rw [hbits, w.apply_of_not_covers x.bitArray hj]

/-- Overlapping writes to a `Uint32`: a 16-bit piece, a bit of it, a byte over it. -/
def overlapping : List (Write .x64 .uint32) :=
  [.setPiece .uint16 (by decide) ⟨CInt.ofInt _ 1, by decide⟩ ⟨CInt.ofInt _ 0xBEEF⟩,
   .setBit ⟨CInt.ofInt _ 16, by decide⟩ false,
   .setByte (by decide) ⟨CInt.ofInt _ 3, by decide⟩ ⟨CInt.ofInt _ 0x12⟩]

theorem access_views_agree_overlapping :
    ∃ x, overlapping.foldlM (fun x w => w.run x) ⟨CInt.ofInt _ 7⟩ = some x ∧
      Agrees .x64 x
        (overlapping.foldl (fun a w => w.apply a) (Integer.bitArray ⟨CInt.ofInt _ 7⟩)) ∧
      ∀ w : Write .x64 .uint32, ∃ y, w.run x = some y ∧
        ∀ j : Fin 32, ¬ w.Covers j → y.bitArray j = x.bitArray j :=
  access_views_agree .x64 .uint32 rfl ⟨CInt.ofInt _ 7⟩ overlapping

end Destiny.Numeric
