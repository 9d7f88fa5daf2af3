import Destiny.Foundation.CInt

/-!
# Integer family types

The eight integer classes, the traits and the type computations of the header,
and the objects with their constructors.

* `IntegerType`      — the classes; `width`, `signed`, `underlying` are the
  members of `NumericTraits`.
* `integerOf`, `widenSigned`, `commonInteger` — the templates of these names.
* `Integer T`        — an object; `construct` and `convert` are the converting
  constructor and the truncating one.
* `Operand T`        — an argument of a free operator: an object or a built-in
  integer that `Classify_t` takes to `T`.

Main result: `width_le_commonInteger_left` and `…_right`, no common type is
narrower than an operand's type.
-/

namespace Destiny.Numeric

open Foundation

-- ---------------------------------------------------------------------------
-- Traits
-- ---------------------------------------------------------------------------

/-- The classes that satisfy the concept `IntegerType`. -/
inductive IntegerType where
  | int8
  | int16
  | int32
  | int64
  | uint8
  | uint16
  | uint32
  | uint64
deriving DecidableEq, Repr

namespace IntegerType

/-- `NumericTraits<T>::Width` -/
def width : IntegerType → Nat
  | int8  | uint8  => 8
  | int16 | uint16 => 16
  | int32 | uint32 => 32
  | int64 | uint64 => 64

/-- `NumericTraits<T>::Signed` -/
def signed : IntegerType → Bool
  | int8  | int16  | int32  | int64  => true
  | uint8 | uint16 | uint32 | uint64 => false

/-- `NumericTraits<T>::Underlying` -/
def underlying : IntegerType → CTy
  | int8   => CTy.int8
  | int16  => CTy.int16
  | int32  => CTy.int32
  | int64  => CTy.int64
  | uint8  => CTy.uint8
  | uint16 => CTy.uint16
  | uint32 => CTy.uint32
  | uint64 => CTy.uint64

@[simp] theorem width_underlying (T : IntegerType) : T.underlying.width = T.width := by
  cases T <;> rfl

@[simp] theorem signed_underlying (T : IntegerType) : T.underlying.signed = T.signed := by
  cases T <;> rfl

theorem width_pos (T : IntegerType) : 0 < T.width := by
  cases T <;> decide

theorem width_le_64 (T : IntegerType) : T.width ≤ 64 := by
  cases T <;> decide

-- ---------------------------------------------------------------------------
-- Common types
-- ---------------------------------------------------------------------------

/-- `IntegerOf<Width, Signed>`: only these specialisations exist. -/
def integerOf : Nat → Bool → Option IntegerType
  | 8,  true  => some int8
  | 16, true  => some int16
  | 32, true  => some int32
  | 64, true  => some int64
  | 8,  false => some uint8
  | 16, false => some uint16
  | 32, false => some uint32
  | 64, false => some uint64
  | _,  _     => none

/-- `WidenSigned<T>::Next` -/
def next (T : IntegerType) : Nat :=
  if T.width < 16 then 16 else if T.width < 32 then 32 else if T.width < 64 then 64 else 64

theorem isSome_integerOf_next (T : IntegerType) : (integerOf T.next true).isSome := by
  cases T <;> rfl

/-- `WidenSigned<T>`: one step wider; at 64 bits there is only `Uint64`. -/
def widenSigned (T : IntegerType) : IntegerType :=
  if T.width ≥ 64 then uint64 else (integerOf T.next true).get T.isSome_integerOf_next

/-- `AWidth > BWidth ? AWidth : BWidth` -/
def widerWidth (A B : IntegerType) : Nat := if A.width > B.width then A.width else B.width

theorem isSome_integerOf_widerWidth (A B : IntegerType) (s : Bool) :
    (integerOf (A.widerWidth B) s).isSome := by
  cases A <;> cases B <;> cases s <;> rfl

/-- `CommonInteger<A, B>`: of one signedness the wider type; of one width the
signed type widened; otherwise the wider type. -/
def commonInteger (A B : IntegerType) : IntegerType :=
  let wider (s : Bool) := (integerOf (A.widerWidth B) s).get (isSome_integerOf_widerWidth A B s)
  if A.signed = B.signed then wider A.signed
  else if A.width = B.width then widenSigned (if A.signed then A else B)
  else wider (if A.width > B.width then A.signed else B.signed)

theorem width_le_commonInteger_left (A B : IntegerType) : A.width ≤ (commonInteger A B).width := by
  cases A <;> cases B <;> decide

theorem width_le_commonInteger_right (A B : IntegerType) :
    B.width ≤ (commonInteger A B).width := by
  cases A <;> cases B <;> decide

-- ---------------------------------------------------------------------------
-- Reduction into a type
-- ---------------------------------------------------------------------------

/-- An integer reduced modulo `2 ^ width` into the range of the type. -/
def reduce (T : IntegerType) (z : Int) : Int :=
  if T.signed then z.bmod (2 ^ T.width) else z % 2 ^ T.width

theorem val_ofInt_underlying (T : IntegerType) (z : Int) :
    (CInt.ofInt T.underlying z).val = T.reduce z := by
  unfold reduce
  cases hs : T.signed with
  | false =>
    rw [CInt.val_ofInt_of_unsigned (by rw [signed_underlying, hs]), width_underlying]
    rfl
  | true =>
    rw [CInt.val_of_signed _ (by rw [signed_underlying, hs]), CInt.ofInt, BitVec.toInt_ofInt,
      width_underlying, if_pos rfl]

end IntegerType

-- ---------------------------------------------------------------------------
-- Objects
-- ---------------------------------------------------------------------------

/-- An object of an integer class: its member `data_`. -/
structure Integer (T : IntegerType) where
  data : CInt T.underlying
deriving DecidableEq

namespace Integer

variable {T U : IntegerType}

/-- `value()` -/
def value (x : Integer T) : CInt T.underlying := x.data

/-- `T(v)` for a built-in `v`: the argument is converted to the underlying type. -/
def construct (T : IntegerType) {t : CTy} (v : CInt t) : Integer T := ⟨v.cast T.underlying⟩

/-- `T(other)` for an object of another class: the truncating constructor. -/
def convert (T : IntegerType) (other : Integer U) : Integer T := ⟨other.value.cast T.underlying⟩

/-- Constructing an object of its own class copies it. -/
@[simp] theorem convert_self (x : Integer T) : convert T x = x := by
  show (⟨x.value.cast T.underlying⟩ : Integer T) = x
  rw [CInt.cast_self]
  rfl

end Integer

/-- An argument of a free operator: an object, or a built-in integer of a type
that `Classify_t` takes to `T`. The two have the same representation. -/
inductive Operand (T : IntegerType) where
  | family  (x : Integer T)
  | builtin (v : CInt T.underlying)

namespace Operand

variable {T U : IntegerType}

/-- `toValue` -/
def toValue : Operand T → CInt T.underlying
  | family x  => x.value
  | builtin v => v

/-- The implicit conversion to a parameter of type `const U&`: the truncating
constructor for an object, the converting one for a built-in integer. -/
def toInteger (U : IntegerType) : Operand T → Integer U
  | family x  => Integer.convert U x
  | builtin v => Integer.construct U v

theorem value_toInteger (r : Operand T) :
    (r.toInteger U).value = r.toValue.cast U.underlying := by
  cases r <;> rfl

end Operand

end Destiny.Numeric
