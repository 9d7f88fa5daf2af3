import Destiny.Foundation.CIntModular
import Destiny.Numeric.Types

/-!
# Operators of the integer family

The free operator templates of the header, the unary operators, and the
compound members of the eight classes (their bodies are the same text).

* `Operand.add` …       — `l + r`: both operands are converted to the underlying
  type of the common type, the built-in operator is applied (after promotion),
  and its result goes through the constructor of the common type.
* `Operand.shl` …       — `l << r`: the class of the left operand is kept.
* `Integer.addAssign` … — `a += b`: the built-in operator on `data_`, whose
  result is converted back.
* `Integer.neg` …       — `-v`, `+v`, `~v`.

* `BinaryOp` — the operators that are compatible with reduction.

A result is `none` where the built-in operator is undefined;
`BinaryOp.Overflows` says where that is, in terms of the operands' values.

Main results: `apply_eq_assign`, a free operator is the compound member on the
operands converted to the common type; `apply_modEq`, its result is exact
modulo a power of two; `assign_iff` and `apply_iff`, both are defined unless the
built-in operator overflows, and then reduce the exact result.
-/

namespace Destiny.Numeric

open Foundation

/-- A built-in operator on operands of one type. -/
abbrev BuiltinOp := {t : CTy} → CInt t → CInt t → Option (CInt (CTy.usual t t))

/-- A built-in shift: only the left operand decides the type. -/
abbrev BuiltinShift := {t u : CTy} → CInt t → CInt u → Option (CInt t.promote)

variable {T L R : IntegerType}

-- ---------------------------------------------------------------------------
-- Compound members
-- ---------------------------------------------------------------------------

namespace Integer

/-- `data_ op= other.data_` -/
def compound (op : BuiltinOp) (self other : Integer T) : Option (Integer T) :=
  (op self.data other.data).map (construct T)

def addAssign : Integer T → Integer T → Option (Integer T) := compound CInt.add

def subAssign : Integer T → Integer T → Option (Integer T) := compound CInt.sub

def mulAssign : Integer T → Integer T → Option (Integer T) := compound CInt.mul

def divAssign : Integer T → Integer T → Option (Integer T) := compound CInt.div

def modAssign : Integer T → Integer T → Option (Integer T) := compound CInt.mod

def andAssign : Integer T → Integer T → Option (Integer T) :=
  compound fun x y => some (CInt.and x y)

def orAssign : Integer T → Integer T → Option (Integer T) :=
  compound fun x y => some (CInt.or x y)

def xorAssign : Integer T → Integer T → Option (Integer T) :=
  compound fun x y => some (CInt.xor x y)

/-- `data_ op= other.data_` for a shift. -/
def compoundShift (op : BuiltinShift) (self other : Integer T) : Option (Integer T) :=
  (op self.data other.data).map (construct T)

def shlAssign : Integer T → Integer T → Option (Integer T) := compoundShift CInt.shl

def shrAssign : Integer T → Integer T → Option (Integer T) := compoundShift CInt.shr

-- ---------------------------------------------------------------------------
-- Unary operators
-- ---------------------------------------------------------------------------

/-- `T(-v.value())` -/
def neg (v : Integer T) : Option (Integer T) := (CInt.neg v.value).map (construct T)

/-- `T(+v.value())` -/
def plus (v : Integer T) : Integer T := construct T (CInt.plus v.value)

/-- `T(~v.value())` -/
def not (v : Integer T) : Integer T := construct T (CInt.not v.value)

end Integer

-- ---------------------------------------------------------------------------
-- Free operators
-- ---------------------------------------------------------------------------

namespace Operand

/-- `C(static_cast<U>(vl) op static_cast<U>(vr))`, where `C` is the common type
and `U` its underlying type. -/
def binary (op : BuiltinOp) (l : Operand L) (r : Operand R) :
    Option (Integer (L.commonInteger R)) :=
  let C := L.commonInteger R
  let vl := l.toValue
  let vr := r.toValue
  (op (vl.cast C.underlying) (vr.cast C.underlying)).map (Integer.construct C)

def add : Operand L → Operand R → Option (Integer (L.commonInteger R)) := binary CInt.add

def sub : Operand L → Operand R → Option (Integer (L.commonInteger R)) := binary CInt.sub

def mul : Operand L → Operand R → Option (Integer (L.commonInteger R)) := binary CInt.mul

def div : Operand L → Operand R → Option (Integer (L.commonInteger R)) := binary CInt.div

def mod : Operand L → Operand R → Option (Integer (L.commonInteger R)) := binary CInt.mod

def and : Operand L → Operand R → Option (Integer (L.commonInteger R)) :=
  binary fun x y => some (CInt.and x y)

def or : Operand L → Operand R → Option (Integer (L.commonInteger R)) :=
  binary fun x y => some (CInt.or x y)

def xor : Operand L → Operand R → Option (Integer (L.commonInteger R)) :=
  binary fun x y => some (CInt.xor x y)

/-- `T(static_cast<U>(static_cast<U>(vl) op vr))`, where `T` is the class of the
left operand and `U` its underlying type. -/
def shift (op : BuiltinShift) (l : Operand L) (r : Operand R) : Option (Integer L) :=
  let vl := l.toValue
  let vr := r.toValue
  (op (vl.cast L.underlying) vr).map fun v => Integer.construct L (v.cast L.underlying)

def shl : Operand L → Operand R → Option (Integer L) := shift CInt.shl

def shr : Operand L → Operand R → Option (Integer L) := shift CInt.shr

/-- **One path.** A free operator does what the compound member of the common
type does on the converted operands. -/
theorem binary_eq_compound (op : BuiltinOp) (l : Operand L) (r : Operand R) :
    binary op l r = Integer.compound op (l.toInteger _) (r.toInteger _) := by
  cases l <;> cases r <;> rfl

end Operand

-- ---------------------------------------------------------------------------
-- Values
-- ---------------------------------------------------------------------------

namespace Integer

/-- The converting constructor keeps the value up to the width of the class. -/
theorem construct_modEq {t : CTy} (v : CInt t) :
    (construct T v).value.val ≡ v.val [ZMOD 2 ^ T.width] := by
  rw [← T.width_underlying]
  exact CInt.val_cast_modEq v le_rfl

/-- Objects with the same value are equal. -/
theorem ext_val {x y : Integer T} (h : x.value.val = y.value.val) : x = y := by
  cases x
  cases y
  exact congrArg Integer.mk (CInt.val_injective h)

/-- A value is the reduction of whatever it is congruent to. -/
theorem val_eq_reduce (x : Integer T) {z : Int} (h : x.value.val ≡ z [ZMOD 2 ^ T.width]) :
    x.value.val = T.reduce z := by
  rw [← T.width_underlying] at h
  rw [← T.val_ofInt_underlying, ← CInt.ofInt_eq_ofInt.mpr h, CInt.ofInt_val]

/-- A result that is defined where `P` holds, and exact up to the width of the class. -/
theorem eq_some_iff_of_modEq {o : Option (Integer T)} {P : Prop} {z : Int}
    (hdef : (∃ y, o = some y) ↔ P)
    (hmod : ∀ y, o = some y → y.value.val ≡ z [ZMOD 2 ^ T.width]) {x : Integer T} :
    o = some x ↔ P ∧ x.value.val = T.reduce z := by
  constructor
  · intro h
    exact ⟨hdef.mp ⟨x, h⟩, x.val_eq_reduce (hmod x h)⟩
  · rintro ⟨hP, hval⟩
    obtain ⟨y, hy⟩ := hdef.mpr hP
    rw [ext_val (hval.trans (y.val_eq_reduce (hmod y hy)).symm), hy]

/-- Where the built-in operator computes `f` up to the width of its result,
so does the member up to the width of its class. -/
theorem compound_modEq {op : BuiltinOp} {f : Int → Int → Int} {a b c : Integer T}
    (hop : ∀ {r}, op a.data b.data = some r →
      r.val ≡ f a.data.val b.data.val [ZMOD 2 ^ (CTy.usual T.underlying T.underlying).width])
    (h : compound op a b = some c) :
    c.value.val ≡ f a.value.val b.value.val [ZMOD 2 ^ T.width] := by
  obtain ⟨r, hr, rfl⟩ := Option.map_eq_some_iff.mp h
  have hle := CTy.width_le_usual_left T.underlying T.underlying
  rw [T.width_underlying] at hle
  exact (construct_modEq r).trans ((hop hr).of_dvd (pow_dvd_pow 2 hle))

end Integer

/-- A conversion keeps the value up to the width of the class. -/
theorem Operand.toInteger_modEq {U : IntegerType} (r : Operand R) {w : Nat} (h : w ≤ U.width) :
    (r.toInteger U).value.val ≡ r.toValue.val [ZMOD 2 ^ w] := by
  rw [value_toInteger]
  refine Int.ModEq.of_dvd (pow_dvd_pow 2 h) ?_
  rw [← U.width_underlying]
  exact CInt.val_cast_modEq _ le_rfl

/-- A conversion reduces the value into the range of the class. -/
theorem Operand.val_toInteger_eq_reduce (U : IntegerType) (r : Operand R) :
    (r.toInteger U).value.val = U.reduce r.toValue.val :=
  (r.toInteger U).val_eq_reduce (r.toInteger_modEq le_rfl)

/-- A conversion to a class that represents the value keeps it. -/
theorem Operand.val_toInteger {U : IntegerType} {r : Operand R}
    (h : U.underlying.InRange r.toValue.val) : (r.toInteger U).value.val = r.toValue.val := by
  rw [value_toInteger]
  exact CInt.val_cast h

-- ---------------------------------------------------------------------------
-- The operators that are compatible with reduction
-- ---------------------------------------------------------------------------

inductive BinaryOp where
  | add
  | sub
  | mul
  | and
  | or
  | xor
deriving DecidableEq, Repr

namespace BinaryOp

variable {T L R : IntegerType}

/-- The free operator. -/
def apply : BinaryOp → Operand L → Operand R → Option (Integer (L.commonInteger R))
  | add => Operand.add
  | sub => Operand.sub
  | mul => Operand.mul
  | and => Operand.and
  | or  => Operand.or
  | xor => Operand.xor

/-- The compound member. -/
def assign : BinaryOp → Integer T → Integer T → Option (Integer T)
  | add => Integer.addAssign
  | sub => Integer.subAssign
  | mul => Integer.mulAssign
  | and => Integer.andAssign
  | or  => Integer.orAssign
  | xor => Integer.xorAssign

/-- The operation on unbounded integers. -/
def exact : BinaryOp → Int → Int → Int
  | add => (· + ·)
  | sub => (· - ·)
  | mul => (· * ·)
  | and => Int.land
  | or  => Int.lor
  | xor => Int.xor

/-- The built-in operator of both. -/
def builtin : BinaryOp → BuiltinOp
  | add => CInt.add
  | sub => CInt.sub
  | mul => CInt.mul
  | and => fun x y => some (CInt.and x y)
  | or  => fun x y => some (CInt.or x y)
  | xor => fun x y => some (CInt.xor x y)

theorem assign_eq_compound (op : BinaryOp) (a b : Integer T) :
    op.assign a b = Integer.compound op.builtin a b := by
  cases op <;> rfl

/-- A free operator is the compound member on the converted operands. -/
theorem apply_eq_assign (op : BinaryOp) (l : Operand L) (r : Operand R) :
    op.apply l r = op.assign (l.toInteger _) (r.toInteger _) := by
  rw [assign_eq_compound, ← Operand.binary_eq_compound]
  cases op <;> rfl

theorem modular_exact (op : BinaryOp) : Modular op.exact := by
  cases op
  case add => exact Modular.add
  case sub => exact Modular.sub
  case mul => exact Modular.mul
  case and => exact Modular.land
  case or => exact Modular.lor
  case xor => exact Modular.xor

theorem builtin_modEq (op : BinaryOp) {t : CTy} {x y : CInt t} {r : CInt (CTy.usual t t)}
    (h : op.builtin x y = some r) :
    r.val ≡ op.exact x.val y.val [ZMOD 2 ^ (CTy.usual t t).width] := by
  cases op
  case add => exact CInt.add_modEq h
  case sub => exact CInt.sub_modEq h
  case mul => exact CInt.mul_modEq h
  case and =>
    obtain rfl := Option.some.inj h
    exact CInt.and_modEq x y
  case or =>
    obtain rfl := Option.some.inj h
    exact CInt.or_modEq x y
  case xor =>
    obtain rfl := Option.some.inj h
    exact CInt.xor_modEq x y

/-- A compound member gives the exact result up to the width of its class. -/
theorem assign_modEq (op : BinaryOp) {a b x : Integer T} (h : op.assign a b = some x) :
    x.value.val ≡ op.exact a.value.val b.value.val [ZMOD 2 ^ T.width] := by
  rw [assign_eq_compound] at h
  exact Integer.compound_modEq (f := op.exact) (fun h => op.builtin_modEq h) h

/-- A free operator gives the exact result up to the width of the common type. -/
theorem apply_modEq (op : BinaryOp) {l : Operand L} {r : Operand R}
    {x : Integer (L.commonInteger R)} (h : op.apply l r = some x) :
    x.value.val ≡ op.exact l.toValue.val r.toValue.val [ZMOD 2 ^ (L.commonInteger R).width] := by
  rw [apply_eq_assign] at h
  exact (op.assign_modEq h).trans
    (op.modular_exact (l.toInteger_modEq le_rfl) (r.toInteger_modEq le_rfl))

-- ---------------------------------------------------------------------------
-- Overflow
-- ---------------------------------------------------------------------------

/-- On operands of the underlying type of `T`, with the values `a` and `b`, the
built-in operator overflows: the promoted type is signed and cannot represent the
exact result. -/
def Overflows (op : BinaryOp) (T : IntegerType) (a b : Int) : Prop :=
  match op with
  | add | sub | mul =>
    T.underlying.promote.signed = true ∧ ¬ T.underlying.promote.InRange (op.exact a b)
  | and | or | xor  => False

instance (op : BinaryOp) (T : IntegerType) (a b : Int) : Decidable (op.Overflows T a b) :=
  match op with
  | add | sub | mul => inferInstanceAs (Decidable (_ ∧ _))
  | and | or | xor  => inferInstanceAs (Decidable False)

/-- The built-in operator is defined unless it overflows. -/
theorem builtin_defined_iff (op : BinaryOp) (x y : CInt T.underlying) :
    (∃ r, op.builtin x y = some r) ↔ ¬ op.Overflows T x.val y.val := by
  have harith : ∀ f : Int → Int → Int, (∃ r, CInt.arith f x y = some r) ↔
      ¬ (T.underlying.promote.signed = true ∧
        ¬ T.underlying.promote.InRange (f x.val y.val)) := fun f => by
    rw [not_and_not_right]
    exact CInt.arith_self_iff
  cases op
  case add => exact harith _
  case sub => exact harith _
  case mul => exact harith _
  case and => exact iff_of_true ⟨_, rfl⟩ id
  case or => exact iff_of_true ⟨_, rfl⟩ id
  case xor => exact iff_of_true ⟨_, rfl⟩ id

theorem assign_defined_iff (op : BinaryOp) (a b : Integer T) :
    (∃ x, op.assign a b = some x) ↔ ¬ op.Overflows T a.value.val b.value.val := by
  rw [op.assign_eq_compound, Integer.compound, ← op.builtin_defined_iff]
  constructor
  · rintro ⟨x, h⟩
    obtain ⟨r, hr, -⟩ := Option.map_eq_some_iff.mp h
    exact ⟨r, hr⟩
  · rintro ⟨r, hr⟩
    exact ⟨_, Option.map_eq_some_iff.mpr ⟨r, hr, rfl⟩⟩

/-- **Compound members**: undefined where the built-in operator overflows, elsewhere
the exact result reduced into the class. -/
theorem assign_iff (op : BinaryOp) {a b x : Integer T} :
    op.assign a b = some x ↔ ¬ op.Overflows T a.value.val b.value.val ∧
      x.value.val = T.reduce (op.exact a.value.val b.value.val) :=
  Integer.eq_some_iff_of_modEq (op.assign_defined_iff a b) fun _ h => op.assign_modEq h

theorem apply_defined_iff (op : BinaryOp) (l : Operand L) (r : Operand R) :
    (∃ x, op.apply l r = some x) ↔
      ¬ op.Overflows (L.commonInteger R) ((L.commonInteger R).reduce l.toValue.val)
        ((L.commonInteger R).reduce r.toValue.val) := by
  rw [apply_eq_assign, assign_defined_iff, Operand.val_toInteger_eq_reduce,
    Operand.val_toInteger_eq_reduce]

/-- **Free operators**: the same in the common type, on the converted operands. -/
theorem apply_iff (op : BinaryOp) {l : Operand L} {r : Operand R}
    {x : Integer (L.commonInteger R)} :
    op.apply l r = some x ↔
      ¬ op.Overflows (L.commonInteger R) ((L.commonInteger R).reduce l.toValue.val)
        ((L.commonInteger R).reduce r.toValue.val) ∧
      x.value.val = (L.commonInteger R).reduce (op.exact
        ((L.commonInteger R).reduce l.toValue.val) ((L.commonInteger R).reduce r.toValue.val)) := by
  rw [apply_eq_assign, assign_iff, Operand.val_toInteger_eq_reduce,
    Operand.val_toInteger_eq_reduce]

end BinaryOp

end Destiny.Numeric
