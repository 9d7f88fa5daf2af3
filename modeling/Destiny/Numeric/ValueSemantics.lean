import Destiny.Foundation.CIntShift
import Destiny.Numeric.Comparison
import Destiny.Numeric.CompoundOperators
import Destiny.Numeric.Division
import Destiny.Numeric.Expression

/-!
# Operators on integers

What the classes are meant to be: integers, each class with its range. An
operator computes on integers and reduces the result into the class; it is
undefined where it divides by zero, shifts by a count out of range, or has a
result that the promoted type is signed for and cannot represent.

* `Value T`   — an integer in the range of the class; `Integer.denote`, the one an
  object stands for.
* `Value.fit`, `Value.result` — reduction into the class, and what is left of a
  result of built-in arithmetic.
* `onValues`  — the compound members and unary operators on these integers.
* `CompareOp` — the comparisons, which only convert their operands.
* `Integer.preIncrement` … — the increments and decrements of the classes.
* `…_denote`  — the members of the classes, seen through `denote`, are these.
-/

namespace Destiny.Numeric

open Foundation

variable {T L R : IntegerType}

-- ---------------------------------------------------------------------------
-- Values
-- ---------------------------------------------------------------------------

/-- An integer in the range of the class. -/
@[ext] structure Value (T : IntegerType) where
  int     : Int
  inRange : T.underlying.InRange int

/-- The integer an object stands for. -/
def Integer.denote (x : Integer T) : Value T := ⟨x.value.val, x.value.val_inRange⟩

namespace Value

/-- An integer reduced into the class. -/
def fit (T : IntegerType) (z : Int) : Value T :=
  ⟨T.reduce z, by
    rw [← T.val_ofInt_underlying]
    exact CInt.val_inRange _⟩

/-- What the built-in result `z` leaves in the class. -/
def result (T : IntegerType) (z : Int) : Option (Value T) :=
  if T.underlying.promote.signed = true ∧ ¬ T.underlying.promote.InRange z then none
  else some (fit T z)

/-- Integers in the range of the class stay as they are. -/
theorem fit_of_inRange {z : Int} (h : T.underlying.InRange z) : (fit T z).int = z := by
  show T.reduce z = z
  rw [← T.val_ofInt_underlying, CInt.val_ofInt h]

theorem result_of_inRange {z : Int} (h : T.underlying.InRange z) :
    ∃ x, result T z = some x ∧ x.int = z :=
  ⟨_, if_neg fun hover => hover.2 h.promote, fit_of_inRange h⟩

end Value

/-- An object stands for the reduction of whatever its value is congruent to. -/
theorem Integer.denote_of_modEq {x : Integer T} {z : Int}
    (h : x.value.val ≡ z [ZMOD 2 ^ T.width]) : x.denote = Value.fit T z :=
  Value.ext (x.val_eq_reduce h)

theorem Integer.denote_ofInt (z : Int) :
    (⟨CInt.ofInt T.underlying z⟩ : Integer T).denote = Value.fit T z :=
  Value.ext (T.val_ofInt_underlying z)

/-- The converting constructor after built-in arithmetic. -/
theorem denote_construct_result {t : CTy} (ht : t = T.underlying.promote) (z : Int) :
    ((CInt.result t z).map (Integer.construct T)).map Integer.denote = Value.result T z := by
  subst ht
  have hwidth := T.underlying.width_le_promote
  unfold CInt.result Value.result
  split
  · rfl
  · refine congrArg some (Eq.trans (congrArg Integer.denote ?_) (Integer.denote_ofInt z))
    exact congrArg Integer.mk (CInt.cast_ofInt hwidth z)

/-- A conversion to a class reduces into it. -/
theorem denote_toInteger (r : Operand R) :
    (r.toInteger T).denote = Value.fit T r.toValue.val :=
  Integer.denote_of_modEq (r.toInteger_modEq le_rfl)

-- ---------------------------------------------------------------------------
-- Ring and bitwise operators
-- ---------------------------------------------------------------------------

namespace BinaryOp

/-- The compound member on integers. -/
def onValues : BinaryOp → Value T → Value T → Option (Value T)
  | add, a, b => Value.result T (a.int + b.int)
  | sub, a, b => Value.result T (a.int - b.int)
  | mul, a, b => Value.result T (a.int * b.int)
  | and, a, b => some (Value.fit T (Int.land a.int b.int))
  | or,  a, b => some (Value.fit T (Int.lor a.int b.int))
  | xor, a, b => some (Value.fit T (Int.xor a.int b.int))

/-- Built-in arithmetic on two operands of a class. -/
theorem arith_denote (f : Int → Int → Int) (a b : Integer T) :
    ((CInt.arith f a.data b.data).map (Integer.construct T)).map Integer.denote =
      Value.result T (f a.denote.int b.denote.int) := by
  rw [CInt.arith, denote_construct_result (CTy.usual_self _), CInt.val_cast_usual_self,
    CInt.val_cast_usual_self]
  rfl

/-- **The compound members.** -/
theorem assign_denote (op : BinaryOp) (a b : Integer T) :
    (op.assign a b).map Integer.denote = op.onValues a.denote b.denote := by
  cases op
  case add => exact arith_denote (· + ·) a b
  case sub => exact arith_denote (· - ·) a b
  case mul => exact arith_denote (· * ·) a b
  case and => exact congrArg some (Integer.denote_of_modEq (BinaryOp.and.assign_modEq rfl))
  case or => exact congrArg some (Integer.denote_of_modEq (BinaryOp.or.assign_modEq rfl))
  case xor => exact congrArg some (Integer.denote_of_modEq (BinaryOp.xor.assign_modEq rfl))

/-- **The free operators.** -/
theorem apply_denote (op : BinaryOp) (l : Operand L) (r : Operand R) :
    (op.apply l r).map Integer.denote =
      op.onValues (Value.fit _ l.toValue.val) (Value.fit _ r.toValue.val) := by
  rw [op.apply_eq_assign, op.assign_denote, denote_toInteger, denote_toInteger]

end BinaryOp

-- ---------------------------------------------------------------------------
-- Division
-- ---------------------------------------------------------------------------

namespace DivisionOp

/-- The compound member on integers. -/
def onValues (op : DivisionOp) (a b : Value T) : Option (Value T) :=
  if b.int = 0 ∨ T.underlying.promote.QuotientOverflow a.int b.int then none
  else some (Value.fit T (op.exact a.int b.int))

theorem assign_zero (op : DivisionOp) {a b : Integer T} (h : b.value.val = 0) :
    op.assign a b = none := by
  have hzero : (b.data.cast (CTy.usual T.underlying T.underlying)).val = 0 := by
    rw [CInt.val_cast_usual_self]
    exact h
  have hdiv : CInt.div a.data b.data = none := if_pos hzero
  cases op with
  | div => exact congrArg (Option.map (Integer.construct T)) hdiv
  | mod =>
    show (CInt.mod a.data b.data).map (Integer.construct T) = none
    rw [CInt.mod, hdiv]
    rfl

/-- **The compound members.** -/
theorem assign_denote (op : DivisionOp) (a b : Integer T) :
    (op.assign a b).map Integer.denote = op.onValues a.denote b.denote := by
  unfold onValues
  by_cases hzero : b.value.val = 0
  · rw [op.assign_zero hzero]
    exact (if_pos (Or.inl hzero)).symm
  · rw [op.assign_eq a b hzero]
    by_cases hover : T.underlying.promote.QuotientOverflow a.value.val b.value.val
    · rw [if_pos hover]
      exact (if_pos (Or.inr hover)).symm
    · rw [if_neg hover]
      refine Eq.trans ?_ (if_neg (not_or.mpr ⟨hzero, hover⟩)).symm
      exact congrArg some (Integer.denote_ofInt _)

/-- **The free operators.** -/
theorem apply_denote (op : DivisionOp) (l : Operand L) (r : Operand R) :
    (op.apply l r).map Integer.denote =
      op.onValues (Value.fit _ l.toValue.val) (Value.fit _ r.toValue.val) := by
  rw [op.apply_eq_assign, op.assign_denote, denote_toInteger, denote_toInteger]

end DivisionOp

-- ---------------------------------------------------------------------------
-- Shifts
-- ---------------------------------------------------------------------------

namespace ShiftOp

/-- The shift of an unbounded integer. -/
def exact : ShiftOp → Int → Int → Int
  | shl, z, n => z * 2 ^ n.toNat
  | shr, z, n => z / 2 ^ n.toNat

/-- The compound member and the free operator on integers. -/
def onValues (op : ShiftOp) (a : Value T) (n : Int) : Option (Value T) :=
  if 0 ≤ n ∧ n < T.underlying.promote.width then some (Value.fit T (op.exact a.int n)) else none

theorem builtin_exact (op : ShiftOp) {t u : CTy} (x : CInt t) (n : CInt u) :
    op.builtin x n = if 0 ≤ n.val ∧ n.val < t.promote.width then
      some (CInt.ofInt _ (op.exact x.val n.val)) else none := by
  cases op with
  | shl => exact CInt.shl_eq x n
  | shr => exact CInt.shr_eq x n

/-- The constructor reduces the shifted value. -/
theorem builtin_denote (op : ShiftOp) {u : CTy} (x : Integer T) (n : CInt u) :
    ((op.builtin x.data n).map (Integer.construct T)).map Integer.denote =
      op.onValues x.denote n.val := by
  have hwidth := T.underlying.width_le_promote
  rw [op.builtin_exact, onValues]
  split
  · refine congrArg some (Eq.trans (congrArg Integer.denote ?_) (Integer.denote_ofInt _))
    exact congrArg Integer.mk (CInt.cast_ofInt hwidth _)
  · rfl

/-- **The compound members.** -/
theorem assign_denote (op : ShiftOp) (a b : Integer T) :
    (op.assign a b).map Integer.denote = op.onValues a.denote b.denote.int := by
  cases op with
  | shl => exact ShiftOp.shl.builtin_denote a b.data
  | shr => exact ShiftOp.shr.builtin_denote a b.data

/-- **The free operators.** -/
theorem apply_denote (op : ShiftOp) (l : Operand L) (r : Operand R) :
    (op.apply l r).map Integer.denote = op.onValues (l.toInteger L).denote r.toValue.val := by
  have hfree : op.apply l r =
      (op.builtin (l.toInteger L).data r.toValue).map (Integer.construct L) := by
    have hcast : ∀ v : CInt L.underlying.promote,
        Integer.construct L (v.cast L.underlying) = Integer.construct L v := fun v =>
      congrArg Integer.mk (CInt.cast_cast le_rfl v)
    have hshift : op.apply l r = (op.builtin (l.toValue.cast L.underlying) r.toValue).map
        fun v => Integer.construct L (v.cast L.underlying) := by
      cases op <;> rfl
    rw [hshift]
    simp only [hcast]
    cases l <;> rfl
  rw [hfree, op.builtin_denote]

end ShiftOp

-- ---------------------------------------------------------------------------
-- Unary operators
-- ---------------------------------------------------------------------------

namespace UnaryOp

/-- The operator on integers. -/
def onValues : UnaryOp → Value T → Option (Value T)
  | neg,  a => Value.result T (-a.int)
  | plus, a => some a
  | not,  a => some (Value.fit T (Int.lnot a.int))

/-- **The unary operators.** -/
theorem apply_denote (op : UnaryOp) (v : Integer T) :
    (op.apply v).map Integer.denote = op.onValues v.denote := by
  cases op
  case neg =>
    show ((CInt.neg v.value).map (Integer.construct T)).map Integer.denote = _
    rw [CInt.neg, denote_construct_result rfl, CInt.val_cast_promote]
    rfl
  case plus =>
    refine congrArg some (Value.ext ?_)
    show (CInt.cast (CInt.plus v.value) T.underlying).val = v.value.val
    rw [CInt.plus, CInt.cast_cast T.underlying.width_le_promote, CInt.cast_self]
  case not => exact congrArg some (Integer.denote_of_modEq (UnaryOp.not.apply_modEq rfl))

end UnaryOp

-- ---------------------------------------------------------------------------
-- Comparisons
-- ---------------------------------------------------------------------------

/-- `==` and `<=>`, and the comparisons that are rewritten to them. -/
inductive CompareOp where
  | eq
  | ne
  | lt
  | le
  | gt
  | ge
deriving DecidableEq, Repr

namespace CompareOp

def apply : CompareOp → Operand L → Operand R → Bool
  | eq, l, r => l.eq r
  | ne, l, r => !l.eq r
  | lt, l, r => (l.compare r).isLT
  | le, l, r => (l.compare r).isLE
  | gt, l, r => (l.compare r).isGT
  | ge, l, r => (l.compare r).isGE

/-- The comparison of unbounded integers. -/
def exact : CompareOp → Int → Int → Bool
  | eq, a, b => decide (a = b)
  | ne, a, b => decide (a ≠ b)
  | lt, a, b => decide (a < b)
  | le, a, b => decide (a ≤ b)
  | gt, a, b => decide (b < a)
  | ge, a, b => decide (b ≤ a)

theorem compared_eq_fit (l : Operand L) (R : IntegerType) :
    l.compared R = (Value.fit (L.commonInteger R) l.toValue.val).int :=
  IntegerType.val_ofInt_underlying _ _

/-- **The comparisons** compare what the common type makes of the operands. -/
theorem apply_exact (op : CompareOp) (l : Operand L) (r : Operand R) :
    op.apply l r = op.exact (Value.fit (L.commonInteger R) l.toValue.val).int
      (Value.fit (L.commonInteger R) r.toValue.val).int := by
  have hcompare := l.compare_eq r
  have hright := compared_eq_fit r L
  rw [IntegerType.commonInteger_comm] at hright
  rw [compared_eq_fit, hright] at hcompare
  have heq : l.eq r = (l.compare r == .eq) := Bool.eq_iff_iff.mpr (by rw [eq_iff_compare, beq_iff_eq])
  generalize (Value.fit (L.commonInteger R) l.toValue.val).int = a at hcompare ⊢
  generalize (Value.fit (L.commonInteger R) r.toValue.val).int = b at hcompare ⊢
  rcases Int.lt_trichotomy a b with hlt | rfl | hgt
  · rw [compare_lt_iff_lt.mpr hlt] at hcompare
    cases op <;> simp [apply, exact, heq, hcompare] <;> omega
  · rw [compare_eq_iff_eq.mpr rfl] at hcompare
    cases op <;> simp [apply, exact, heq, hcompare]
  · rw [compare_gt_iff_gt.mpr hgt] at hcompare
    cases op <;> simp [apply, exact, heq, hcompare] <;> omega

end CompareOp

-- ---------------------------------------------------------------------------
-- Increments and decrements
-- ---------------------------------------------------------------------------

inductive CountOp where
  | increment
  | decrement
deriving DecidableEq, Repr

namespace CountOp

/-- `++data_` and `--data_`: the built-in `1` is an `int`. -/
def builtin (op : CountOp) (x : Integer T) : Option (Integer T) :=
  match op with
  | increment => (CInt.add x.data (CInt.ofInt .int32 1)).map (Integer.construct T)
  | decrement => (CInt.sub x.data (CInt.ofInt .int32 1)).map (Integer.construct T)

/-- The postfix operator: the copy that is returned, and the object afterwards. -/
def post (op : CountOp) (x : Integer T) : Option (Integer T × Integer T) :=
  let tmp := x
  (op.builtin x).map fun self => (tmp, self)

/-- What the operator adds. -/
def amount : CountOp → Int
  | increment => 1
  | decrement => -1

/-- The operator on integers. -/
def onValues (op : CountOp) (a : Value T) : Option (Value T) := Value.result T (a.int + op.amount)

end CountOp

namespace Integer

/-- `operator++()`: the object afterwards, which is also what is returned. -/
def preIncrement (x : Integer T) : Option (Integer T) := CountOp.increment.builtin x

/-- `operator--()` -/
def preDecrement (x : Integer T) : Option (Integer T) := CountOp.decrement.builtin x

/-- `operator++(int)` -/
def postIncrement (x : Integer T) : Option (Integer T × Integer T) := CountOp.increment.post x

/-- `operator--(int)` -/
def postDecrement (x : Integer T) : Option (Integer T × Integer T) := CountOp.decrement.post x

end Integer

/-- Beside a class, the `int` 1 is converted to the promoted type. -/
theorem usual_int (T : IntegerType) : CTy.usual T.underlying .int32 = T.underlying.promote := by
  cases T <;> rfl

/-- Built-in arithmetic of an object and the `int` 1. -/
theorem arith_one_denote (f : Int → Int → Int) (x : Integer T) :
    ((CInt.arith f x.data (CInt.ofInt .int32 1)).map (Integer.construct T)).map Integer.denote =
      Value.result T (f x.denote.int 1) := by
  have hwide : 32 ≤ (CTy.usual T.underlying .int32).width := by
    rw [usual_int]
    exact CTy.thirtytwo_le_promote _
  have hone : (CInt.ofInt .int32 1).val = 1 := by decide
  have hleft : (x.data.cast (CTy.usual T.underlying .int32)).val = x.data.val := by
    apply CInt.val_cast
    rw [usual_int]
    exact x.data.val_inRange.promote
  have hright : ((CInt.ofInt .int32 1).cast (CTy.usual T.underlying .int32)).val = 1 := by
    rw [CInt.val_cast, hone]
    rw [hone]
    exact CTy.inRange_of_small hwide (by decide)
  rw [CInt.arith, denote_construct_result (usual_int T), hleft, hright]
  rfl

/-- **Increments and decrements.** -/
theorem CountOp.builtin_denote (op : CountOp) (x : Integer T) :
    (op.builtin x).map Integer.denote = op.onValues x.denote := by
  cases op with
  | increment => exact arith_one_denote (· + ·) x
  | decrement => exact arith_one_denote (· - ·) x

/-- The copy is the object before. -/
theorem CountOp.post_denote (op : CountOp) (x : Integer T) :
    (op.post x).map (Prod.map Integer.denote Integer.denote) =
      (op.onValues x.denote).map fun self => (x.denote, self) := by
  rw [← op.builtin_denote, CountOp.post, Option.map_map, Option.map_map]
  rfl

end Destiny.Numeric
