import Destiny.Foundation.Interpretation
import Destiny.Numeric.ValueSemantics

/-!
# Programs over the numeric classes

What client code does with objects of the eight integer classes and of `Bool`:
it evaluates terms with the operators of the header, on objects and on built-in
operands, calls the members that change an object (`++`, `--`, `+=`, …) on its
variables, and assigns the results. A member call stands alone or as the right
side of an assignment, not inside a larger term. Two interpretations of such
programs are compared with the classes':

* `classes`   — the members and operators as the library computes them: bits,
  promotions, common types, truncating constructors.
* `integers`  — integers in the ranges of the classes, with one exact operation
  and one reduction for each operator.
* `unbounded` — integers, as long as everything fits.

Main results: `programs_compute_on_integers`, the first two agree on every
program, on whether it is defined and on every variable; `programs_that_fit`,
where a program is defined on unbounded integers, the classes compute the same.
-/

namespace Destiny.Numeric

open Foundation

-- ---------------------------------------------------------------------------
-- Operators
-- ---------------------------------------------------------------------------

/-- What an operand can be: an object of a class, or a built-in integer that
`Classify_t` takes to the class; a `Bool`, or a `bool`. -/
inductive OperandType
  | object (T : IntegerType)
  | builtin (T : IntegerType)
  | bool
  | builtinBool
deriving DecidableEq

namespace OperandType

/-- `LiftBool<Classify_t<T>>` -/
def lifted : OperandType → IntegerType
  | object T | builtin T => T
  | bool | builtinBool   => .int32

/-- The concept `IntegerType`. -/
def isIntegerType : OperandType → Bool
  | object _ => true
  | _        => false

/-- The concept `NumericType`, without the floating classes. -/
def isNumericType : OperandType → Bool
  | object _ | bool => true
  | _               => false

/-- The concept `AnyInteger`. -/
def isAnyInteger : OperandType → Bool
  | object _ | builtin _ => true
  | _                    => false

/-- The constraint of `+`, `-`, `*`, `/`, `==` and `<=>`. -/
def numeric (s t : OperandType) : Bool := s.isNumericType || t.isNumericType

/-- The constraint of `%`, `&`, `|`, `^`, `<<` and `>>`. -/
def integral (s t : OperandType) : Bool :=
  s.isAnyInteger && t.isAnyInteger && (s.isIntegerType || t.isIntegerType)

end OperandType

open OperandType

/-- `operator+`, …, `operator^` take part in overload resolution. -/
def BinaryOp.constraint : BinaryOp → OperandType → OperandType → Bool
  | add | sub | mul => numeric
  | and | or | xor  => integral

/-- `operator/` and `operator%` do. -/
def DivisionOp.constraint : DivisionOp → OperandType → OperandType → Bool
  | div => numeric
  | mod => integral

/-- Operators with one operand. -/
inductive Unary : OperandType → OperandType → Type
  -- `-v`, `+v`, `~v`
  | sign (op : UnaryOp) (T : IntegerType) : Unary (.object T) (.object T)
  -- `v.value()`
  | value (T : IntegerType) : Unary (.object T) (.builtin T)
  | valueBool : Unary .bool .builtinBool
  -- `T(v)`, `Bool(v)`
  | construct (s : OperandType) (T : IntegerType) : Unary s (.object T)
  | constructBool (s : OperandType) : Unary s .bool

/-- Operators with two operands. -/
inductive Binary : OperandType → OperandType → OperandType → Type
  -- `l + r`, …, `l ^ r`
  | ring (op : BinaryOp) (s t : OperandType) (h : op.constraint s t) :
      Binary s t (.object (s.lifted.commonInteger t.lifted))
  -- `l / r`, `l % r`
  | division (op : DivisionOp) (s t : OperandType) (h : op.constraint s t) :
      Binary s t (.object (s.lifted.commonInteger t.lifted))
  -- `l << r`, `l >> r`
  | shift (op : ShiftOp) (s t : OperandType) (h : integral s t) : Binary s t (.object s.lifted)
  -- `l == r`, …, `l >= r`
  | compare (op : CompareOp) (s t : OperandType) (h : numeric s t) : Binary s t .builtinBool

/-- Members that change their object, without an argument. -/
inductive Count : OperandType → Type
  -- `++v`, `--v`
  | pre (op : CountOp) (T : IntegerType) : Count (.object T)
  -- `v++`, `v--`
  | post (op : CountOp) (T : IntegerType) : Count (.object T)

/-- Members that change their object, with an argument that is converted to its
class. -/
inductive Compound : OperandType → OperandType → Type
  -- `a += b`, …, `a ^= b`
  | ring (op : BinaryOp) (T : IntegerType) (t : OperandType) : Compound (.object T) t
  -- `a /= b`, `a %= b`
  | division (op : DivisionOp) (T : IntegerType) (t : OperandType) : Compound (.object T) t
  -- `a <<= b`, `a >>= b`
  | shift (op : ShiftOp) (T : IntegerType) (t : OperandType) : Compound (.object T) t

/-- The operators of the header. -/
def operators : Signature OperandType := ⟨Unary, Binary, Count, Compound⟩

-- ---------------------------------------------------------------------------
-- As the library computes
-- ---------------------------------------------------------------------------

/-- Objects and built-in operands; of a `Bool`, its `data_`. -/
def Representation : OperandType → Type
  | .object T     => Integer T
  | .builtin T    => CInt T.underlying
  | .bool         => Bool
  | .builtinBool  => Bool

/-- An argument of a free operator: a `bool` is an `int` that is 0 or 1. -/
def operand : (s : OperandType) → Representation s → Operand s.lifted
  | .object _,    x => .family x
  | .builtin _,   v => .builtin v
  | .bool,        b => .builtin (CInt.ofInt .int32 (Bool.toInt b))
  | .builtinBool, b => .builtin (CInt.ofInt .int32 (Bool.toInt b))

/-- `static_cast<bool>(v)` -/
def toBool (s : OperandType) (x : Representation s) : Bool := decide ((operand s x).toValue.val ≠ 0)

def Unary.onObjects : {s t : OperandType} → Unary s t → Representation s → Option (Representation t)
  | _, _, .sign op _,       x => op.apply x
  | _, _, .value _,         x => some (Integer.value x)
  | _, _, .valueBool,       b => some b
  | _, _, .construct s T,   x => some ((operand s x).toInteger T)
  | _, _, .constructBool s, x => some (toBool s x)

def Binary.onObjects : {s t w : OperandType} → Binary s t w → Representation s → Representation t →
    Option (Representation w)
  | _, _, _, .ring op s t _,     x, y => op.apply (operand s x) (operand t y)
  | _, _, _, .division op s t _, x, y => op.apply (operand s x) (operand t y)
  | _, _, _, .shift op s t _,    x, y => op.apply (operand s x) (operand t y)
  | _, _, _, .compare op s t _,  x, y => some (op.apply (operand s x) (operand t y))

/-- `return *this;`: what is returned, and the object afterwards. -/
def returnThis {α : Type*} (self : α) : α × α := (self, self)

def Count.onObjects : {s : OperandType} → Count s → Representation s →
    Option (Representation s × Representation s)
  | _, .pre op _,  x => (op.builtin x).map returnThis
  | _, .post op _, x => op.post x

def Compound.onObjects : {s t : OperandType} → Compound s t → Representation s →
    Representation t → Option (Representation s × Representation s)
  | _, _, .ring op T t,     x, y => (op.assign x ((operand t y).toInteger T)).map returnThis
  | _, _, .division op T t, x, y => (op.assign x ((operand t y).toInteger T)).map returnThis
  | _, _, .shift op T t,    x, y => (op.assign x ((operand t y).toInteger T)).map returnThis

/-- **The classes.** -/
def classes : Interpretation operators :=
  ⟨Representation, Unary.onObjects, Binary.onObjects, Count.onObjects, Compound.onObjects⟩

-- ---------------------------------------------------------------------------
-- On integers
-- ---------------------------------------------------------------------------

/-- What an operand stands for. -/
def Meaning : OperandType → Type
  | .object T     => Value T
  | .builtin T    => Value T
  | .bool         => Bool
  | .builtinBool  => Bool

/-- The integer an operand counts as. -/
def Meaning.int : {s : OperandType} → Meaning s → Int
  | .object _,    a => Value.int a
  | .builtin _,   a => Value.int a
  | .bool,        b => Bool.toInt b
  | .builtinBool, b => Bool.toInt b

def Unary.onIntegers : {s t : OperandType} → Unary s t → Meaning s → Option (Meaning t)
  | _, _, .sign op _,       a => op.onValues a
  | _, _, .value _,         a => some a
  | _, _, .valueBool,       b => some b
  | _, _, .construct _ T,   a => some (Value.fit T a.int)
  | _, _, .constructBool _, a => some (decide (a.int ≠ 0))

def Binary.onIntegers : {s t w : OperandType} → Binary s t w → Meaning s → Meaning t →
    Option (Meaning w)
  | _, _, _, .ring op _ _ _,     a, b => op.onValues (Value.fit _ a.int) (Value.fit _ b.int)
  | _, _, _, .division op _ _ _, a, b => op.onValues (Value.fit _ a.int) (Value.fit _ b.int)
  | _, _, _, .shift op _ _ _,    a, b => op.onValues (Value.fit _ a.int) b.int
  | _, _, _, .compare op s t _,  a, b =>
    let C := s.lifted.commonInteger t.lifted
    some (op.exact (Value.fit C a.int).int (Value.fit C b.int).int)

def Count.onIntegers : {s : OperandType} → Count s → Meaning s → Option (Meaning s × Meaning s)
  | _, .pre op _,  a => (op.onValues a).map returnThis
  | _, .post op _, a => (op.onValues a).map fun self => (a, self)

def Compound.onIntegers : {s t : OperandType} → Compound s t → Meaning s → Meaning t →
    Option (Meaning s × Meaning s)
  | _, _, .ring op T _,     a, b => (op.onValues a (Value.fit T b.int)).map returnThis
  | _, _, .division op T _, a, b => (op.onValues a (Value.fit T b.int)).map returnThis
  | _, _, .shift op T _,    a, b => (op.onValues a (Value.fit T b.int).int).map returnThis

/-- **Integers in the ranges of the classes.** -/
def integers : Interpretation operators :=
  ⟨Meaning, Unary.onIntegers, Binary.onIntegers, Count.onIntegers, Compound.onIntegers⟩

/-- What an object or a built-in operand stands for. -/
def denote : {s : OperandType} → Representation s → Meaning s
  | .object _,    x => Integer.denote x
  | .builtin _,   v => (⟨CInt.val v, CInt.val_inRange v⟩ : Value _)
  | .bool,        b => b
  | .builtinBool, b => b

theorem val_ofInt_toInt (b : Bool) : (CInt.ofInt .int32 (Bool.toInt b)).val = Bool.toInt b := by
  cases b <;> decide

theorem denote_operand {s : OperandType} (x : Representation s) :
    (operand s x).toValue.val = (denote x).int := by
  cases s with
  | object T => rfl
  | builtin T => rfl
  | bool => exact val_ofInt_toInt x
  | builtinBool => exact val_ofInt_toInt x

theorem denote_toInteger_operand {s : OperandType} (T : IntegerType) (x : Representation s) :
    ((operand s x).toInteger T).denote = Value.fit T (denote x).int := by
  rw [denote_toInteger, denote_operand]

theorem toBool_denote {s : OperandType} (x : Representation s) :
    toBool s x = decide ((denote x).int ≠ 0) := by
  rw [toBool, denote_operand]

theorem Unary.onObjects_denote {s t : OperandType} (f : Unary s t) (x : Representation s) :
    f.onIntegers (denote x) = (f.onObjects x).map denote := by
  cases f with
  | sign op => exact (op.apply_denote x).symm
  | value => rfl
  | valueBool => rfl
  | construct s T => exact congrArg some (denote_toInteger_operand T x).symm
  | constructBool s => exact congrArg some (toBool_denote x).symm

theorem Binary.onObjects_denote {s t w : OperandType} (f : Binary s t w) (x : Representation s)
    (y : Representation t) :
    f.onIntegers (denote x) (denote y) = (f.onObjects x y).map denote := by
  cases f with
  | ring op =>
    refine Eq.trans ?_ (op.apply_denote (operand s x) (operand t y)).symm
    rw [denote_operand, denote_operand]
    rfl
  | division op =>
    refine Eq.trans ?_ (op.apply_denote (operand s x) (operand t y)).symm
    rw [denote_operand, denote_operand]
    rfl
  | shift op =>
    refine Eq.trans ?_ (op.apply_denote (operand s x) (operand t y)).symm
    rw [denote_operand, denote_toInteger_operand]
    rfl
  | compare op =>
    refine congrArg some (Eq.trans ?_ (op.apply_exact (operand s x) (operand t y)).symm)
    rw [denote_operand, denote_operand]

theorem map_returnThis {α β : Type*} {f : α → β} {o : Option α} {o' : Option β}
    (h : o.map f = o') : o'.map returnThis = (o.map returnThis).map (Prod.map f f) := by
  subst h
  cases o <;> rfl

theorem Count.onObjects_denote {s : OperandType} (f : Count s) (x : Representation s) :
    f.onIntegers (denote x) = (f.onObjects x).map (Prod.map denote denote) := by
  cases f with
  | pre op => exact map_returnThis (op.builtin_denote x)
  | post op => exact (op.post_denote x).symm

theorem Compound.onObjects_denote {s t : OperandType} (f : Compound s t) (x : Representation s)
    (y : Representation t) :
    f.onIntegers (denote x) (denote y) = (f.onObjects x y).map (Prod.map denote denote) := by
  cases f with
  | ring op T =>
    refine map_returnThis ((op.assign_denote x ((operand t y).toInteger T)).trans ?_)
    rw [denote_toInteger_operand]
    rfl
  | division op T =>
    refine map_returnThis ((op.assign_denote x ((operand t y).toInteger T)).trans ?_)
    rw [denote_toInteger_operand]
    rfl
  | shift op T =>
    refine map_returnThis ((op.assign_denote x ((operand t y).toInteger T)).trans ?_)
    rw [denote_toInteger_operand]
    rfl

/-- **Operator by operator** the classes compute on integers. -/
def denoteHom : Hom classes integers :=
  ⟨denote, Unary.onObjects_denote, Binary.onObjects_denote, Count.onObjects_denote,
    Compound.onObjects_denote⟩

variable {ι : Type*} [DecidableEq ι] {sort : ι → OperandType}

/-- **Programs compute on integers.** A program over the classes is defined
exactly if it is defined on integers, where every operator computes exactly and
reduces its result into the class, and leaves every variable with the value it
has there. -/
theorem programs_compute_on_integers (env : classes.Env sort)
    (program : List (Statement operators sort)) :
    integers.exec (fun i => denote (env i)) program =
      (classes.exec env program).map fun out i => denote (out i) :=
  denoteHom.exec env program

-- ---------------------------------------------------------------------------
-- As long as everything fits
-- ---------------------------------------------------------------------------

/-- An integer that is in the range of the class. -/
def fits (T : IntegerType) (z : Int) : Option Int :=
  if T.underlying.InRange z then some z else none

theorem fits_eq_some {T : IntegerType} {z w : Int} :
    fits T z = some w ↔ T.underlying.InRange z ∧ z = w := by
  unfold fits
  by_cases h : T.underlying.InRange z
  · rw [if_pos h, Option.some.injEq, and_iff_right h]
  · rw [if_neg h]
    exact iff_of_false (Option.some_ne_none _).symm fun hboth => h hboth.1

def Unary.unbounded : {s t : OperandType} → Unary s t → Int → Option Int
  | _, _, .sign op T,       z => fits T (op.exact z)
  | _, _, .value _,         z => some z
  | _, _, .valueBool,       z => some z
  | _, _, .construct _ T,   z => fits T z
  | _, _, .constructBool _, z => some (Bool.toInt (decide (z ≠ 0)))

/-- Both operands and the result in one class. -/
def BinaryOp.unbounded (op : BinaryOp) (T : IntegerType) (a b : Int) : Option Int :=
  if T.underlying.InRange a ∧ T.underlying.InRange b then fits T (op.exact a b) else none

/-- Both operands and the quotient in one class, the divisor not zero. -/
def DivisionOp.unbounded (op : DivisionOp) (T : IntegerType) (a b : Int) : Option Int :=
  if T.underlying.InRange a ∧ T.underlying.InRange b ∧ b ≠ 0 ∧ T.underlying.InRange (a.tdiv b) then
    some (op.exact a b)
  else none

/-- A count within the width, the left operand and the result in the class. -/
def ShiftOp.unbounded (op : ShiftOp) (T : IntegerType) (a n : Int) : Option Int :=
  if T.underlying.InRange a ∧ 0 ≤ n ∧ n < T.width then fits T (op.exact a n) else none

/-- Both operands in one class. -/
def CompareOp.unbounded (op : CompareOp) (T : IntegerType) (a b : Int) : Option Int :=
  if T.underlying.InRange a ∧ T.underlying.InRange b then some (Bool.toInt (op.exact a b)) else none

def Binary.unbounded : {s t w : OperandType} → Binary s t w → Int → Int → Option Int
  | _, _, _, .ring op s t _,     a, b => op.unbounded (s.lifted.commonInteger t.lifted) a b
  | _, _, _, .division op s t _, a, b => op.unbounded (s.lifted.commonInteger t.lifted) a b
  | _, _, _, .shift op s _ _,    a, b => op.unbounded s.lifted a b
  | _, _, _, .compare op s t _,  a, b => op.unbounded (s.lifted.commonInteger t.lifted) a b

def Count.unbounded : {s : OperandType} → Count s → Int → Option (Int × Int)
  | _, .pre op T,  z => (fits T (z + op.amount)).map returnThis
  | _, .post op T, z => (fits T (z + op.amount)).map fun self => (z, self)

def Compound.unbounded : {s t : OperandType} → Compound s t → Int → Int → Option (Int × Int)
  | _, _, .ring op T _,     a, b => (op.unbounded T a b).map returnThis
  | _, _, .division op T _, a, b => (op.unbounded T a b).map returnThis
  | _, _, .shift op T _,    a, b => (op.unbounded T a b).map returnThis

/-- **Integers, as long as everything fits**: no operator wraps, truncates or
changes the sign of anything. -/
def unbounded : Interpretation operators :=
  ⟨fun _ => Int, Unary.unbounded, Binary.unbounded, Count.unbounded, Compound.unbounded⟩

variable {T : IntegerType}

/-- An object of the class keeps what it is assigned. -/
theorem Meaning.fit_int (a : Meaning (.object T)) : Value.fit T (Meaning.int a) = a :=
  Value.ext (Value.fit_of_inRange (Value.inRange a))

theorem UnaryOp.onValues_of_fits {op : UnaryOp} {a : Value T} {z : Int}
    (h : T.underlying.InRange (op.exact a.int)) (hz : op.exact a.int = z) :
    ∃ y, op.onValues a = some y ∧ y.int = z := by
  subst hz
  cases op with
  | neg => exact Value.result_of_inRange h
  | plus => exact ⟨a, rfl, rfl⟩
  | not => exact ⟨_, rfl, Value.fit_of_inRange h⟩

theorem BinaryOp.onValues_of_fits {op : BinaryOp} {a b : Value T}
    (h : T.underlying.InRange (op.exact a.int b.int)) :
    ∃ y, op.onValues a b = some y ∧ y.int = op.exact a.int b.int := by
  cases op with
  | add | sub | mul => exact Value.result_of_inRange h
  | and | or | xor => exact ⟨_, rfl, Value.fit_of_inRange h⟩

theorem BinaryOp.onValues_of_unbounded {op : BinaryOp} {a b z : Int}
    (h : op.unbounded T a b = some z) :
    ∃ y, op.onValues (Value.fit T a) (Value.fit T b) = some y ∧ y.int = z := by
  unfold BinaryOp.unbounded at h
  split at h
  · rename_i hrange
    obtain ⟨hr, rfl⟩ := fits_eq_some.mp h
    have ha := Value.fit_of_inRange hrange.1
    have hb := Value.fit_of_inRange hrange.2
    rw [← ha, ← hb] at hr
    obtain ⟨y, hy, hint⟩ := BinaryOp.onValues_of_fits hr
    rw [ha, hb] at hint
    exact ⟨y, hy, hint⟩
  · cases h

theorem DivisionOp.onValues_of_unbounded {op : DivisionOp} {a b z : Int}
    (h : op.unbounded T a b = some z) :
    ∃ y, op.onValues (Value.fit T a) (Value.fit T b) = some y ∧ y.int = z := by
  unfold DivisionOp.unbounded at h
  split at h
  · rename_i hrange
    obtain ⟨ha, hb, hzero, hquot⟩ := hrange
    obtain rfl := Option.some.inj h
    have hover : ¬ T.underlying.promote.QuotientOverflow a b :=
      (CTy.inRange_tdiv_iff ha.promote hb.promote hzero).mp hquot.promote
    have hresult : T.underlying.InRange (op.exact a b) := by
      cases op with
      | div => exact hquot
      | mod => exact CTy.inRange_tmod ha b
    rw [DivisionOp.onValues, Value.fit_of_inRange ha, Value.fit_of_inRange hb,
      if_neg (not_or.mpr ⟨hzero, hover⟩)]
    exact ⟨_, rfl, Value.fit_of_inRange hresult⟩
  · cases h

theorem ShiftOp.onValues_of_unbounded {op : ShiftOp} {a n z : Int}
    (h : op.unbounded T a n = some z) :
    ∃ y, op.onValues (Value.fit T a) n = some y ∧ y.int = z := by
  unfold ShiftOp.unbounded at h
  split at h
  · rename_i hcount
    obtain ⟨ha, hlo, hhi⟩ := hcount
    obtain ⟨hr, rfl⟩ := fits_eq_some.mp h
    have hwidth : (T.width : Int) ≤ T.underlying.promote.width := by
      rw [← T.width_underlying]
      exact_mod_cast T.underlying.width_le_promote
    rw [ShiftOp.onValues, if_pos ⟨hlo, hhi.trans_le hwidth⟩, Value.fit_of_inRange ha]
    exact ⟨_, rfl, Value.fit_of_inRange hr⟩
  · cases h

theorem CompareOp.exact_of_unbounded {op : CompareOp} {a b z : Int}
    (h : op.unbounded T a b = some z) :
    Bool.toInt (op.exact (Value.fit T a).int (Value.fit T b).int) = z := by
  unfold CompareOp.unbounded at h
  split at h
  · rename_i hrange
    rw [Value.fit_of_inRange hrange.1, Value.fit_of_inRange hrange.2]
    exact Option.some.inj h
  · cases h

theorem CountOp.onValues_of_unbounded {op : CountOp} {a : Value T} {z w : Int} (ha : a.int = z)
    (h : fits T (z + op.amount) = some w) : ∃ y, op.onValues a = some y ∧ y.int = w := by
  subst ha
  obtain ⟨hr, rfl⟩ := fits_eq_some.mp h
  exact Value.result_of_inRange hr

theorem ShiftOp.count_inRange {op : ShiftOp} {a n z : Int} (h : op.unbounded T a n = some z) :
    T.underlying.InRange n := by
  unfold ShiftOp.unbounded at h
  split at h
  · rename_i hcount
    exact inRange_of_lt_width hcount.2.1 hcount.2.2
  · cases h

theorem Unary.onIntegers_of_unbounded {s t : OperandType} (f : Unary s t) {a : Meaning s} {w : Int}
    (h : f.unbounded a.int = some w) : ∃ y, f.onIntegers a = some y ∧ y.int = w := by
  cases f with
  | sign op =>
    obtain ⟨hr, hz⟩ := fits_eq_some.mp h
    exact UnaryOp.onValues_of_fits hr hz
  | value => exact ⟨a, rfl, Option.some.inj h⟩
  | valueBool => exact ⟨a, rfl, Option.some.inj h⟩
  | construct s T =>
    obtain ⟨hr, rfl⟩ := fits_eq_some.mp h
    exact ⟨_, rfl, Value.fit_of_inRange hr⟩
  | constructBool s => exact ⟨_, rfl, Option.some.inj h⟩

theorem Binary.onIntegers_of_unbounded {s t w : OperandType} (f : Binary s t w) {a : Meaning s}
    {b : Meaning t} {z : Int} (h : f.unbounded a.int b.int = some z) :
    ∃ y, f.onIntegers a b = some y ∧ y.int = z := by
  cases f with
  | ring op => exact BinaryOp.onValues_of_unbounded h
  | division op => exact DivisionOp.onValues_of_unbounded h
  | shift op => exact ShiftOp.onValues_of_unbounded h
  | compare op => exact ⟨_, rfl, CompareOp.exact_of_unbounded h⟩

/-- A member returns its object where its exact result fits. -/
theorem returnThis_of_unbounded {o : Option (Value T)} {p : Option Int} {w : Int × Int}
    (h : p.map returnThis = some w) (ho : ∀ z, p = some z → ∃ y, o = some y ∧ y.int = z) :
    ∃ y, o.map returnThis = some y ∧ y.1.int = w.1 ∧ y.2.int = w.2 := by
  obtain ⟨z, hz, rfl⟩ := Option.map_eq_some_iff.mp h
  obtain ⟨y, rfl, hint⟩ := ho z hz
  exact ⟨returnThis y, rfl, hint, hint⟩

theorem Count.onIntegers_of_unbounded {s : OperandType} (f : Count s) {a : Meaning s} {w : Int × Int}
    (h : f.unbounded a.int = some w) :
    ∃ y, f.onIntegers a = some y ∧ y.1.int = w.1 ∧ y.2.int = w.2 := by
  cases f with
  | pre op =>
    exact returnThis_of_unbounded h fun z hz => CountOp.onValues_of_unbounded rfl hz
  | post op =>
    obtain ⟨z, hz, rfl⟩ := Option.map_eq_some_iff.mp h
    obtain ⟨y, hy, hint⟩ := CountOp.onValues_of_unbounded rfl hz
    exact ⟨(a, y), congrArg (Option.map fun self => (a, self)) hy, rfl, hint⟩

theorem Compound.onIntegers_of_unbounded {s t : OperandType} (f : Compound s t) {a : Meaning s}
    {b : Meaning t} {w : Int × Int} (h : f.unbounded a.int b.int = some w) :
    ∃ y, f.onIntegers a b = some y ∧ y.1.int = w.1 ∧ y.2.int = w.2 := by
  cases f with
  | ring op T =>
    refine returnThis_of_unbounded h fun z hz => ?_
    obtain ⟨y, hy, hint⟩ := BinaryOp.onValues_of_unbounded hz
    rw [Meaning.fit_int] at hy
    exact ⟨y, hy, hint⟩
  | division op T =>
    refine returnThis_of_unbounded h fun z hz => ?_
    obtain ⟨y, hy, hint⟩ := DivisionOp.onValues_of_unbounded hz
    rw [Meaning.fit_int] at hy
    exact ⟨y, hy, hint⟩
  | shift op T =>
    refine returnThis_of_unbounded h fun z hz => ?_
    obtain ⟨y, hy, hint⟩ := ShiftOp.onValues_of_unbounded hz
    rw [Meaning.fit_int, ← Value.fit_of_inRange (op.count_inRange hz)] at hy
    exact ⟨y, hy, hint⟩

/-- **Operator by operator** the classes compute what fits. -/
theorem unbounded_integers : Simulation unbounded integers fun z a => Meaning.int a = z where
  unary := by
    rintro s t f z a w rfl hw
    exact f.onIntegers_of_unbounded hw
  binary := by
    rintro s t w f z a n b v rfl rfl hv
    exact f.onIntegers_of_unbounded hv
  modify := by
    rintro s f z a w rfl hw
    exact f.onIntegers_of_unbounded hw
  modifyBy := by
    rintro s t f z a n b v rfl rfl hv
    exact f.onIntegers_of_unbounded hv

/-- **What fits is computed.** A program that is defined on unbounded integers,
where every operand and every result is in the range of its class, is defined on
objects of the classes, and leaves every variable with the value it has there. -/
theorem programs_that_fit {env : classes.Env sort} {program : List (Statement operators sort)}
    {out : unbounded.Env sort}
    (h : unbounded.exec (fun i => (denote (env i)).int) program = some out) :
    ∃ out', classes.exec env program = some out' ∧ ∀ i, (denote (out' i)).int = out i := by
  let start : integers.Env sort := fun i => denote (env i)
  have hstart : ∀ i, (start i).int = (denote (env i)).int := fun _ => rfl
  obtain ⟨values, hvalues, hint⟩ := unbounded_integers.exec hstart h
  obtain ⟨out', hout', rfl⟩ :=
    Option.map_eq_some_iff.mp ((denoteHom.exec env program).symm.trans hvalues)
  exact ⟨out', hout', hint⟩

/-- The variables `uint16 u, v` and `int8 i`. -/
inductive Mixed where
  | u
  | v
  | i
deriving DecidableEq

def Mixed.type : Mixed → OperandType
  | u | v => .object .uint16
  | i     => .object .int8

/-- `uint16 u{300}, v; int8 i{7};` -/
def Mixed.start : classes.Env Mixed.type
  | u => (⟨CInt.ofInt .uint16 300⟩ : Integer .uint16)
  | v => (⟨CInt.ofInt .uint16 0⟩ : Integer .uint16)
  | i => (⟨CInt.ofInt .int8 7⟩ : Integer .int8)

/-- `u = u * i; v = u++; i = int8(u % i); u = (v += u); ++v;` -/
def Mixed.program : List (Statement operators Mixed.type) :=
  [.assign u (.term (.binary (.ring .mul (.object .uint16) (.object .int8) rfl) (.var u) (.var i))),
   .assign v (.modify u (.post .increment .uint16)),
   .assign i (.term (.unary (.construct (.object .uint16) .int8)
     (.binary (.division .mod (.object .uint16) (.object .int8) rfl) (.var u) (.var i)))),
   .assign u (.modifyBy v (.ring .add .uint16 (.object .uint16)) (.var u)),
   .discard (.modify v (.pre .increment .uint16))]

theorem programs_that_fit_mixed : ∃ out', classes.exec Mixed.start Mixed.program = some out' ∧
    (denote (s := .object .uint16) (out' .u)).int = 4201 ∧
    (denote (s := .object .uint16) (out' .v)).int = 4202 ∧
    (denote (s := .object .int8) (out' .i)).int = 1 := by
  have hunbounded : ∃ out, unbounded.exec
      (fun k => (denote (s := Mixed.type k) (Mixed.start k)).int) Mixed.program = some out ∧
      out .u = (4201 : Int) ∧ out .v = (4202 : Int) ∧ out .i = (1 : Int) :=
    ⟨_, rfl, rfl, rfl, rfl⟩
  obtain ⟨out, hexec, hu, hv, hi⟩ := hunbounded
  obtain ⟨out', hout', hint⟩ := programs_that_fit hexec
  exact ⟨out', hout', (hint .u).trans hu, (hint .v).trans hv, (hint .i).trans hi⟩

end Destiny.Numeric
