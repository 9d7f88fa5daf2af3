import Destiny.Numeric.Operators

/-!
# Mixed-type expressions

Expression trees over the eight classes, with the operators that are
compatible with reduction: every node picks its own common type, changes
signedness and truncates as the operator templates do.

* `UnaryOp`             — the unary operators, with their meaning on unbounded integers.
* `Expr T`              — a tree whose result is of class `T`.
* `Expr.eval`           — the program's value.
* `Expr.exact`          — the value on unbounded two's complement integers.
* `Expr.NoOverflow`     — no operator in the tree overflows on the integers that
  its operands hold; `eval_iff`, the program has a value iff this is so.
* `eval_modEq`          — `eval` and `exact` agree modulo `2 ^ w` if no leaf is narrower.

Main result: `mixed_expression_modular`.
-/

namespace Destiny.Numeric

open Foundation

-- ---------------------------------------------------------------------------
-- Unary operators
-- ---------------------------------------------------------------------------

inductive UnaryOp where
  | neg
  | plus
  | not
deriving DecidableEq, Repr

namespace UnaryOp

variable {T : IntegerType}

/-- The operator. -/
def apply : UnaryOp → Integer T → Option (Integer T)
  | neg,  v => Integer.neg v
  | plus, v => some (Integer.plus v)
  | not,  v => some (Integer.not v)

/-- The operation on unbounded integers. -/
def exact : UnaryOp → Int → Int
  | neg,  z => -z
  | plus, z => z
  | not,  z => Int.lnot z

theorem exact_modEq (op : UnaryOp) {n : Nat} {a b : Int} (h : a ≡ b [ZMOD 2 ^ n]) :
    op.exact a ≡ op.exact b [ZMOD 2 ^ n] := by
  cases op
  case neg => exact h.neg
  case plus => exact h
  case not => exact lnot_modEq h

/-- A unary operator gives the exact result up to the width of the class. -/
theorem apply_modEq (op : UnaryOp) {v x : Integer T} (h : op.apply v = some x) :
    x.value.val ≡ op.exact v.value.val [ZMOD 2 ^ T.width] := by
  have hle := T.underlying.width_le_promote
  rw [T.width_underlying] at hle
  -- the constructor truncates the promoted result
  have hconstruct : ∀ {r : CInt T.underlying.promote},
      r.val ≡ op.exact v.value.val [ZMOD 2 ^ T.underlying.promote.width] →
      (Integer.construct T r).value.val ≡ op.exact v.value.val [ZMOD 2 ^ T.width] := by
    intro r hr
    exact (Integer.construct_modEq r).trans (hr.of_dvd (pow_dvd_pow 2 hle))
  cases op
  case neg =>
    obtain ⟨r, hr, rfl⟩ := Option.map_eq_some_iff.mp h
    exact hconstruct (CInt.neg_modEq hr)
  case plus =>
    obtain rfl := Option.some.inj h
    exact hconstruct (CInt.val_cast_modEq v.value le_rfl)
  case not =>
    obtain rfl := Option.some.inj h
    exact hconstruct (CInt.not_modEq v.value)

/-- On a value of class `T`, the built-in operator overflows. -/
def Overflows (op : UnaryOp) (T : IntegerType) (a : Int) : Prop :=
  match op with
  | neg        => T.underlying.promote.signed = true ∧ ¬ T.underlying.promote.InRange (-a)
  | plus | not => False

instance (op : UnaryOp) (T : IntegerType) (a : Int) : Decidable (op.Overflows T a) :=
  match op with
  | neg        => inferInstanceAs (Decidable (_ ∧ _))
  | plus | not => inferInstanceAs (Decidable False)

theorem apply_defined_iff (op : UnaryOp) (v : Integer T) :
    (∃ x, op.apply v = some x) ↔ ¬ op.Overflows T v.value.val := by
  cases op
  case neg =>
    have hresult : (∃ x, Integer.neg v = some x) ↔ ∃ r, CInt.neg v.value = some r := by
      simp [Integer.neg, ← Option.isSome_iff_exists]
    show (∃ x, Integer.neg v = some x) ↔ ¬ (_ ∧ ¬ _)
    rw [hresult, not_and_not_right]
    simp [CInt.neg, CInt.result_eq_some]
  case plus => exact iff_of_true ⟨_, rfl⟩ id
  case not => exact iff_of_true ⟨_, rfl⟩ id

/-- A unary operator is undefined where the built-in operator overflows, elsewhere the
exact result reduced into the class. -/
theorem apply_iff (op : UnaryOp) {v x : Integer T} :
    op.apply v = some x ↔
      ¬ op.Overflows T v.value.val ∧ x.value.val = T.reduce (op.exact v.value.val) :=
  Integer.eq_some_iff_of_modEq (op.apply_defined_iff v) fun _ h => op.apply_modEq h

end UnaryOp

-- ---------------------------------------------------------------------------
-- Trees
-- ---------------------------------------------------------------------------

/-- A tree whose result is of class `T`. -/
inductive Expr : IntegerType → Type
  | leaf {T : IntegerType} (x : Integer T) : Expr T
  | binary {L R : IntegerType} (op : BinaryOp) (l : Expr L) (r : Expr R) :
      Expr (L.commonInteger R)
  | unary {T : IntegerType} (op : UnaryOp) (e : Expr T) : Expr T

namespace Expr

/-- What the program computes. -/
def eval : {T : IntegerType} → Expr T → Option (Integer T)
  | _, leaf x        => some x
  | _, binary op l r => l.eval.bind fun a => r.eval.bind fun b => op.apply (.family a) (.family b)
  | _, unary op e    => e.eval.bind op.apply

/-- The value on unbounded integers. -/
def exact : {T : IntegerType} → Expr T → Int
  | _, leaf x        => x.value.val
  | _, binary op l r => op.exact l.exact r.exact
  | _, unary op e    => op.exact e.exact

/-- The integer that a node holds: of an operator, the exact result on the
converted operands, reduced into the class of the node. -/
def value : {T : IntegerType} → Expr T → Int
  | _, leaf x      => x.value.val
  | _, binary (L := L) (R := R) op l r =>
    let C := L.commonInteger R
    C.reduce (op.exact (C.reduce l.value) (C.reduce r.value))
  | T, unary op e  => T.reduce (op.exact e.value)

/-- No operator overflows on the integers that its operands hold. -/
def NoOverflow : {T : IntegerType} → Expr T → Prop
  | _, leaf _      => True
  | _, binary (L := L) (R := R) op l r =>
    let C := L.commonInteger R
    l.NoOverflow ∧ r.NoOverflow ∧ ¬ op.Overflows C (C.reduce l.value) (C.reduce r.value)
  | T, unary op e  => e.NoOverflow ∧ ¬ op.Overflows T e.value

instance decidableNoOverflow : {T : IntegerType} → (e : Expr T) → Decidable e.NoOverflow
  | _, leaf _       => inferInstanceAs (Decidable True)
  | _, binary _ l r =>
    have := decidableNoOverflow l
    have := decidableNoOverflow r
    inferInstanceAs (Decidable (_ ∧ _ ∧ _))
  | _, unary _ e    =>
    have := decidableNoOverflow e
    inferInstanceAs (Decidable (_ ∧ _))

/-- An object can hold what a node holds. -/
theorem exists_value {S : IntegerType} (e : Expr S) : ∃ x : Integer S, x.value.val = e.value := by
  cases e with
  | leaf x => exact ⟨x, rfl⟩
  | binary op l r => exact ⟨⟨CInt.ofInt _ _⟩, IntegerType.val_ofInt_underlying _ _⟩
  | unary op e => exact ⟨⟨CInt.ofInt _ _⟩, IntegerType.val_ofInt_underlying _ _⟩

/-- **Evaluation.** A tree has a value iff no operator in it overflows, and the value
is the integer that its root holds. -/
theorem eval_iff {S : IntegerType} (e : Expr S) {x : Integer S} :
    e.eval = some x ↔ e.NoOverflow ∧ x.value.val = e.value := by
  induction e with
  | leaf y =>
    rw [eval, NoOverflow, true_and, value, Option.some.injEq]
    exact ⟨fun h => congrArg (fun z => z.value.val) h.symm, fun h => Integer.ext_val h.symm⟩
  | binary op l r ihl ihr =>
    rw [eval, NoOverflow, value]
    constructor
    · intro h
      obtain ⟨a, ha, h⟩ := Option.bind_eq_some_iff.mp h
      obtain ⟨b, hb, h⟩ := Option.bind_eq_some_iff.mp h
      obtain ⟨hl, hla⟩ := ihl.mp ha
      obtain ⟨hr, hrb⟩ := ihr.mp hb
      have hnode := op.apply_iff.mp h
      simp only [Operand.toValue, hla, hrb] at hnode
      exact ⟨⟨hl, hr, hnode.1⟩, hnode.2⟩
    · rintro ⟨⟨hl, hr, hover⟩, hval⟩
      obtain ⟨a, hla⟩ := l.exists_value
      obtain ⟨b, hrb⟩ := r.exists_value
      rw [ihl.mpr ⟨hl, hla⟩, Option.bind_some, ihr.mpr ⟨hr, hrb⟩, Option.bind_some, op.apply_iff]
      simp only [Operand.toValue, hla, hrb]
      exact ⟨hover, hval⟩
  | unary op e ih =>
    rw [eval, NoOverflow, value]
    constructor
    · intro h
      obtain ⟨a, ha, h⟩ := Option.bind_eq_some_iff.mp h
      obtain ⟨he, hea⟩ := ih.mp ha
      rw [op.apply_iff, hea] at h
      exact ⟨⟨he, h.1⟩, h.2⟩
    · rintro ⟨⟨he, hover⟩, hval⟩
      obtain ⟨a, hea⟩ := e.exists_value
      rw [ih.mpr ⟨he, hea⟩, Option.bind_some, op.apply_iff, hea]
      exact ⟨hover, hval⟩

/-- No leaf is narrower than `w`. -/
def LeavesAtLeast (w : Nat) : {T : IntegerType} → Expr T → Prop
  | T, leaf _       => w ≤ T.width
  | _, binary _ l r => l.LeavesAtLeast w ∧ r.LeavesAtLeast w
  | _, unary _ e    => e.LeavesAtLeast w

instance decidableLeavesAtLeast (w : Nat) :
    {T : IntegerType} → (e : Expr T) → Decidable (e.LeavesAtLeast w)
  | T, leaf _       => inferInstanceAs (Decidable (w ≤ T.width))
  | _, binary _ l r =>
    have := decidableLeavesAtLeast w l
    have := decidableLeavesAtLeast w r
    inferInstanceAs (Decidable (l.LeavesAtLeast w ∧ r.LeavesAtLeast w))
  | _, unary _ e    => decidableLeavesAtLeast w e

/-- No node is narrower than the leaves. -/
theorem width_le {w : Nat} {S : IntegerType} (e : Expr S) (h : e.LeavesAtLeast w) :
    w ≤ S.width := by
  induction e with
  | leaf x => exact h
  | binary op l r ihl _ => exact (ihl h.1).trans (IntegerType.width_le_commonInteger_left _ _)
  | unary op e ih => exact ih h

/-- **One tree.** Where it is defined, its value is the exact one modulo
`2 ^ w`, whatever its nodes' types. -/
theorem eval_modEq {w : Nat} {S : IntegerType} (e : Expr S) {x : Integer S}
    (hleaves : e.LeavesAtLeast w) (h : e.eval = some x) :
    x.value.val ≡ e.exact [ZMOD 2 ^ w] := by
  induction e with
  | leaf y =>
    rw [← Option.some.inj h]
    rfl
  | binary op l r ihl ihr =>
    have hwidth := (binary op l r).width_le hleaves
    rw [eval, Option.bind_eq_some_iff] at h
    obtain ⟨a, ha, h⟩ := h
    rw [Option.bind_eq_some_iff] at h
    obtain ⟨b, hb, h⟩ := h
    have hnode := (op.apply_modEq h).of_dvd (pow_dvd_pow 2 hwidth)
    exact hnode.trans (op.modular_exact (ihl hleaves.1 ha) (ihr hleaves.2 hb))
  | unary op e ih =>
    have hwidth := (unary op e).width_le hleaves
    rw [eval, Option.bind_eq_some_iff] at h
    obtain ⟨a, ha, h⟩ := h
    have hnode := (op.apply_modEq h).of_dvd (pow_dvd_pow 2 hwidth)
    exact hnode.trans (op.exact_modEq (ih hleaves ha))

end Expr

/-- **Mixed expressions are modular.** If no leaf of a tree is narrower than
`T` and no signed arithmetic in it overflows, it has a value, and this value
converted to `T` is the tree's value on unbounded integers, reduced modulo
`2 ^ width` into the range of `T`. -/
theorem mixed_expression_modular (T : IntegerType) {S : IntegerType} (e : Expr S)
    (hleaves : e.LeavesAtLeast T.width) (hover : e.NoOverflow) :
    ∃ x, e.eval = some x ∧ (Integer.convert T x).value.val = T.reduce e.exact := by
  obtain ⟨x, hx⟩ := e.exists_value
  have heval : e.eval = some x := e.eval_iff.mpr ⟨hover, hx⟩
  have hmod := e.eval_modEq hleaves heval
  have hconvert := Operand.toInteger_modEq (U := T) (.family x) le_rfl
  exact ⟨x, heval, Integer.val_eq_reduce _ (hconvert.trans hmod)⟩

/-- `~(Int8(-3) * Uint8(200)) + -Uint64(2 ^ 63 + 5)`: the product is an `Int16`,
the sum a `Uint64`. -/
def widening : Expr .uint64 :=
  .binary (L := .int16) (R := .uint64) .add
    (.unary .not
      (.binary (L := .int8) (R := .uint8) .mul (.leaf ⟨CInt.ofInt _ (-3)⟩)
        (.leaf ⟨CInt.ofInt _ 200⟩)))
    (.unary .neg (.leaf ⟨CInt.ofInt _ (2 ^ 63 + 5)⟩))

/-- Its value. -/
def widened : Integer .uint64 := ⟨CInt.ofInt _ (2 ^ 63 + 594)⟩

theorem mixed_expression_modular_widening : widening.eval = some widened ∧
    (Integer.convert .int8 widened).value.val = IntegerType.reduce .int8 widening.exact := by
  have heval : widening.eval = some widened := by decide +kernel
  obtain ⟨x, hx, hval⟩ :=
    mixed_expression_modular .int8 widening (by decide) (by decide +kernel)
  obtain rfl := Option.some.inj (heval.symm.trans hx)
  exact ⟨heval, hval⟩

end Destiny.Numeric
