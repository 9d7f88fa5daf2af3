import Mathlib.Data.Int.ModEq
import Mathlib.Data.BitVec
import Mathlib.Tactic.Linarith
import Mathlib.Tactic.Positivity

/-!
# C++ integers

Fixed-width integers with the arithmetic of C++20: operands narrower than
`int` are promoted to it, two different types meet in a common one, unsigned
results are reduced modulo `2 ^ width`, and a signed result that does not fit
is undefined. A partial operation returns `none` where it is undefined.

* `CTy`, `CInt t`      — types (signedness, width) and their values as bits.
* `CInt.val`, `ofInt`  — the integer a value denotes; reduction of an integer
  into a type. `val_ofInt`: they are inverse on the range of the type.
* `CInt.cast`          — conversions; `cast_ofInt`: truncations compose.
* `promote`, `usual`   — integral promotion, usual arithmetic conversions.
* `result`             — what an arithmetic operator gives for an exact result.
* `CInt.add` … `CInt.shr` — the operators.
-/

namespace Foundation

-- ---------------------------------------------------------------------------
-- Types and values
-- ---------------------------------------------------------------------------

/-- A standard integer type. -/
structure CTy where
  signed : Bool
  width  : Nat
  pos    : 0 < width
deriving DecidableEq

namespace CTy

def int8   : CTy := ⟨true, 8, by decide⟩
def int16  : CTy := ⟨true, 16, by decide⟩
def int32  : CTy := ⟨true, 32, by decide⟩
def int64  : CTy := ⟨true, 64, by decide⟩
def uint8  : CTy := ⟨false, 8, by decide⟩
def uint16 : CTy := ⟨false, 16, by decide⟩
def uint32 : CTy := ⟨false, 32, by decide⟩
def uint64 : CTy := ⟨false, 64, by decide⟩

/-- The least value of the type. -/
def min (t : CTy) : Int := if t.signed then -2 ^ (t.width - 1) else 0

/-- The greatest value of the type. -/
def max (t : CTy) : Int := if t.signed then 2 ^ (t.width - 1) - 1 else 2 ^ t.width - 1

/-- The value can be represented in the type. -/
def InRange (t : CTy) (z : Int) : Prop := t.min ≤ z ∧ z ≤ t.max

instance (t : CTy) (z : Int) : Decidable (t.InRange z) :=
  inferInstanceAs (Decidable (_ ∧ _))

end CTy

/-- Two integers have the same low bits iff they are congruent. -/
theorem ofInt_eq_ofInt_iff {w : Nat} {a b : Int} :
    BitVec.ofInt w a = BitVec.ofInt w b ↔ a ≡ b [ZMOD 2 ^ w] := by
  rw [← BitVec.toInt_inj, BitVec.toInt_ofInt, BitVec.toInt_ofInt, Int.ModEq]
  constructor
  · intro h
    have hmod := congrArg (fun z : Int => z % (2 ^ w : Nat)) h
    simp only [Int.bmod_emod] at hmod
    exact_mod_cast hmod
  · intro h
    rw [← Int.emod_bmod (x := a), ← Int.emod_bmod (x := b)]
    push_cast
    rw [h]

/-- The values of an integer type. -/
structure CInt (t : CTy) where
  bits : BitVec t.width
deriving DecidableEq

namespace CInt

variable {t u : CTy}

/-- The integer a value denotes. -/
def val (x : CInt t) : Int := if t.signed then x.bits.toInt else x.bits.toNat

/-- The value that is congruent to `z` modulo `2 ^ width`. -/
def ofInt (t : CTy) (z : Int) : CInt t := ⟨BitVec.ofInt t.width z⟩

theorem val_of_signed (x : CInt t) (h : t.signed = true) : x.val = x.bits.toInt := by
  rw [val, if_pos h]

theorem val_of_unsigned (x : CInt t) (h : t.signed = false) : x.val = x.bits.toNat := by
  rw [val, h]
  rfl

theorem val_nonneg (x : CInt t) (h : t.signed = false) : 0 ≤ x.val := by
  rw [val_of_unsigned x h]
  exact Int.natCast_nonneg _

theorem val_inRange (x : CInt t) : t.InRange x.val := by
  unfold CTy.InRange CTy.min CTy.max
  have htwo : (2 : Int) ^ t.width = 2 * 2 ^ (t.width - 1) := by
    rw [← pow_succ', Nat.sub_add_cancel t.pos]
  cases hs : t.signed with
  | true =>
    rw [val_of_signed x hs]
    have hlo := BitVec.two_mul_toInt_lt (x := x.bits)
    have hhi := BitVec.le_two_mul_toInt (x := x.bits)
    simp only [if_true]
    omega
  | false =>
    rw [val_of_unsigned x hs]
    have hlt := x.bits.isLt
    have hcast : ((x.bits.toNat : Nat) : Int) < 2 ^ t.width := by exact_mod_cast hlt
    simp only [Bool.false_eq_true, if_false]
    omega

theorem ofInt_val (x : CInt t) : ofInt t x.val = x := by
  cases hs : t.signed with
  | true => rw [val_of_signed x hs, ofInt, BitVec.ofInt_toInt]
  | false => rw [val_of_unsigned x hs, ofInt, BitVec.ofInt_natCast, BitVec.ofNat_toNat,
      BitVec.setWidth_eq]

theorem val_injective : Function.Injective (val : CInt t → Int) := by
  intro x y h
  rw [← ofInt_val x, h, ofInt_val]

/-- Two integers are reduced to the same value iff they are congruent. -/
theorem ofInt_eq_ofInt {a b : Int} : ofInt t a = ofInt t b ↔ a ≡ b [ZMOD 2 ^ t.width] := by
  rw [ofInt, ofInt, CInt.mk.injEq, ofInt_eq_ofInt_iff]

theorem val_ofInt_modEq (z : Int) : (ofInt t z).val ≡ z [ZMOD 2 ^ t.width] :=
  ofInt_eq_ofInt.mp (ofInt_val _)

/-- A residue has one representative in the range of the type. -/
theorem eq_of_modEq {a b : Int} (ha : t.InRange a) (hb : t.InRange b)
    (h : a ≡ b [ZMOD 2 ^ t.width]) : a = b := by
  have hwidth : t.max - t.min = 2 ^ t.width - 1 := by
    unfold CTy.max CTy.min
    have htwo : (2 : Int) ^ t.width = 2 * 2 ^ (t.width - 1) := by
      rw [← pow_succ', Nat.sub_add_cancel t.pos]
    cases t.signed
    · simp
    · simp only [if_true]
      omega
  unfold CTy.InRange at ha hb
  have hdvd : (2 : Int) ^ t.width ∣ a - b := (Int.modEq_iff_dvd.mp h.symm)
  have habs : |a - b| < 2 ^ t.width := by
    rw [abs_lt]
    omega
  have hzero := Int.eq_zero_of_abs_lt_dvd hdvd habs
  omega

/-- An integer in the range of the type is not changed by reduction. -/
theorem val_ofInt {z : Int} (h : t.InRange z) : (ofInt t z).val = z :=
  eq_of_modEq (val_inRange _) h (val_ofInt_modEq z)

/-- The value of an unsigned reduction is the remainder. -/
theorem val_ofInt_of_unsigned (h : t.signed = false) (z : Int) :
    (ofInt t z).val = z % 2 ^ t.width := by
  have hpos : (0 : Int) < 2 ^ t.width := by positivity
  have hrange : t.InRange (z % 2 ^ t.width) := by
    unfold CTy.InRange CTy.min CTy.max
    rw [h]
    have hlo := Int.emod_nonneg z hpos.ne'
    have hhi := Int.emod_lt_of_pos z hpos
    simp only [Bool.false_eq_true, if_false]
    omega
  have hmod : z ≡ z % 2 ^ t.width [ZMOD 2 ^ t.width] := (Int.mod_modEq z _).symm
  rw [ofInt_eq_ofInt.mpr hmod, val_ofInt hrange]

-- ---------------------------------------------------------------------------
-- Conversions
-- ---------------------------------------------------------------------------

/-- Conversion to another integer type. -/
def cast (x : CInt t) (u : CTy) : CInt u := ofInt u x.val

/-- A conversion to a type that can represent the value keeps it. -/
theorem val_cast {x : CInt t} (h : u.InRange x.val) : (x.cast u).val = x.val := val_ofInt h

@[simp] theorem cast_self (x : CInt t) : x.cast t = x := ofInt_val x

/-- Truncating a reduced integer is reducing it at once. -/
theorem cast_ofInt (h : u.width ≤ t.width) (z : Int) : (ofInt t z).cast u = ofInt u z :=
  ofInt_eq_ofInt.mpr ((val_ofInt_modEq z).of_dvd (pow_dvd_pow 2 h))

/-- Going through a type that is no narrower than the last one changes nothing. -/
theorem cast_cast {v : CTy} (h : v.width ≤ u.width) (x : CInt t) : (x.cast u).cast v = x.cast v :=
  cast_ofInt h x.val

end CInt

-- ---------------------------------------------------------------------------
-- Promotion and common types
-- ---------------------------------------------------------------------------

namespace CTy

/-- Integral promotion: what is narrower than `int` becomes `int`. -/
def promote (t : CTy) : CTy := if t.width < 32 then int32 else t

/-- The usual arithmetic conversions: after promotion, the wider type; of two
types of one width, the unsigned one. -/
def usual (t u : CTy) : CTy :=
  let p := t.promote
  let q := u.promote
  if p.width = q.width then (if p.signed then q else p)
  else if q.width < p.width then p else q

theorem width_le_promote (t : CTy) : t.width ≤ t.promote.width := by
  unfold promote
  split
  · simp only [int32]
    omega
  · exact le_rfl

theorem thirtytwo_le_promote (t : CTy) : 32 ≤ t.promote.width := by
  unfold promote
  split
  · exact le_rfl
  · omega

@[simp] theorem usual_self (t : CTy) : usual t t = t.promote := by
  unfold usual
  simp

@[simp] theorem promote_promote (t : CTy) : t.promote.promote = t.promote := by
  have ht := thirtytwo_le_promote t
  rw [promote.eq_def t.promote, if_neg (by omega)]

theorem width_usual (t u : CTy) :
    (usual t u).width = Max.max t.promote.width u.promote.width := by
  unfold usual
  dsimp only
  split
  · split <;> omega
  · split <;> omega

theorem width_le_usual_left (t u : CTy) : t.width ≤ (usual t u).width := by
  have ht := width_le_promote t
  rw [width_usual]
  omega

theorem width_le_usual_right (t u : CTy) : u.width ≤ (usual t u).width := by
  have hu := width_le_promote u
  rw [width_usual]
  omega

/-- The types from `int` on can represent the small non-negative numbers. -/
theorem inRange_of_small {t : CTy} {z : Int} (h : 32 ≤ t.width) (hz : 0 ≤ z ∧ z < 2 ^ 31) :
    t.InRange z := by
  have hpow : (2 : Int) ^ 31 ≤ 2 ^ (t.width - 1) := by
    apply pow_le_pow_right₀ (by norm_num)
    omega
  have hhalf : (2 : Int) ^ (t.width - 1) ≤ 2 ^ t.width := by
    apply pow_le_pow_right₀ (by norm_num)
    omega
  unfold InRange min max
  cases t.signed
  · simp only [Bool.false_eq_true, if_false]
    omega
  · simp only [if_true]
    omega

/-- Promotion can represent every value. -/
theorem InRange.promote {t : CTy} {z : Int} (h : t.InRange z) : t.promote.InRange z := by
  unfold CTy.promote
  split
  · rename_i hlt
    have hpow : (2 : Int) ^ t.width ≤ 2 ^ 31 := by
      apply pow_le_pow_right₀ (by norm_num)
      omega
    have hhalf : (2 : Int) ^ (t.width - 1) ≤ 2 ^ 31 := by
      apply pow_le_pow_right₀ (by norm_num)
      omega
    unfold InRange min max at h ⊢
    simp only [int32, if_true]
    cases hs : t.signed <;> simp only [hs, Bool.false_eq_true, if_false, if_true] at h <;> omega
  · exact h

end CTy

namespace CInt

variable {t u : CTy}

@[simp] theorem val_cast_promote (x : CInt t) : (x.cast t.promote).val = x.val :=
  val_cast (val_inRange x).promote

-- ---------------------------------------------------------------------------
-- Operators
-- ---------------------------------------------------------------------------

/-- What an operator whose exact result is `z` gives in type `t`: undefined if
the type is signed and cannot represent it. -/
def result (t : CTy) (z : Int) : Option (CInt t) :=
  if t.signed = true ∧ ¬ t.InRange z then none else some (ofInt t z)

theorem result_eq_some {z : Int} {r : CInt t} :
    result t z = some r ↔ (t.signed = true → t.InRange z) ∧ ofInt t z = r := by
  unfold result
  by_cases h : t.signed = true ∧ ¬ t.InRange z
  · rw [if_pos h]
    simp [h.1, h.2]
  · rw [if_neg h, Option.some.injEq]
    tauto

theorem result_of_inRange {z : Int} (h : t.InRange z) : result t z = some (ofInt t z) :=
  result_eq_some.mpr ⟨fun _ => h, rfl⟩

theorem result_of_unsigned (h : t.signed = false) (z : Int) : result t z = some (ofInt t z) :=
  result_eq_some.mpr ⟨by simp [h], rfl⟩

/-- A binary operator with the exact result `f`, in the common type. -/
def arith (f : Int → Int → Int) (x : CInt t) (y : CInt u) : Option (CInt (CTy.usual t u)) :=
  result _ (f (x.cast (CTy.usual t u)).val (y.cast (CTy.usual t u)).val)

/-- `x + y` -/
def add (x : CInt t) (y : CInt u) : Option (CInt (CTy.usual t u)) := arith (· + ·) x y

/-- `x - y` -/
def sub (x : CInt t) (y : CInt u) : Option (CInt (CTy.usual t u)) := arith (· - ·) x y

/-- `x * y` -/
def mul (x : CInt t) (y : CInt u) : Option (CInt (CTy.usual t u)) := arith (· * ·) x y

/-- `x / y`: truncated; undefined for a zero divisor. -/
def div (x : CInt t) (y : CInt u) : Option (CInt (CTy.usual t u)) :=
  let a := (x.cast (CTy.usual t u)).val
  let b := (y.cast (CTy.usual t u)).val
  if b = 0 then none else result _ (a.tdiv b)

/-- `x % y`: undefined wherever `x / y` is. -/
def mod (x : CInt t) (y : CInt u) : Option (CInt (CTy.usual t u)) :=
  let a := (x.cast (CTy.usual t u)).val
  let b := (y.cast (CTy.usual t u)).val
  (div x y).map fun _ => ofInt _ (a.tmod b)

/-- `-x` -/
def neg (x : CInt t) : Option (CInt t.promote) := result _ (-(x.cast t.promote).val)

/-- `+x` -/
def plus (x : CInt t) : CInt t.promote := x.cast t.promote

/-- `~x` -/
def not (x : CInt t) : CInt t.promote := ⟨~~~(x.cast t.promote).bits⟩

/-- `x & y` -/
def and (x : CInt t) (y : CInt u) : CInt (CTy.usual t u) :=
  ⟨(x.cast (CTy.usual t u)).bits &&& (y.cast (CTy.usual t u)).bits⟩

/-- `x | y` -/
def or (x : CInt t) (y : CInt u) : CInt (CTy.usual t u) :=
  ⟨(x.cast (CTy.usual t u)).bits ||| (y.cast (CTy.usual t u)).bits⟩

/-- `x ^ y` -/
def xor (x : CInt t) (y : CInt u) : CInt (CTy.usual t u) :=
  ⟨(x.cast (CTy.usual t u)).bits ^^^ (y.cast (CTy.usual t u)).bits⟩

/-- `x << n`: undefined unless `0 ≤ n < width`. -/
def shl (x : CInt t) (n : CInt u) : Option (CInt t.promote) :=
  if 0 ≤ n.val ∧ n.val < t.promote.width then
    some ⟨(x.cast t.promote).bits <<< n.val.toNat⟩
  else none

/-- `x >> n`: undefined unless `0 ≤ n < width`. -/
def shr (x : CInt t) (n : CInt u) : Option (CInt t.promote) :=
  if 0 ≤ n.val ∧ n.val < t.promote.width then
    some ⟨if t.promote.signed then (x.cast t.promote).bits.sshiftRight n.val.toNat
      else (x.cast t.promote).bits >>> n.val.toNat⟩
  else none

-- ---------------------------------------------------------------------------
-- Results of the arithmetic operators
-- ---------------------------------------------------------------------------

theorem val_cast_modEq {v : CTy} (x : CInt t) (h : u.width ≤ v.width) :
    (x.cast v).val ≡ x.val [ZMOD 2 ^ u.width] :=
  (val_ofInt_modEq x.val).of_dvd (pow_dvd_pow 2 h)

/-- A value that is congruent to an integer in the range of `u` becomes that
integer when it is converted to `u`. -/
theorem val_cast_of_modEq {x : CInt t} {z : Int} (h : x.val ≡ z [ZMOD 2 ^ u.width])
    (hz : u.InRange z) : (x.cast u).val = z := by
  rw [cast, ofInt_eq_ofInt.mpr h, val_ofInt hz]

/-- Where it is defined, an operator that respects congruences gives the exact
result up to congruence. -/
theorem arith_modEq {f : Int → Int → Int} {x : CInt t} {y : CInt u}
    (hf : ∀ {n a b c d : Int}, a ≡ b [ZMOD n] → c ≡ d [ZMOD n] → f a c ≡ f b d [ZMOD n])
    {r : CInt (CTy.usual t u)} (h : arith f x y = some r) :
    r.val ≡ f x.val y.val [ZMOD 2 ^ (CTy.usual t u).width] := by
  obtain ⟨-, rfl⟩ := result_eq_some.mp h
  exact (val_ofInt_modEq _).trans (hf (val_cast_modEq x le_rfl) (val_cast_modEq y le_rfl))

theorem add_modEq {x : CInt t} {y : CInt u} {r : CInt (CTy.usual t u)} (h : add x y = some r) :
    r.val ≡ x.val + y.val [ZMOD 2 ^ (CTy.usual t u).width] :=
  arith_modEq (fun h h' => h.add h') h

theorem sub_modEq {x : CInt t} {y : CInt u} {r : CInt (CTy.usual t u)} (h : sub x y = some r) :
    r.val ≡ x.val - y.val [ZMOD 2 ^ (CTy.usual t u).width] :=
  arith_modEq (fun h h' => h.sub h') h

theorem mul_modEq {x : CInt t} {y : CInt u} {r : CInt (CTy.usual t u)} (h : mul x y = some r) :
    r.val ≡ x.val * y.val [ZMOD 2 ^ (CTy.usual t u).width] :=
  arith_modEq (fun h h' => h.mul h') h

/-- In an unsigned common type an operator is always defined. -/
theorem arith_of_unsigned (f : Int → Int → Int) (x : CInt t) (y : CInt u)
    (h : (CTy.usual t u).signed = false) : ∃ r, arith f x y = some r :=
  ⟨_, result_of_unsigned h _⟩

@[simp] theorem val_cast_usual_self (x : CInt t) : (x.cast (CTy.usual t t)).val = x.val := by
  rw [CTy.usual_self, val_cast_promote]

/-- An operator on two operands of one type is defined iff the promoted type
can represent the exact result or is unsigned. -/
theorem arith_self_iff {f : Int → Int → Int} {x y : CInt t} :
    (∃ r, arith f x y = some r) ↔
      (t.promote.signed = true → t.promote.InRange (f x.val y.val)) := by
  unfold arith
  rw [val_cast_usual_self, val_cast_usual_self, ← CTy.usual_self]
  constructor
  · rintro ⟨r, h⟩
    exact (result_eq_some.mp h).1
  · intro h
    exact ⟨_, result_eq_some.mpr ⟨h, rfl⟩⟩

/-- If the common type can represent the operands and the exact result, that
result is what the operator gives. -/
theorem arith_exact {f : Int → Int → Int} {x : CInt t} {y : CInt u}
    (hx : (CTy.usual t u).InRange x.val) (hy : (CTy.usual t u).InRange y.val)
    (hz : (CTy.usual t u).InRange (f x.val y.val)) :
    ∃ r, arith f x y = some r ∧ r.val = f x.val y.val := by
  refine ⟨_, ?_, val_ofInt hz⟩
  unfold arith
  rw [val_cast hx, val_cast hy, result_of_inRange hz]

theorem div_exact {x : CInt t} {y : CInt u} (hx : (CTy.usual t u).InRange x.val)
    (hy : (CTy.usual t u).InRange y.val) (hzero : y.val ≠ 0)
    (hz : (CTy.usual t u).InRange (x.val.tdiv y.val)) :
    ∃ r, div x y = some r ∧ r.val = x.val.tdiv y.val := by
  refine ⟨_, ?_, val_ofInt hz⟩
  unfold div
  rw [val_cast hx, val_cast hy]
  simp only [hzero, if_false]
  exact result_of_inRange hz

end CInt

end Foundation
