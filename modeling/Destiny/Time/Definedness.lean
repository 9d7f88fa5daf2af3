import Destiny.Time.Expression

/-!
# Time points and durations — where expressions are defined

No bounds on the operands this time. Points wrap around, in their own unit;
durations and conversions to seconds overflow, and then the expression has no
value at all.

* `held`                    — what a point or a duration keeps of a number of
  seconds.
* `Expr.Safe`               — no overload of the expression overflows, read off
  the signed sums of its subexpressions.
* `expressions_defined_iff` — exactly the safe expressions are defined.
* `defined_expressions`     — what is defined is the signed sum, up to the
  wrapping of the last point; order and grouping never change a value.
-/

namespace Destiny.Time

open Foundation

variable {T U : AutoConvertDurationType}

-- ---------------------------------------------------------------------------
-- What an object keeps
-- ---------------------------------------------------------------------------

/-- What a point or a duration in the unit `T` keeps of `z` seconds: a point
wraps around modulo `2 ^ 64` of its units. -/
def held : Kind → AutoConvertDurationType → Int → Int
  | .point,    T, z => (CInt.ofInt .int64 (z / scaleNat T)).val * scaleNat T
  | .duration, _, z => z

theorem scaleNat_ne_zero (T : AutoConvertDurationType) : (scaleNat T : Int) ≠ 0 := by
  exact_mod_cast (scaleNat_pos T).ne'

theorem held_mul (z : Int) : held .point T (z * scaleNat T) = (CInt.ofInt .int64 z).val * scaleNat T := by
  rw [held, Int.mul_ediv_cancel z (scaleNat_ne_zero T)]

/-- What fits in the unit is kept. -/
theorem held_of_inRange {k : Kind} {z : Int} (hdvd : (scaleNat T : Int) ∣ z)
    (h : CTy.int64.InRange (z / scaleNat T)) : held k T z = z := by
  cases k with
  | point => rw [held, CInt.val_ofInt h, Int.ediv_mul_cancel hdvd]
  | duration => rfl

/-- What fits in seconds fits in the unit. -/
theorem held_of_seconds {k : Kind} {z : Int} (hdvd : (scaleNat T : Int) ∣ z)
    (h : CTy.int64.InRange z) : held k T z = z := by
  apply held_of_inRange hdvd
  apply inRange_of_seconds (T := T)
  rwa [Int.ediv_mul_cancel hdvd]

theorem held_modEq {k : Kind} {z : Int} (hdvd : (scaleNat T : Int) ∣ z) :
    held k T z ≡ z [ZMOD 2 ^ 64 * scaleNat T] := by
  cases k with
  | point =>
    obtain ⟨y, rfl⟩ := hdvd
    rw [mul_comm (scaleNat T : Int) y, held_mul]
    exact (CInt.val_ofInt_modEq (t := .int64) y).mul_right'
  | duration => exact Int.ModEq.refl _

theorem held_congr {x y : Int} (hx : (scaleNat T : Int) ∣ x) (hy : (scaleNat T : Int) ∣ y)
    (h : x ≡ y [ZMOD 2 ^ 64 * scaleNat T]) : held .point T x = held .point T y := by
  obtain ⟨a, rfl⟩ := hx
  obtain ⟨b, rfl⟩ := hy
  have hunits : a ≡ b [ZMOD 2 ^ 64] := by
    rw [mul_comm ((2 : Int) ^ 64)] at h
    exact Int.ModEq.mul_left_cancel' (scaleNat_ne_zero T) h
  rw [mul_comm _ a, mul_comm _ b, held_mul, held_mul, CInt.ofInt_eq_ofInt.mpr hunits]

theorem dvd_held {k : Kind} {z : Int} (hdvd : (scaleNat T : Int) ∣ z) :
    (scaleNat T : Int) ∣ held k T z := by
  cases k with
  | point => exact Int.dvd_mul_left _ _
  | duration => exact hdvd

theorem dvd_exact_resType (o : Op) {x y : Int} (hx : (scaleNat T : Int) ∣ x)
    (hy : (scaleNat U : Int) ∣ y) : (scaleNat (ResType T U) : Int) ∣ o.exact x y :=
  o.exact_dvd ((scale_dvd_left T U).trans hx) ((scale_dvd_right T U).trans hy)

/-- Wrapping the operands first changes nothing. -/
theorem held_op (o : Op) {k l m : Kind} (hkind : k.op l = some m) {x y : Int}
    (hx : (scaleNat T : Int) ∣ x) (hy : (scaleNat U : Int) ∣ y) :
    held m (ResType T U) (o.exact (held k T x) (held l U y)) =
      held m (ResType T U) (o.exact x y) := by
  cases m with
  | point =>
    apply held_congr
    · exact dvd_exact_resType o (dvd_held hx) (dvd_held hy)
    · exact dvd_exact_resType o hx hy
    · apply o.exact_modEq
      · exact (held_modEq hx).of_dvd (mul_dvd_mul_left _ (scale_dvd_left T U))
      · exact (held_modEq hy).of_dvd (mul_dvd_mul_left _ (scale_dvd_right T U))
  | duration =>
    -- the operands are durations, which keep everything
    cases k <;> cases l <;> first | rfl | cases hkind

-- ---------------------------------------------------------------------------
-- One operator
-- ---------------------------------------------------------------------------

/-- The overload for the units `T` and `U`, with a result of kind `k`, does not
overflow on operands of `x` and `y` seconds. -/
def OpSafe (o : Op) (k : Kind) (T U : AutoConvertDurationType) (x y : Int) : Prop :=
  if T = U then k = .duration → CTy.int64.InRange (o.exact x y / scaleNat T)
  else CTy.int64.InRange x ∧ CTy.int64.InRange y ∧ CTy.int64.InRange (o.exact x y)

instance (o : Op) (k : Kind) (T U : AutoConvertDurationType) (x y : Int) :
    Decidable (OpSafe o k T U x y) := by
  unfold OpSafe
  infer_instance

/-- Signed arithmetic is defined where it is exact. -/
theorem arith_eq_some {f : Int → Int → Int} {x y r : CInt .int64} (h : CInt.arith f x y = some r) :
    CTy.int64.InRange (f x.val y.val) ∧ r.val = f x.val y.val := by
  have hrange : CTy.int64.InRange (f x.val y.val) := CInt.arith_self_iff.mp ⟨r, h⟩ rfl
  obtain ⟨r', hr', hval⟩ := CInt.arith_exact (x := x) (y := y) x.val_inRange y.val_inRange hrange
  rw [Option.some.inj (h.symm.trans hr')]
  exact ⟨hrange, hval⟩

theorem Point.scaled_defined {a : Point T} {r : CInt .int64} (h : a.scaled = some r) :
    CTy.int64.InRange a.seconds ∧ r.val = a.seconds := by
  have hmul := arith_eq_some h
  rwa [val_scale] at hmul

theorem Duration.toSecond_defined {a : Duration T} {r : Duration .Second}
    (h : a.toSecond = some r) : CTy.int64.InRange a.seconds ∧ r.value.val = a.seconds := by
  obtain ⟨seconds, hmul, hr⟩ := Option.bind_eq_some_iff.mp h
  obtain ⟨hrange, hval⟩ := arith_eq_some hmul
  obtain rfl := Option.some.inj hr
  rw [val_scale] at hrange hval
  exact ⟨hrange, (congrArg CInt.val (CInt.cast_self seconds)).trans hval⟩

/-- Where the total of two numbers of seconds is defined, nothing overflowed. -/
theorem opSeconds_defined {o : Op} {l r v : CInt .int64} {R : AutoConvertDurationType} {x y : Int}
    (hl : CTy.int64.InRange x ∧ l.val = x) (hr : CTy.int64.InRange y ∧ r.val = y)
    (h : opSeconds o l r R = some v) :
    CTy.int64.InRange x ∧ CTy.int64.InRange y ∧ CTy.int64.InRange (o.exact x y) := by
  obtain ⟨total, htotal, -⟩ := Option.bind_eq_some_iff.mp h
  rw [Op.run_eq_arith] at htotal
  have hrange := (arith_eq_some htotal).1
  rw [hl.2, hr.2] at hrange
  exact ⟨hl.1, hr.1, hrange⟩

theorem Point.opDurationMixed_defined {o : Op} {a : Point T} {b : Duration U}
    {v : Point (ResType T U)} (h : a.opDurationMixed o b = some v) :
    CTy.int64.InRange a.seconds ∧ CTy.int64.InRange b.seconds ∧
      CTy.int64.InRange (o.exact a.seconds b.seconds) := by
  obtain ⟨l, hl, h⟩ := Option.bind_eq_some_iff.mp h
  obtain ⟨r, hr, h⟩ := Option.bind_eq_some_iff.mp h
  obtain ⟨_, hvalue, -⟩ := Option.bind_eq_some_iff.mp h
  exact opSeconds_defined (Point.scaled_defined hl) (Duration.toSecond_defined hr) hvalue

theorem Duration.opPointMixed_defined {o : Op} {a : Duration T} {b : Point U}
    {v : Point (ResType T U)} (h : a.opPointMixed o b = some v) :
    CTy.int64.InRange a.seconds ∧ CTy.int64.InRange b.seconds ∧
      CTy.int64.InRange (o.exact a.seconds b.seconds) := by
  obtain ⟨l, hl, h⟩ := Option.bind_eq_some_iff.mp h
  obtain ⟨r, hr, h⟩ := Option.bind_eq_some_iff.mp h
  obtain ⟨_, hvalue, -⟩ := Option.bind_eq_some_iff.mp h
  exact opSeconds_defined (Duration.toSecond_defined hl) (Point.scaled_defined hr) hvalue

theorem Duration.opDurationMixed_defined {o : Op} {a : Duration T} {b : Duration U}
    {v : Duration (ResType T U)} (h : a.opDurationMixed o b = some v) :
    CTy.int64.InRange a.seconds ∧ CTy.int64.InRange b.seconds ∧
      CTy.int64.InRange (o.exact a.seconds b.seconds) := by
  obtain ⟨l, hl, h⟩ := Option.bind_eq_some_iff.mp h
  obtain ⟨r, hr, h⟩ := Option.bind_eq_some_iff.mp h
  obtain ⟨_, hvalue, -⟩ := Option.bind_eq_some_iff.mp h
  exact opSeconds_defined (Duration.toSecond_defined hl) (Duration.toSecond_defined hr) hvalue

/-- In one unit a sum of durations overflows iff the units do. -/
theorem Duration.opDuration_defined {o : Op} {a b v : Duration T} (h : a.opDuration o b = some v) :
    CTy.int64.InRange (o.exact a.seconds b.seconds / scaleNat T) := by
  obtain ⟨value, hvalue, -⟩ := Option.bind_eq_some_iff.mp h
  rw [Op.run_eq_arith] at hvalue
  rw [Duration.seconds, Duration.seconds, ← o.exact_mul,
    Int.mul_ediv_cancel _ (scaleNat_ne_zero T)]
  exact (arith_eq_some hvalue).1

theorem Duration.opDuration_exact {o : Op} {a b : Duration T}
    (h : CTy.int64.InRange (o.exact a.seconds b.seconds / scaleNat T)) :
    ∃ r, a.opDuration o b = some r ∧ r.seconds = o.exact a.seconds b.seconds := by
  have hmul : o.exact a.seconds b.seconds = o.exact a.value.val b.value.val * scaleNat T :=
    (o.exact_mul _ _ _).symm
  rw [hmul] at h ⊢
  rw [Int.mul_ediv_cancel _ (scaleNat_ne_zero T)] at h
  obtain ⟨value, hrun, hval⟩ := CInt.arith_exact (x := a.value) (y := b.value)
    a.value.val_inRange b.value.val_inRange h
  rw [← o.run_eq_arith] at hrun
  refine ⟨⟨value.cast .int64⟩, ?_, ?_⟩
  · rw [Duration.opDuration, hrun]
    rfl
  · rw [Duration.seconds, ← hval]
    exact congrArg (fun z : CInt .int64 => z.val * (scaleNat T : Int)) (CInt.cast_self value)

/-- A sum in `std::uint64_t` is defined, and wraps around. -/
theorem run_wraps {t u : CTy} (o : Op) {x : CInt t} {y : CInt u} {X Y : Int}
    (hc : CTy.usual t u = .uint64) (hx : x.val ≡ X [ZMOD 2 ^ 64]) (hy : y.val ≡ Y [ZMOD 2 ^ 64]) :
    ∃ value, o.run x y = some value ∧ (⟨value.cast .uint64⟩ : Point T).seconds =
      held .point T (o.exact (X * scaleNat T) (Y * scaleNat T)) := by
  obtain ⟨value, hrun⟩ := CInt.arith_of_unsigned o.exact x y (by rw [hc]; rfl)
  have hwidth : (CTy.usual t u).width = 64 := by rw [hc]; rfl
  have hmod := CInt.arith_modEq o.exact_modEq hrun
  rw [hwidth] at hmod
  refine ⟨value, (o.run_eq_arith x y).trans hrun, ?_⟩
  rw [← o.exact_mul, held_mul, Point.seconds, Point.signed, CInt.cast]
  refine congrArg (fun z : CInt .int64 => z.val * (scaleNat T : Int)) (CInt.ofInt_eq_ofInt.mpr ?_)
  exact (CInt.val_ofInt_modEq (t := .uint64) value.val).trans (hmod.trans (o.exact_modEq hx hy))

theorem Point.opDuration_wraps (o : Op) (a : Point T) (b : Duration T) :
    ∃ r, a.opDuration o b = some r ∧ r.seconds = held .point T (o.exact a.seconds b.seconds) := by
  obtain ⟨value, hrun, hval⟩ := run_wraps (y := b.value) o (by decide) a.signed_modEq (Int.ModEq.refl _)
  refine ⟨_, ?_, hval⟩
  rw [Point.opDuration, hrun]
  rfl

theorem Duration.opPoint_wraps (o : Op) (a : Duration T) (b : Point T) :
    ∃ r, a.opPoint o b = some r ∧ r.seconds = held .point T (o.exact a.seconds b.seconds) := by
  obtain ⟨value, hrun, hval⟩ := run_wraps (x := a.value) o (by decide) (Int.ModEq.refl _) b.signed_modEq
  refine ⟨_, ?_, hval⟩
  rw [Duration.opPoint, hrun]
  rfl

namespace Value

theorem op_point_duration_self (o : Op) (a : Point T) (b : Duration T) :
    op o (.point T a) (.duration T b) = (a.opDuration o b).map (.point T) := by
  cases o <;> simp [op, add, sub, Point.addDuration, Point.subDuration]

theorem op_duration_point_self (o : Op) (a : Duration T) (b : Point T) :
    op o (.duration T a) (.point T b) = (a.opPoint o b).map (.point T) := by
  cases o <;> simp [op, add, sub, Duration.addPoint, Duration.subPoint]

theorem op_duration_duration_self (o : Op) (a b : Duration T) :
    op o (.duration T a) (.duration T b) = (a.opDuration o b).map (.duration T) := by
  cases o <;> simp [op, add, sub, Duration.addDuration, Duration.subDuration]

theorem op_point_duration (o : Op) (h : U ≠ T) (a : Point T) (b : Duration U) :
    op o (.point T a) (.duration U b) = (a.opDurationMixed o b).map (.point (ResType T U)) := by
  cases o <;> simp [op, add, sub, Point.addDurationMixed, Point.subDurationMixed, h]

theorem op_duration_point (o : Op) (h : U ≠ T) (a : Duration T) (b : Point U) :
    op o (.duration T a) (.point U b) = (a.opPointMixed o b).map (.point (ResType T U)) := by
  cases o <;> simp [op, add, sub, Duration.addPointMixed, Duration.subPointMixed, h]

theorem op_duration_duration (o : Op) (h : U ≠ T) (a : Duration T) (b : Duration U) :
    op o (.duration T a) (.duration U b) =
      (a.opDurationMixed o b).map (.duration (ResType T U)) := by
  cases o <;> simp [op, add, sub, Duration.addDurationMixed, Duration.subDurationMixed, h]

/-- Two units: a defined operator does not overflow. -/
theorem inRange_of_op {o : Op} {a b v : Value} (hunit : b.unit ≠ a.unit)
    (h : op o a b = some v) : CTy.int64.InRange a.seconds ∧ CTy.int64.InRange b.seconds ∧
      CTy.int64.InRange (o.exact a.seconds b.seconds) := by
  cases a with
  | point T a =>
    cases b with
    | point U b => cases o <;> cases h
    | duration U b =>
      have hne : U ≠ T := hunit
      rw [op_point_duration o hne, Option.map_eq_some_iff] at h
      obtain ⟨r, hr, -⟩ := h
      exact Point.opDurationMixed_defined hr
  | duration T a =>
    cases b with
    | point U b =>
      have hne : U ≠ T := hunit
      rw [op_duration_point o hne, Option.map_eq_some_iff] at h
      obtain ⟨r, hr, -⟩ := h
      exact Duration.opPointMixed_defined hr
    | duration U b =>
      have hne : U ≠ T := hunit
      rw [op_duration_duration o hne, Option.map_eq_some_iff] at h
      obtain ⟨r, hr, -⟩ := h
      exact Duration.opDurationMixed_defined hr

/-- Every value is a whole number of its units. -/
theorem dvd_seconds (v : Value) : (scaleNat v.unit : Int) ∣ v.seconds := by
  cases v with
  | point T a => exact Int.dvd_mul_left _ _
  | duration T a => exact Int.dvd_mul_left _ _

/-- A defined operator does not overflow. -/
theorem opSafe_of_op {o : Op} {a b v : Value} {k : Kind} (hkind : a.kind.op b.kind = some k)
    (h : op o a b = some v) : OpSafe o k a.unit b.unit a.seconds b.seconds := by
  unfold OpSafe
  split
  · rename_i hunit
    rintro rfl
    cases a with
    | point T a => cases b <;> cases hkind
    | duration T a =>
      cases b with
      | point U b => cases hkind
      | duration U b =>
        obtain rfl : T = U := hunit
        rw [op_duration_duration_self, Option.map_eq_some_iff] at h
        obtain ⟨r, hr, -⟩ := h
        exact Duration.opDuration_defined hr
  · rename_i hunit
    exact inRange_of_op (Ne.symm hunit) h

/-- **One operator.** Where an accepted operator does not overflow, it is exact
up to the wrapping of a point, in the finer unit. -/
theorem op_held {o : Op} {a b : Value} {k : Kind} (hkind : a.kind.op b.kind = some k)
    (h : OpSafe o k a.unit b.unit a.seconds b.seconds) :
    ∃ v, op o a b = some v ∧ v.kind = k ∧ v.unit = ResType a.unit b.unit ∧
      v.seconds = held k v.unit (o.exact a.seconds b.seconds) := by
  unfold OpSafe at h
  split at h
  · rename_i hunit
    cases a with
    | point T a =>
      cases b with
      | point U b => cases hkind
      | duration U b =>
        obtain rfl : T = U := hunit
        obtain rfl := Option.some.inj hkind
        obtain ⟨r, hr, hsec⟩ := Point.opDuration_wraps o a b
        refine ⟨.point T r, ?_, rfl, (resType_self T).symm, hsec⟩
        rw [op_point_duration_self, hr, Option.map_some]
    | duration T a =>
      cases b with
      | point U b =>
        obtain rfl : T = U := hunit
        obtain rfl := Option.some.inj hkind
        obtain ⟨r, hr, hsec⟩ := Duration.opPoint_wraps o a b
        refine ⟨.point T r, ?_, rfl, (resType_self T).symm, hsec⟩
        rw [op_duration_point_self, hr, Option.map_some]
      | duration U b =>
        obtain rfl : T = U := hunit
        obtain rfl := Option.some.inj hkind
        obtain ⟨r, hr, hsec⟩ := Duration.opDuration_exact (h rfl)
        refine ⟨.duration T r, ?_, rfl, (resType_self T).symm, hsec⟩
        rw [op_duration_duration_self, hr, Option.map_some]
  · obtain ⟨ha, hb, htotal⟩ := h
    obtain ⟨v, hv, hk, hunit, hsec⟩ := op_spec hkind ha hb htotal
    refine ⟨v, hv, hk, hunit, ?_⟩
    rw [hsec, held_of_seconds _ htotal]
    rw [hunit]
    exact dvd_exact_resType o a.dvd_seconds b.dvd_seconds

end Value

-- ---------------------------------------------------------------------------
-- Expressions
-- ---------------------------------------------------------------------------

namespace Expr

/-- The unit of the expression, as the overloads have it. -/
def unit : Expr → AutoConvertDurationType
  | .leaf v   => v.unit
  | .op _ l r => ResType l.unit r.unit

/-- A point as soon as there is a point. -/
def kind : Expr → Kind
  | .leaf v   => v.kind
  | .op _ l r => if l.kind = .point ∨ r.kind = .point then .point else .duration

/-- The seconds that are left of the signed sum. -/
def held (e : Expr) : Int := Time.held e.kind e.unit e.signedSum

/-- No operator of the expression overflows. -/
def Safe : Expr → Prop
  | .leaf _   => True
  | .op o l r =>
    OpSafe o (Expr.op o l r).kind l.unit r.unit l.held r.held ∧ l.Safe ∧ r.Safe

instance instDecidableSafe : (e : Expr) → Decidable e.Safe
  | .leaf _ => inferInstanceAs (Decidable True)
  | .op o l r =>
    have := instDecidableSafe l
    have := instDecidableSafe r
    inferInstanceAs (Decidable (OpSafe o (Expr.op o l r).kind l.unit r.unit l.held r.held ∧ _ ∧ _))

theorem kind_of_kind? {e : Expr} {k : Kind} (h : e.kind? = some k) : e.kind = k := by
  induction e generalizing k with
  | leaf v => exact Option.some.inj h
  | op o l r ihl ihr =>
    simp only [kind?, Option.bind_eq_bind, Option.bind_eq_some_iff] at h
    obtain ⟨kl, hkl, kr, hkr, hop⟩ := h
    rw [kind, ihl hkl, ihr hkr]
    cases kl <;> cases kr <;> first | exact Option.some.inj hop | cases hop

theorem isFinest_unit (e : Expr) : e.IsFinest e.unit := by
  induction e with
  | leaf v => simp [IsFinest, terms, unit]
  | op o l r ihl ihr => exact isFinest_op ihl ihr

theorem dvd_signedSum (e : Expr) : (scaleNat e.unit : Int) ∣ e.signedSum := by
  induction e with
  | leaf v =>
    rw [signedSum_leaf]
    exact v.dvd_seconds
  | op o l r ihl ihr =>
    rw [signedSum_op]
    exact dvd_exact_resType o ihl ihr

/-- A leaf holds its seconds. -/
theorem held_leaf (v : Value) : (leaf v).held = v.seconds := by
  rw [held, signedSum_leaf]
  cases v with
  | point T a =>
    show Time.held .point T (a.signed * scaleNat T) = a.signed * scaleNat T
    rw [held_mul, Point.signed, CInt.ofInt_val]
  | duration T a => rfl

/-- **Every node** of an accepted expression is defined iff nothing in it
overflows, and is the signed sum as far as an object of its kind and unit holds
it. -/
theorem eval_held {e : Expr} {k : Kind} (hkind : e.kind? = some k) :
    (e.Safe → ∃ v, e.eval = some v) ∧ ∀ v, e.eval = some v →
      e.Safe ∧ v.kind = k ∧ v.unit = e.unit ∧ v.seconds = e.held := by
  induction e generalizing k with
  | leaf v =>
    refine ⟨fun _ => ⟨v, rfl⟩, fun w hw => ?_⟩
    obtain rfl := Option.some.inj hw
    exact ⟨trivial, Option.some.inj hkind, rfl, (held_leaf v).symm⟩
  | op o l r ihl ihr =>
    have hk := kind_of_kind? hkind
    simp only [kind?, Option.bind_eq_bind, Option.bind_eq_some_iff] at hkind
    obtain ⟨kl, hkl, kr, hkr, hop⟩ := hkind
    obtain ⟨hdefl, hvall⟩ := ihl hkl
    obtain ⟨hdefr, hvalr⟩ := ihr hkr
    constructor
    · rintro ⟨hsafe, hl, hr⟩
      obtain ⟨a, ha⟩ := hdefl hl
      obtain ⟨b, hb⟩ := hdefr hr
      obtain ⟨-, hka, hua, hsa⟩ := hvall a ha
      obtain ⟨-, hkb, hub, hsb⟩ := hvalr b hb
      rw [hk, ← hua, ← hub, ← hsa, ← hsb] at hsafe
      obtain ⟨v, hv, -⟩ := Value.op_held (o := o) (by rw [hka, hkb, hop]) hsafe
      refine ⟨v, ?_⟩
      rw [eval, ha, hb]
      exact hv
    · intro v hv
      obtain ⟨a, ha, hv⟩ := Option.bind_eq_some_iff.mp hv
      obtain ⟨b, hb, hv⟩ := Option.bind_eq_some_iff.mp hv
      obtain ⟨hl, hka, hua, hsa⟩ := hvall a ha
      obtain ⟨hr, hkb, hub, hsb⟩ := hvalr b hb
      have hkind : a.kind.op b.kind = some k := by rw [hka, hkb, hop]
      have hsafe := Value.opSafe_of_op hkind hv
      obtain ⟨w, hw, hkw, huw, hsw⟩ := Value.op_held hkind hsafe
      obtain rfl := Option.some.inj (hv.symm.trans hw)
      rw [hua, hub] at huw
      rw [hua, hub, hsa, hsb, ← hk] at hsafe
      refine ⟨⟨hsafe, hl, hr⟩, hkw, huw, ?_⟩
      have hkl' := kind_of_kind? hkl
      have hkr' := kind_of_kind? hkr
      rw [hsw, huw, hsa, hsb, held, held, hkl', hkr',
        held_op o hop l.dvd_signedSum r.dvd_signedSum, held, hk, signedSum_op]
      rfl

/-- What has a value is accepted. -/
theorem kind?_of_eval {e : Expr} {v : Value} (h : e.eval = some v) : e.kind? = some v.kind := by
  induction e generalizing v with
  | leaf w => exact congrArg (fun x => some (Value.kind x)) (Option.some.inj h)
  | op o l r ihl ihr =>
    obtain ⟨a, ha, hv⟩ := Option.bind_eq_some_iff.mp h
    obtain ⟨b, hb, hv⟩ := Option.bind_eq_some_iff.mp hv
    have hkind : ∃ k, a.kind.op b.kind = some k := by
      cases a <;> cases b <;> first | exact ⟨_, rfl⟩ | (cases o <;> cases hv)
    obtain ⟨k, hk⟩ := hkind
    have hnode : (Expr.op o l r).kind? = some k := by
      rw [kind?, ihl ha, ihr hb]
      exact hk
    rw [hnode, ((eval_held hnode).2 v h).2.1]

/-- In which order and grouping the leaves come does not matter to a value. -/
theorem eval_perm {e e' : Expr} {v v' : Value} (h : e.eval = some v) (h' : e'.eval = some v')
    (hperm : e'.terms.Perm e.terms) : v' = v := by
  have hk := kind?_of_eval h
  have hk' := kind?_of_eval h'
  obtain ⟨-, -, hunit, hsec⟩ := (eval_held hk).2 v h
  obtain ⟨-, -, hunit', hsec'⟩ := (eval_held hk').2 v' h'
  have hsum : e'.signedSum = e.signedSum := (hperm.map _).sum_eq
  have hpoint : v'.kind = .point ↔ v.kind = .point := by
    rw [kind_point_iff hk', kind_point_iff hk]
    simp only [hperm.mem_iff]
  have hkinds : v'.kind = v.kind := by
    cases hv : v.kind <;> cases hv' : v'.kind <;> simp_all
  have hunits : e'.unit = e.unit := (isFinest_unique hperm e.isFinest_unit e'.isFinest_unit).symm
  apply Value.ext hkinds
  · rw [hunit, hunit', hunits]
  · rw [hsec, hsec', held, held, hunits, hsum, kind_of_kind? hk, kind_of_kind? hk', hkinds]

end Expr

-- ---------------------------------------------------------------------------
-- Main results
-- ---------------------------------------------------------------------------

/--
**Exactly the safe expressions are defined**: those that the overloads accept
and none of whose operators overflows, which the signed sums of the
subexpressions decide.
-/
theorem expressions_defined_iff (e : Expr) :
    (∃ v, e.eval = some v) ↔ e.kind?.isSome ∧ e.Safe := by
  constructor
  · rintro ⟨v, hv⟩
    have hk := Expr.kind?_of_eval hv
    exact ⟨Option.isSome_of_eq_some hk, ((Expr.eval_held hk).2 v hv).1⟩
  · rintro ⟨hsome, hsafe⟩
    obtain ⟨k, hk⟩ := Option.isSome_iff_exists.mp hsome
    exact (Expr.eval_held hk).1 hsafe

/--
**Wrapping cancels.** An expression that has a value has it in the finest unit
that occurs, and it is what a point or a duration of that unit holds of the
signed sum of the leaves' seconds: the sum itself, if that fits in the unit,
whatever wrapped around on the way. Any other expression with the same signed
leaves that has a value has the same one.
-/
theorem defined_expressions {e : Expr} {v : Value} (h : e.eval = some v) :
    e.kind? = some v.kind ∧ e.IsFinest v.unit ∧ v.seconds = held v.kind v.unit e.signedSum ∧
      (CTy.int64.InRange (e.signedSum / scaleNat v.unit) → v.seconds = e.signedSum) ∧
      ∀ (e' : Expr) (v' : Value), e'.eval = some v' → e'.terms.Perm e.terms → v' = v := by
  have hk := Expr.kind?_of_eval h
  obtain ⟨-, -, hunit, hsec⟩ := (Expr.eval_held hk).2 v h
  have hheld : v.seconds = held v.kind v.unit e.signedSum := by
    rw [hsec, Expr.held, Expr.kind_of_kind? hk, hunit]
  refine ⟨hk, ?_, hheld, ?_, fun e' v' h' hperm => Expr.eval_perm h h' hperm⟩
  · rw [hunit]
    exact e.isFinest_unit
  · intro hfits
    rw [hheld]
    refine held_of_inRange ?_ hfits
    rw [hunit]
    exact e.dvd_signedSum

/-- Five hours past the last one that a point represents, and seven back: the
point wraps around below zero and returns. -/
theorem defined_expressions_wraps :
    let e := Expr.op .sub (.op .add (.leaf (.point .Hour ⟨.ofInt .uint64 (2 ^ 63 - 1)⟩))
      (.leaf (.duration .Hour ⟨.ofInt .int64 5⟩))) (.leaf (.duration .Hour ⟨.ofInt .int64 7⟩))
    ∃ v, e.eval = some v ∧ ¬ e.InBounds ∧ v.seconds = (2 ^ 63 - 3) * 3600 := by
  intro e
  have heval : e.eval = some (.point .Hour ⟨.ofInt .uint64 (2 ^ 63 - 3)⟩) := by rfl
  obtain ⟨-, -, -, hfits, -⟩ := defined_expressions heval
  have hsum : e.signedSum = (2 ^ 63 - 3) * 3600 := by decide
  refine ⟨_, heval, by decide, (hfits ?_).trans hsum⟩
  rw [hsum]
  decide

end Destiny.Time
