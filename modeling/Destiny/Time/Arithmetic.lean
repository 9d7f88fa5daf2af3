import Destiny.Foundation.CInt

/-!
# Time points and durations — the operators

The free operators `+` and `-` of `basicType/time/time.hpp` on a time point
(`Day`, `Hour`, `Minute`, `Second`: a `std::uint64_t` in that unit) and a
`Duration` (a `std::int64_t` in that unit), in their twelve overloads: point or
duration on either side, plus or minus, one unit or two.

* same unit — the values are added as they are, a point in `std::uint64_t`;
* two units — both sides go to seconds in `std::int64_t`, and the total is
  divided by the scale of the finer unit (`ResType`).

The overloads that differ only in the sign are one definition with the sign as
a parameter (`Op`). A signed overflow makes an operator undefined (`none`).

* `Point.opDuration_spec`, … — in range, each overload adds or subtracts the
  seconds of its operands exactly.
-/

namespace Destiny.Time

open Foundation

-- ---------------------------------------------------------------------------
-- Units
-- ---------------------------------------------------------------------------

/-- The concept `AutoConvertDurationType`. -/
inductive AutoConvertDurationType
  | Day | Hour | Minute | Second
deriving DecidableEq

/-- `scale<T>::value`, as a number. -/
def scaleNat : AutoConvertDurationType → Nat
  | .Day => 86400
  | .Hour => 3600
  | .Minute => 60
  | .Second => 1

/-- `scale<T>::value` -/
def scale (T : AutoConvertDurationType) : CInt .int64 := .ofInt .int64 (scaleNat T)

/-- `ResType<T, U>`: the finer of the two units. -/
def ResType (T U : AutoConvertDurationType) : AutoConvertDurationType :=
  if (scale T).val < (scale U).val then T else U

@[simp] theorem val_scale (T : AutoConvertDurationType) : (scale T).val = scaleNat T := by
  apply CInt.val_ofInt
  cases T <;> decide

theorem scaleNat_pos (T : AutoConvertDurationType) : 0 < scaleNat T := by
  cases T <;> decide

theorem scaleNat_injective : Function.Injective scaleNat := by
  intro T U h
  cases T <;> cases U <;> first | rfl | (revert h; decide)

/-- Every scale is a multiple of the finer ones. -/
theorem scaleNat_dvd {T U : AutoConvertDurationType} (h : scaleNat T ≤ scaleNat U) :
    scaleNat T ∣ scaleNat U := by
  revert h
  cases T <;> cases U <;> decide

theorem resType_eq (T U : AutoConvertDurationType) :
    ResType T U = if scaleNat T < scaleNat U then T else U := by
  simp only [ResType, val_scale, Nat.cast_lt]

@[simp] theorem resType_self (T : AutoConvertDurationType) : ResType T T = T := by
  simp [resType_eq]

theorem scaleNat_resType (T U : AutoConvertDurationType) :
    scaleNat (ResType T U) = min (scaleNat T) (scaleNat U) := by
  rw [resType_eq]
  split <;> omega

-- ---------------------------------------------------------------------------
-- Points and durations
-- ---------------------------------------------------------------------------

/-- A time point of the class `T`. -/
@[ext] structure Point (T : AutoConvertDurationType) where
  value : CInt .uint64

/-- `Duration<T>` -/
@[ext] structure Duration (T : AutoConvertDurationType) where
  value : CInt .int64

variable {T U : AutoConvertDurationType}

/-- `Duration<T>::toSecond` -/
def Duration.toSecond (a : Duration T) : Option (Duration .Second) := do
  let seconds ← CInt.mul a.value (scale T)
  return ⟨seconds.cast .int64⟩

/-- The value of a point, read as two's complement. -/
def Point.signed (a : Point T) : Int := (a.value.cast .int64).val

/-- The seconds a point stands for. -/
def Point.seconds (a : Point T) : Int := a.signed * scaleNat T

/-- The seconds a duration stands for. -/
def Duration.seconds (a : Duration T) : Int := a.value.val * scaleNat T

-- ---------------------------------------------------------------------------
-- Plus and minus
-- ---------------------------------------------------------------------------

/-- The operator: `+` or `-`. -/
inductive Op
  | add | sub
deriving DecidableEq

namespace Op

def exact : Op → Int → Int → Int
  | .add, a, b => a + b
  | .sub, a, b => a - b

def run {t u : CTy} (o : Op) (x : CInt t) (y : CInt u) : Option (CInt (CTy.usual t u)) :=
  match o with
  | .add => CInt.add x y
  | .sub => CInt.sub x y

theorem run_eq_arith {t u : CTy} (o : Op) (x : CInt t) (y : CInt u) :
    o.run x y = CInt.arith o.exact x y := by
  cases o <;> rfl

theorem exact_mul (o : Op) (a b s : Int) : o.exact a b * s = o.exact (a * s) (b * s) := by
  cases o with
  | add => exact add_mul a b s
  | sub => exact sub_mul a b s

theorem exact_modEq (o : Op) {n a b c d : Int} (h : a ≡ b [ZMOD n]) (h' : c ≡ d [ZMOD n]) :
    o.exact a c ≡ o.exact b d [ZMOD n] := by
  cases o with
  | add => exact h.add h'
  | sub => exact h.sub h'

theorem exact_dvd (o : Op) {d a b : Int} (h : d ∣ a) (h' : d ∣ b) : d ∣ o.exact a b := by
  cases o with
  | add => exact Dvd.dvd.add h h'
  | sub => exact Dvd.dvd.sub h h'

end Op

-- ---------------------------------------------------------------------------
-- The overloads for one unit
-- ---------------------------------------------------------------------------

/-- `T(a.value() ± b.value())` for a point and a duration. -/
def Point.opDuration (o : Op) (a : Point T) (b : Duration T) : Option (Point T) := do
  let value ← o.run a.value b.value
  return ⟨value.cast .uint64⟩

/-- `T(a.value() ± b.value())` for a duration and a point. -/
def Duration.opPoint (o : Op) (a : Duration T) (b : Point T) : Option (Point T) := do
  let value ← o.run a.value b.value
  return ⟨value.cast .uint64⟩

/-- `Duration<T>(a.value() ± b.value())` -/
def Duration.opDuration (o : Op) (a b : Duration T) : Option (Duration T) := do
  let value ← o.run a.value b.value
  return ⟨value.cast .int64⟩

/-- `operator+(const T& a, const Duration<T>& b)` -/
def Point.addDuration (a : Point T) (b : Duration T) : Option (Point T) := a.opDuration .add b

/-- `operator+(const Duration<T>& a, const T& b)` -/
def Duration.addPoint (a : Duration T) (b : Point T) : Option (Point T) := a.opPoint .add b

/-- `operator+(const Duration<T>& a, const Duration<T>& b)` -/
def Duration.addDuration (a b : Duration T) : Option (Duration T) := a.opDuration .add b

/-- `operator-(const T& a, const Duration<T>& b)` -/
def Point.subDuration (a : Point T) (b : Duration T) : Option (Point T) := a.opDuration .sub b

/-- `operator-(const Duration<T>& a, const T& b)` -/
def Duration.subPoint (a : Duration T) (b : Point T) : Option (Point T) := a.opPoint .sub b

/-- `operator-(const Duration<T>& a, const Duration<T>& b)` -/
def Duration.subDuration (a b : Duration T) : Option (Duration T) := a.opDuration .sub b

-- ---------------------------------------------------------------------------
-- The overloads for two units
-- ---------------------------------------------------------------------------

/-- `static_cast<std::int64_t>(a.value()) * scale<T>::value` -/
def Point.scaled (a : Point T) : Option (CInt .int64) :=
  CInt.mul (a.value.cast .int64) (scale T)

/-- `total / scale<resType>::value` for the total of two numbers of seconds. -/
def opSeconds (o : Op) (l r : CInt .int64) (resType : AutoConvertDurationType) :
    Option (CInt .int64) := do
  let total ← o.run l r
  CInt.div total (scale resType)

/-- The mixed overloads for a point and a duration. -/
def Point.opDurationMixed (o : Op) (a : Point T) (b : Duration U) :
    Option (Point (ResType T U)) := do
  let l ← a.scaled
  let r ← b.toSecond
  let value ← opSeconds o l r.value (ResType T U)
  return ⟨value.cast .uint64⟩

/-- The mixed overloads for a duration and a point. -/
def Duration.opPointMixed (o : Op) (a : Duration T) (b : Point U) :
    Option (Point (ResType T U)) := do
  let l ← a.toSecond
  let r ← b.scaled
  let value ← opSeconds o l.value r (ResType T U)
  return ⟨value.cast .uint64⟩

/-- The mixed overloads for two durations. -/
def Duration.opDurationMixed (o : Op) (a : Duration T) (b : Duration U) :
    Option (Duration (ResType T U)) := do
  let l ← a.toSecond
  let r ← b.toSecond
  let value ← opSeconds o l.value r.value (ResType T U)
  return ⟨value.cast .int64⟩

/-- `operator+(const T& a, const Duration<U>& b)` -/
def Point.addDurationMixed (a : Point T) (b : Duration U) : Option (Point (ResType T U)) :=
  a.opDurationMixed .add b

/-- `operator+(const Duration<T>& a, const U& b)` -/
def Duration.addPointMixed (a : Duration T) (b : Point U) : Option (Point (ResType T U)) :=
  a.opPointMixed .add b

/-- `operator+(const Duration<T>& a, const Duration<U>& b)` -/
def Duration.addDurationMixed (a : Duration T) (b : Duration U) :
    Option (Duration (ResType T U)) :=
  a.opDurationMixed .add b

/-- `operator-(const T& a, const Duration<U>& b)` -/
def Point.subDurationMixed (a : Point T) (b : Duration U) : Option (Point (ResType T U)) :=
  a.opDurationMixed .sub b

/-- `operator-(const Duration<T>& a, const U& b)` -/
def Duration.subPointMixed (a : Duration T) (b : Point U) : Option (Point (ResType T U)) :=
  a.opPointMixed .sub b

/-- `operator-(const Duration<T>& a, const Duration<U>& b)` -/
def Duration.subDurationMixed (a : Duration T) (b : Duration U) :
    Option (Duration (ResType T U)) :=
  a.opDurationMixed .sub b

-- ---------------------------------------------------------------------------
-- Exactness of the pieces
-- ---------------------------------------------------------------------------

/-- What fits in seconds fits in every unit. -/
theorem inRange_of_seconds {z : Int} (h : CTy.int64.InRange (z * scaleNat T)) :
    CTy.int64.InRange z := by
  have hpos : (1 : Int) ≤ scaleNat T := by exact_mod_cast scaleNat_pos T
  obtain ⟨hlo, hhi⟩ := h
  have hmin : CTy.int64.min = -2 ^ 63 := by decide
  have hmax : CTy.int64.max = 2 ^ 63 - 1 := by decide
  rw [hmin] at hlo
  rw [hmax] at hhi
  unfold CTy.InRange
  rw [hmin, hmax]
  constructor
  · nlinarith
  · nlinarith

/-- A product with a scale is exact if the seconds fit. -/
theorem mul_scale_spec {x : CInt .int64} (h : CTy.int64.InRange (x.val * scaleNat T)) :
    ∃ r : CInt .int64, CInt.mul x (scale T) = some r ∧ r.val = x.val * scaleNat T := by
  rw [← val_scale] at h ⊢
  exact CInt.arith_exact (f := (· * ·)) (x := x) (y := scale T) x.val_inRange (scale T).val_inRange h

theorem Point.scaled_spec {a : Point T} (h : CTy.int64.InRange a.seconds) :
    ∃ r, a.scaled = some r ∧ r.val = a.seconds :=
  mul_scale_spec h

theorem Duration.toSecond_spec {a : Duration T} (h : CTy.int64.InRange a.seconds) :
    ∃ r, a.toSecond = some r ∧ r.value.val = a.seconds := by
  obtain ⟨r, hr, hval⟩ := mul_scale_spec h
  refine ⟨⟨r⟩, ?_, hval⟩
  refine (congrArg (Option.bind · _) hr).trans (congrArg some ?_)
  exact congrArg Duration.mk (CInt.cast_self r)

/-- A point that holds a residue of `z`. -/
theorem Point.seconds_of_modEq {a : Point T} {z : Int} (h : a.value.val ≡ z [ZMOD 2 ^ 64])
    (hz : CTy.int64.InRange (z * scaleNat T)) : a.seconds = z * scaleNat T := by
  rw [Point.seconds, Point.signed, CInt.val_cast_of_modEq h (inRange_of_seconds hz)]

theorem Point.signed_modEq (a : Point T) : a.value.val ≡ a.signed [ZMOD 2 ^ 64] :=
  (CInt.val_ofInt_modEq (t := .int64) a.value.val).symm

theorem scale_dvd_left (T U : AutoConvertDurationType) :
    (scaleNat (ResType T U) : Int) ∣ scaleNat T := by
  have hle : scaleNat (ResType T U) ≤ scaleNat T := by
    rw [scaleNat_resType]
    omega
  exact_mod_cast scaleNat_dvd hle

theorem scale_dvd_right (T U : AutoConvertDurationType) :
    (scaleNat (ResType T U) : Int) ∣ scaleNat U := by
  have hle : scaleNat (ResType T U) ≤ scaleNat U := by
    rw [scaleNat_resType]
    omega
  exact_mod_cast scaleNat_dvd hle

/-- The division back to a unit drops nothing if the total is a multiple of it. -/
theorem opSeconds_spec {o : Op} {l r : CInt .int64} {R : AutoConvertDurationType}
    (hdvd : (scaleNat R : Int) ∣ o.exact l.val r.val)
    (h : CTy.int64.InRange (o.exact l.val r.val)) :
    ∃ value, opSeconds o l r R = some value ∧ value.val * scaleNat R = o.exact l.val r.val := by
  obtain ⟨z, hz⟩ := hdvd
  have hpos : (0 : Int) < scaleNat R := by exact_mod_cast scaleNat_pos R
  have hrange : CTy.int64.InRange z := by
    apply inRange_of_seconds (T := R)
    rwa [mul_comm, ← hz]
  obtain ⟨total, htotal, hval⟩ : ∃ total : CInt .int64,
      o.run l r = some total ∧ total.val = o.exact l.val r.val := by
    rw [Op.run_eq_arith]
    exact CInt.arith_exact (x := l) (y := r) l.val_inRange r.val_inRange h
  have hquot : total.val.tdiv (scale R).val = z := by
    rw [val_scale, hval, hz, Int.mul_tdiv_cancel_left z hpos.ne']
  have hne : (scale R).val ≠ 0 := by
    rw [val_scale]
    exact hpos.ne'
  have hexact := CInt.div_exact (x := total) (y := scale R)
    total.val_inRange (scale R).val_inRange hne (by rw [hquot]; exact hrange)
  rw [hquot] at hexact
  obtain ⟨value, hdiv, hvalue⟩ := hexact
  refine ⟨value, (congrArg (Option.bind · _) htotal).trans hdiv, ?_⟩
  rw [hz, mul_comm, ← hvalue]
  rfl

/-- Totals of two units are multiples of the finer one. -/
theorem opSeconds_resType {o : Op} {l r : CInt .int64} {x y : Int} (hl : l.val = x * scaleNat T)
    (hr : r.val = y * scaleNat U) (h : CTy.int64.InRange (o.exact l.val r.val)) :
    ∃ value, opSeconds o l r (ResType T U) = some value ∧
      value.val * scaleNat (ResType T U) = o.exact l.val r.val := by
  refine opSeconds_spec (o.exact_dvd ?_ ?_) h
  · rw [hl]
    exact (scale_dvd_left T U).mul_left x
  · rw [hr]
    exact (scale_dvd_right T U).mul_left y

-- ---------------------------------------------------------------------------
-- Exactness of the overloads
-- ---------------------------------------------------------------------------

/-- Adding in `std::uint64_t` and reading the result as two's complement. -/
theorem opPoint_exact {t u : CTy} {o : Op} {x : CInt t} {y : CInt u} {X Y : Int}
    (hc : CTy.usual t u = .uint64) (hx : x.val ≡ X [ZMOD 2 ^ 64]) (hy : y.val ≡ Y [ZMOD 2 ^ 64])
    (h : CTy.int64.InRange (o.exact (X * scaleNat T) (Y * scaleNat T))) :
    ∃ value, o.run x y = some value ∧
      (⟨value.cast .uint64⟩ : Point T).seconds = o.exact (X * scaleNat T) (Y * scaleNat T) := by
  obtain ⟨value, hrun⟩ := CInt.arith_of_unsigned o.exact x y (by rw [hc]; rfl)
  have hwidth : (CTy.usual t u).width = 64 := by rw [hc]; rfl
  have hmod := CInt.arith_modEq o.exact_modEq hrun
  rw [hwidth] at hmod
  rw [← Op.exact_mul] at h ⊢
  refine ⟨value, (o.run_eq_arith x y).trans hrun, ?_⟩
  exact Point.seconds_of_modEq ((CInt.val_ofInt_modEq (t := .uint64) value.val).trans
    (hmod.trans (o.exact_modEq hx hy))) h

theorem Point.opDuration_spec {o : Op} {a : Point T} {b : Duration T}
    (h : CTy.int64.InRange (o.exact a.seconds b.seconds)) :
    ∃ r, a.opDuration o b = some r ∧ r.seconds = o.exact a.seconds b.seconds := by
  obtain ⟨value, hrun, hval⟩ := opPoint_exact (by decide) a.signed_modEq (Int.ModEq.refl _) h
  refine ⟨_, ?_, hval⟩
  rw [Point.opDuration, hrun]
  rfl

theorem Duration.opPoint_spec {o : Op} {a : Duration T} {b : Point T}
    (h : CTy.int64.InRange (o.exact a.seconds b.seconds)) :
    ∃ r, a.opPoint o b = some r ∧ r.seconds = o.exact a.seconds b.seconds := by
  obtain ⟨value, hrun, hval⟩ := opPoint_exact (by decide) (Int.ModEq.refl _) b.signed_modEq h
  refine ⟨_, ?_, hval⟩
  rw [Duration.opPoint, hrun]
  rfl

theorem Duration.opDuration_spec {o : Op} {a b : Duration T}
    (h : CTy.int64.InRange (o.exact a.seconds b.seconds)) :
    ∃ r, a.opDuration o b = some r ∧ r.seconds = o.exact a.seconds b.seconds := by
  have hmul : o.exact a.seconds b.seconds = o.exact a.value.val b.value.val * scaleNat T :=
    (o.exact_mul _ _ _).symm
  rw [hmul] at h ⊢
  obtain ⟨value, hrun, hval⟩ : ∃ value : CInt .int64, o.run a.value b.value = some value ∧
      value.val = o.exact a.value.val b.value.val := by
    rw [Op.run_eq_arith]
    exact CInt.arith_exact (x := a.value) (y := b.value) a.value.val_inRange b.value.val_inRange
      (inRange_of_seconds h)
  refine ⟨⟨value⟩, ?_, ?_⟩
  · refine (congrArg (Option.bind · _) hrun).trans (congrArg some ?_)
    exact congrArg Duration.mk (CInt.cast_self value)
  · rw [← hval]
    rfl

theorem Point.opDurationMixed_spec {o : Op} {a : Point T} {b : Duration U}
    (ha : CTy.int64.InRange a.seconds) (hb : CTy.int64.InRange b.seconds)
    (h : CTy.int64.InRange (o.exact a.seconds b.seconds)) :
    ∃ r, a.opDurationMixed o b = some r ∧ r.seconds = o.exact a.seconds b.seconds := by
  obtain ⟨l, hl, hlval⟩ := Point.scaled_spec ha
  obtain ⟨r, hr, hrval⟩ := Duration.toSecond_spec hb
  rw [← hlval, ← hrval] at h ⊢
  obtain ⟨value, hvalue, hsec⟩ := opSeconds_resType hlval hrval h
  refine ⟨⟨value.cast .uint64⟩, ?_, ?_⟩
  · rw [Point.opDurationMixed, hl, hr]
    exact congrArg (Option.bind · _) hvalue
  · rw [← hsec]
    rw [← hsec] at h
    exact Point.seconds_of_modEq (CInt.val_ofInt_modEq (t := .uint64) value.val) h

theorem Duration.opPointMixed_spec {o : Op} {a : Duration T} {b : Point U}
    (ha : CTy.int64.InRange a.seconds) (hb : CTy.int64.InRange b.seconds)
    (h : CTy.int64.InRange (o.exact a.seconds b.seconds)) :
    ∃ r, a.opPointMixed o b = some r ∧ r.seconds = o.exact a.seconds b.seconds := by
  obtain ⟨l, hl, hlval⟩ := Duration.toSecond_spec ha
  obtain ⟨r, hr, hrval⟩ := Point.scaled_spec hb
  rw [← hlval, ← hrval] at h ⊢
  obtain ⟨value, hvalue, hsec⟩ := opSeconds_resType hlval hrval h
  refine ⟨⟨value.cast .uint64⟩, ?_, ?_⟩
  · rw [Duration.opPointMixed, hl, hr]
    exact congrArg (Option.bind · _) hvalue
  · rw [← hsec]
    rw [← hsec] at h
    exact Point.seconds_of_modEq (CInt.val_ofInt_modEq (t := .uint64) value.val) h

theorem Duration.opDurationMixed_spec {o : Op} {a : Duration T} {b : Duration U}
    (ha : CTy.int64.InRange a.seconds) (hb : CTy.int64.InRange b.seconds)
    (h : CTy.int64.InRange (o.exact a.seconds b.seconds)) :
    ∃ r, a.opDurationMixed o b = some r ∧ r.seconds = o.exact a.seconds b.seconds := by
  obtain ⟨l, hl, hlval⟩ := Duration.toSecond_spec ha
  obtain ⟨r, hr, hrval⟩ := Duration.toSecond_spec hb
  rw [← hlval, ← hrval] at h ⊢
  obtain ⟨value, hvalue, hsec⟩ := opSeconds_resType hlval hrval h
  refine ⟨⟨value.cast .int64⟩, ?_, ?_⟩
  · rw [Duration.opDurationMixed, hl, hr]
    exact congrArg (Option.bind · _) hvalue
  · rw [← hsec, Duration.seconds, CInt.cast_self]

end Destiny.Time
