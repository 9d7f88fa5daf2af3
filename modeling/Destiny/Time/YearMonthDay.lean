import Destiny.Foundation.CIntDiv
import Destiny.Foundation.Run
import Destiny.Time.Arithmetic

/-!
# YearMonthDay — calendar arithmetic

`YearMonthDay` (`basicType/time/src/yearMonthDay.cpp`): a `std::uint64_t` year
with a `std::uint8_t` month and day, and the members that add or subtract a
`Duration<Year>` and add a `Duration<Month>`. The members change the object they
are called on; here they return it. A signed overflow makes them undefined
(`none`).

The months are counted from 1, but `operator+(Duration<Month>)` carries as if
they were counted from 0: a sum that is a multiple of 12 leaves month 0, and the
truncated remainder of a negative sum wraps in the `std::uint8_t`.

* `opYear_eq`, `addMonth_eq` — the members in closed form.
* `step_normalised_iff` — one step keeps the calendar normalised iff its sum of
  months is positive and not a multiple of 12.
* `calendar_normalised_iff` — the same for whole sequences.
* `december_becomes_month_zero` — the shortest failure.
-/

namespace Destiny.Time

open Foundation

-- ---------------------------------------------------------------------------
-- The class
-- ---------------------------------------------------------------------------

/-- The units of `Duration` that are not converted into each other. -/
inductive CalendarUnit
  | Year | Month
deriving DecidableEq

/-- `Duration<Year>`, `Duration<Month>` -/
@[ext] structure CalendarDuration (T : CalendarUnit) where
  value : CInt .int64

/-- The data members of `YearMonthDay`. -/
structure YearMonthDay where
  year  : CInt .uint64
  month : CInt .uint8
  day   : CInt .uint8
deriving DecidableEq

namespace YearMonthDay

/-- `year_ += other.value()` and `year_ -= other.value()`. -/
def opYear (o : Op) (x : YearMonthDay) (other : CalendarDuration .Year) : Option YearMonthDay := do
  let year ← o.run x.year other.value
  return { x with year := year.cast .uint64 }

/-- `operator+(const Duration<Year>&)` -/
def addYear (x : YearMonthDay) (other : CalendarDuration .Year) : Option YearMonthDay :=
  x.opYear .add other

/-- `operator-(const Duration<Year>&)` -/
def subYear (x : YearMonthDay) (other : CalendarDuration .Year) : Option YearMonthDay :=
  x.opYear .sub other

/-- The literal `12`. -/
def twelve : CInt .int32 := .ofInt .int32 12

/-- `operator+(const Duration<Month>&)` -/
def addMonth (x : YearMonthDay) (other : CalendarDuration .Month) : Option YearMonthDay := do
  let sum ← CInt.add other.value x.month
  let cache : CInt .int64 := sum.cast .int64
  let years ← CInt.div cache twelve
  let year ← CInt.add x.year years
  let month ← CInt.mod cache twelve
  return { x with year := year.cast .uint64, month := month.cast .uint8 }

-- ---------------------------------------------------------------------------
-- Closed forms
-- ---------------------------------------------------------------------------

/-- Adding to the year is exact up to `2 ^ 64`. -/
theorem year_op {t : CTy} (o : Op) (year : CInt .uint64) (n : CInt t)
    (h : (CTy.usual .uint64 t).signed = false) :
    ∃ r, o.run year n = some r ∧ r.cast .uint64 = .ofInt .uint64 (o.exact year.val n.val) := by
  have hwidth : CTy.uint64.width ≤ (CTy.usual .uint64 t).width := CTy.width_le_usual_left _ _
  refine ⟨_, (o.run_eq_arith year n).trans (CInt.result_of_unsigned h _), ?_⟩
  rw [CInt.cast_ofInt hwidth, CInt.ofInt_eq_ofInt]
  exact o.exact_modEq (CInt.val_cast_modEq year hwidth) (CInt.val_cast_modEq n hwidth)

theorem opYear_eq (o : Op) (x : YearMonthDay) (d : CalendarDuration .Year) :
    x.opYear o d = some { x with year := .ofInt .uint64 (o.exact x.year.val d.value.val) } := by
  obtain ⟨r, hr, hcast⟩ := year_op o x.year d.value rfl
  rw [← hcast]
  exact congrArg (Option.bind · _) hr

/-- The months that are split into years and a remainder. -/
def monthSum (x : YearMonthDay) (d : CalendarDuration .Month) : Int := d.value.val + x.month.val

theorem month_bounds (x : YearMonthDay) : 0 ≤ x.month.val ∧ x.month.val ≤ 255 :=
  x.month.val_inRange

theorem inRange_month (x : YearMonthDay) : CTy.int64.InRange x.month.val := by
  obtain ⟨hlo, hhi⟩ := x.month_bounds
  have hmin : CTy.int64.min ≤ 0 := by decide
  have hmax : 255 ≤ CTy.int64.max := by decide
  exact ⟨hmin.trans hlo, hhi.trans hmax⟩

/-- A twelfth of what fits fits. -/
theorem inRange_twelfth {z : Int} (h : CTy.int64.InRange z) : CTy.int64.InRange (z.tdiv 12) :=
  (CTy.inRange_tdiv_iff h (by decide) (by decide)).mpr fun hover => absurd hover.2.2 (by decide)

theorem addMonth_eq {x : YearMonthDay} {d : CalendarDuration .Month}
    (h : CTy.int64.InRange (x.monthSum d)) :
    x.addMonth d = some { x with
      year := .ofInt .uint64 (x.year.val + (x.monthSum d).tdiv 12)
      month := .ofInt .uint8 ((x.monthSum d).tmod 12) } := by
  have htwelve : twelve.val = 12 := by decide
  obtain ⟨sum, hsum, hval⟩ : ∃ sum, CInt.add d.value x.month = some sum ∧ sum.val = x.monthSum d :=
    CInt.arith_exact (f := (· + ·)) d.value.val_inRange x.inRange_month h
  have hcache : (sum.cast .int64).val = x.monthSum d := by
    rw [CInt.val_cast (by rwa [hval]), hval]
  obtain ⟨years, hyears, hquot⟩ := CInt.div_exact (x := sum.cast .int64) (y := twelve)
    (by rw [hcache]; exact h) (by decide) (by decide)
    (by rw [hcache, htwelve]; exact inRange_twelfth h)
  obtain ⟨month, hmonth, hrest⟩ := CInt.mod_exact (x := sum.cast .int64) (y := twelve)
    (by rw [hcache]; exact h) (by decide) (by decide)
    (by rw [hcache, htwelve]; exact inRange_twelfth h)
  obtain ⟨year, hyear, hcast⟩ := year_op .add x.year years rfl
  rw [hcache, htwelve] at hquot hrest
  rw [hquot] at hcast
  have hmonth' : month.cast .uint8 = .ofInt .uint8 ((x.monthSum d).tmod 12) := by
    rw [CInt.cast, hrest]
  refine Option.bind_eq_some_iff.mpr ⟨sum, hsum, Option.bind_eq_some_iff.mpr ⟨years, hyears,
    Option.bind_eq_some_iff.mpr ⟨year, hyear, Option.bind_eq_some_iff.mpr ⟨month, hmonth, ?_⟩⟩⟩⟩
  show some { x with year := year.cast .uint64, month := month.cast .uint8 } = _
  rw [hcast, hmonth']
  rfl

/-- Where the member is defined, its sum did not overflow. -/
theorem inRange_of_addMonth {x y : YearMonthDay} {d : CalendarDuration .Month}
    (h : x.addMonth d = some y) : CTy.int64.InRange (x.monthSum d) := by
  obtain ⟨sum, hsum, -⟩ := Option.bind_eq_some_iff.mp h
  have hrange := (CInt.result_eq_some.mp hsum).1 rfl
  have hd : (d.value.cast (CTy.usual .int64 .uint8)).val = d.value.val :=
    CInt.val_cast d.value.val_inRange
  have hm : (x.month.cast (CTy.usual .int64 .uint8)).val = x.month.val :=
    CInt.val_cast x.inRange_month
  rw [hd, hm] at hrange
  exact hrange

/-- The months since year 0 began, and one. -/
def months (x : YearMonthDay) : Int := 12 * x.year.val + x.month.val

end YearMonthDay

-- ---------------------------------------------------------------------------
-- Sequences of calls
-- ---------------------------------------------------------------------------

/-- A call of one of the members. -/
inductive CalendarCall
  | addYear (d : CalendarDuration .Year)
  | subYear (d : CalendarDuration .Year)
  | addMonth (d : CalendarDuration .Month)

namespace CalendarCall

def apply (x : YearMonthDay) : CalendarCall → Option YearMonthDay
  | addYear d => x.addYear d
  | subYear d => x.subYear d
  | addMonth d => x.addMonth d

/-- The months a call is meant to move the calendar by. -/
def months : CalendarCall → Int
  | addYear d => 12 * d.value.val
  | subYear d => -(12 * d.value.val)
  | addMonth d => d.value.val

/-- The year a call computes, before it is reduced modulo `2 ^ 64`. -/
def exactYear (x : YearMonthDay) : CalendarCall → Int
  | addYear d => x.year.val + d.value.val
  | subYear d => x.year.val - d.value.val
  | addMonth d => x.year.val + (x.monthSum d).tdiv 12

/-- The sum of a month addition is positive and not a multiple of 12. -/
def Regular (x : YearMonthDay) : CalendarCall → Prop
  | addYear _ => True
  | subYear _ => True
  | addMonth d => 0 < x.monthSum d ∧ ¬ 12 ∣ x.monthSum d

end CalendarCall

/-- A call without an overflow, whose year is not below 0. -/
def CalendarStep (x : YearMonthDay) (c : CalendarCall) (y : YearMonthDay) : Prop :=
  c.apply x = some y ∧ CTy.uint64.InRange (c.exactYear x)

instance (x : YearMonthDay) (c : CalendarCall) (y : YearMonthDay) :
    Decidable (CalendarStep x c y) :=
  inferInstanceAs (Decidable (_ ∧ _))

/-- What the calls `cs` are meant to leave of `x₀`. -/
structure Normalised (x₀ : YearMonthDay) (cs : List CalendarCall) (x : YearMonthDay) : Prop where
  month  : 1 ≤ x.month.val ∧ x.month.val ≤ 12
  day    : x.day = x₀.day
  months : x.months = x₀.months + (cs.map CalendarCall.months).sum

/-- The remainder of a sum of months, stored in a byte, is a month from 1 to 12
iff the sum is positive and not a multiple of 12. -/
theorem month_of_sum (z : Int) :
    (1 ≤ z.tmod 12 % 256 ∧ z.tmod 12 % 256 ≤ 12) ↔ 0 < z ∧ ¬ 12 ∣ z := by
  rcases Int.lt_or_le z 0 with hneg | hpos
  · -- the remainder is negative or zero
    have hrest : z.tmod 12 = -(-z % 12) := by
      rw [← Int.tmod_eq_emod_of_nonneg (by omega), Int.neg_tmod, Int.neg_neg]
    omega
  · rw [Int.tmod_eq_emod_of_nonneg hpos]
    omega

/-- A step that changes the year by `n` and keeps the month and the day. -/
theorem Normalised.year {x₀ x : YearMonthDay} {cs : List CalendarCall} {c : CalendarCall} {n : Int}
    (h : Normalised x₀ cs x) (hrange : CTy.uint64.InRange (x.year.val + n))
    (hmonths : c.months = 12 * n) :
    Normalised x₀ (cs ++ [c]) { x with year := .ofInt .uint64 (x.year.val + n) } where
  month := h.month
  day := h.day
  months := by
    have hsofar := h.months
    show 12 * (CInt.ofInt .uint64 (x.year.val + n)).val + x.month.val = _
    rw [CInt.val_ofInt hrange, List.map_append, List.sum_append, List.map_singleton,
      List.sum_singleton, hmonths]
    unfold YearMonthDay.months at hsofar ⊢
    omega

/-- A step that splits a regular sum of months. -/
theorem Normalised.month_sum {x₀ x : YearMonthDay} {cs : List CalendarCall}
    {d : CalendarDuration .Month} (h : Normalised x₀ cs x)
    (hrange : CTy.uint64.InRange (x.year.val + (x.monthSum d).tdiv 12))
    (hpos : 0 < x.monthSum d) (hrest : ¬ 12 ∣ x.monthSum d) :
    Normalised x₀ (cs ++ [.addMonth d]) { x with
      year := .ofInt .uint64 (x.year.val + (x.monthSum d).tdiv 12)
      month := .ofInt .uint8 ((x.monthSum d).tmod 12) } := by
  have hmonth : 1 ≤ (x.monthSum d).tmod 12 ∧ (x.monthSum d).tmod 12 ≤ 12 := by
    rw [Int.tmod_eq_emod_of_nonneg hpos.le]
    omega
  have hbyte : CTy.uint8.InRange ((x.monthSum d).tmod 12) :=
    ⟨Int.le_trans (by decide) hmonth.1, hmonth.2.trans (by decide)⟩
  refine ⟨?_, h.day, ?_⟩
  · show 1 ≤ (CInt.ofInt .uint8 ((x.monthSum d).tmod 12)).val ∧
      (CInt.ofInt .uint8 ((x.monthSum d).tmod 12)).val ≤ 12
    rwa [CInt.val_ofInt hbyte]
  · have hsofar := h.months
    have hsplit := Int.mul_tdiv_add_tmod (x.monthSum d) 12
    show 12 * (CInt.ofInt .uint64 (x.year.val + (x.monthSum d).tdiv 12)).val +
      (CInt.ofInt .uint8 ((x.monthSum d).tmod 12)).val = _
    rw [CInt.val_ofInt hrange, CInt.val_ofInt hbyte, List.map_append, List.sum_append,
      List.map_singleton, List.sum_singleton]
    unfold YearMonthDay.months at hsofar ⊢
    unfold YearMonthDay.monthSum at hsplit ⊢
    show _ = _ + (_ + d.value.val)
    omega

/-- **One step.** It keeps the calendar normalised iff its sum of months is regular. -/
theorem step_normalised_iff {x₀ x y : YearMonthDay} {cs : List CalendarCall} {c : CalendarCall}
    (h : Normalised x₀ cs x) (hstep : CalendarStep x c y) :
    Normalised x₀ (cs ++ [c]) y ↔ c.Regular x := by
  obtain ⟨happly, hyear⟩ := hstep
  cases c with
  | addYear d =>
    obtain rfl := Option.some.inj ((x.opYear_eq .add d).symm.trans happly)
    exact iff_of_true (h.year hyear rfl) trivial
  | subYear d =>
    obtain rfl := Option.some.inj ((x.opYear_eq .sub d).symm.trans happly)
    have hmonths : (CalendarCall.subYear d).months = 12 * -d.value.val := (Int.mul_neg _ _).symm
    exact iff_of_true (h.year hyear hmonths) trivial
  | addMonth d =>
    have heq := YearMonthDay.addMonth_eq (YearMonthDay.inRange_of_addMonth happly)
    obtain rfl := Option.some.inj (heq.symm.trans happly)
    constructor
    · intro hnorm
      have hmonth := hnorm.month
      rw [CInt.val_ofInt_of_unsigned rfl] at hmonth
      exact (month_of_sum _).mp hmonth
    · rintro ⟨hpos, hrest⟩
      exact h.month_sum hyear hpos hrest

-- ---------------------------------------------------------------------------
-- The theorem
-- ---------------------------------------------------------------------------

/-- **Calendar normalisation.** Over a sequence of calls, the month stays between
1 and 12, the day stays, and the months add up after every step iff no sum of
months on the way is zero, negative or a multiple of 12. -/
theorem calendar_normalised_iff {x₀ y : YearMonthDay} {cs : List CalendarCall}
    (hstart : 1 ≤ x₀.month.val ∧ x₀.month.val ≤ 12) :
    (∀ pre x c x', Run.Passes CalendarStep x₀ cs y pre x c x' → Normalised x₀ (pre ++ [c]) x') ↔
      ∀ pre x c x', Run.Passes CalendarStep x₀ cs y pre x c x' → c.Regular x :=
  Run.always_iff ⟨hstart, rfl, (add_zero _).symm⟩ fun _ _ _ _ h hst => step_normalised_iff h hst

/-- Five months after August 2026, three years back, and ten months on. -/
theorem calendar_normalised_iff_november :
    Run CalendarStep ⟨.ofInt _ 2026, .ofInt _ 8, .ofInt _ 29⟩
      [.addMonth ⟨.ofInt _ 5⟩, .subYear ⟨.ofInt _ 3⟩, .addMonth ⟨.ofInt _ 10⟩]
      ⟨.ofInt _ 2024, .ofInt _ 11, .ofInt _ 29⟩ ∧
    ∀ pre x c x', Run.Passes CalendarStep ⟨.ofInt _ 2026, .ofInt _ 8, .ofInt _ 29⟩
      [.addMonth ⟨.ofInt _ 5⟩, .subYear ⟨.ofInt _ 3⟩, .addMonth ⟨.ofInt _ 10⟩]
      ⟨.ofInt _ 2024, .ofInt _ 11, .ofInt _ 29⟩ pre x c x' →
        Normalised ⟨.ofInt _ 2026, .ofInt _ 8, .ofInt _ 29⟩ (pre ++ [c]) x' := by
  have hfirst : CalendarStep ⟨.ofInt _ 2026, .ofInt _ 8, .ofInt _ 29⟩ (.addMonth ⟨.ofInt _ 5⟩)
      ⟨.ofInt _ 2027, .ofInt _ 1, .ofInt _ 29⟩ := by decide
  have hsecond : CalendarStep ⟨.ofInt _ 2027, .ofInt _ 1, .ofInt _ 29⟩ (.subYear ⟨.ofInt _ 3⟩)
      ⟨.ofInt _ 2024, .ofInt _ 1, .ofInt _ 29⟩ := by decide
  have hthird : CalendarStep ⟨.ofInt _ 2024, .ofInt _ 1, .ofInt _ 29⟩ (.addMonth ⟨.ofInt _ 10⟩)
      ⟨.ofInt _ 2024, .ofInt _ 11, .ofInt _ 29⟩ := by decide
  refine ⟨.cons hfirst (.cons hsecond (.single hthird)), ?_⟩
  refine (calendar_normalised_iff (by decide)).mpr ?_
  rintro pre x c x' ⟨post, hes, hpre, -, -⟩
  rcases pre with - | ⟨a, - | ⟨b, - | ⟨d, pre⟩⟩⟩
  · obtain ⟨rfl, -⟩ := List.cons.inj hes
    cases hpre
    show 0 < YearMonthDay.monthSum _ _ ∧ ¬ 12 ∣ YearMonthDay.monthSum _ _
    decide
  · obtain ⟨-, hrest⟩ := List.cons.inj hes
    obtain ⟨rfl, -⟩ := List.cons.inj hrest
    trivial
  · simp only [List.cons_append, List.nil_append, List.cons.injEq] at hes
    obtain ⟨rfl, rfl, rfl, -⟩ := hes
    cases hpre with
    | cons hstep hpre =>
      obtain rfl := Option.some.inj (hfirst.1.symm.trans hstep.1)
      cases hpre with
      | cons hstep hpre =>
        obtain rfl := Option.some.inj (hsecond.1.symm.trans hstep.1)
        cases hpre
        show 0 < YearMonthDay.monthSum _ _ ∧ ¬ 12 ∣ YearMonthDay.monthSum _ _
        decide
  · simp at hes

/-- A month addition of zero moves December 2026 to month 0 of 2027. -/
theorem december_becomes_month_zero :
    CalendarStep ⟨.ofInt _ 2026, .ofInt _ 12, .ofInt _ 29⟩ (.addMonth ⟨.ofInt _ 0⟩)
      ⟨.ofInt _ 2027, .ofInt _ 0, .ofInt _ 29⟩ ∧
    ¬ Normalised ⟨.ofInt _ 2026, .ofInt _ 12, .ofInt _ 29⟩ [.addMonth ⟨.ofInt _ 0⟩]
      ⟨.ofInt _ 2027, .ofInt _ 0, .ofInt _ 29⟩ :=
  ⟨by decide, fun h => absurd h.month (by decide)⟩

end Destiny.Time
