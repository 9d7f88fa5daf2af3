import Destiny.Time.YearMonthDay

/-!
# YearMonthDay — the drift of a calendar

What a sequence of calls leaves of a calendar, irregular sums of months
included. A sum that is negative and not a multiple of 12 has a negative
remainder; stored in a byte it counts 256 months too many, and the next call
starts from there. Sums of zero and positive multiples of 12 only spell a
December as month 0 of the next year, which counts the same.

* `CalendarEvent`         — a call, with the calendar it finds.
* `months_of_apply`       — what one call adds to the months.
* `calendar_drift`        — every run is off by 256 months for each negative
  remainder on the way, modulo the `2 ^ 64` years, and by nothing else.
-/

namespace Destiny.Time

open Foundation

/-- A call, with the calendar it finds. -/
structure CalendarEvent where
  before : YearMonthDay
  call   : CalendarCall

/-- The call has a sum of months that is negative and not a multiple of 12. -/
def CalendarEvent.borrows (e : CalendarEvent) : Bool :=
  match e.call with
  | .addYear _  => false
  | .subYear _  => false
  | .addMonth d => decide (e.before.monthSum d < 0 ∧ ¬ 12 ∣ e.before.monthSum d)

/-- One defined call. -/
def CalendarMoves (x : YearMonthDay) (e : CalendarEvent) (y : YearMonthDay) : Prop :=
  e.before = x ∧ e.call.apply x = some y

instance (x : YearMonthDay) (e : CalendarEvent) (y : YearMonthDay) :
    Decidable (CalendarMoves x e y) :=
  inferInstanceAs (Decidable (_ ∧ _))

/-- The years of all calendars, in months. -/
def period : Int := 12 * 2 ^ 64

-- ---------------------------------------------------------------------------
-- One call
-- ---------------------------------------------------------------------------

theorem months_ofInt_year (x : YearMonthDay) (n : Int) :
    YearMonthDay.months { x with year := .ofInt .uint64 (x.year.val + n) } ≡
      x.months + 12 * n [ZMOD period] := by
  have hyear := (CInt.val_ofInt_modEq (t := .uint64) (x.year.val + n)).mul_left' (c := 12)
  have hsum : x.months + 12 * n = 12 * (x.year.val + n) + x.month.val := by
    unfold YearMonthDay.months
    omega
  rw [hsum]
  exact hyear.add_right x.month.val

/-- The byte that keeps the remainder of a sum of months. -/
theorem remainder_byte (z : Int) : (CInt.ofInt .uint8 (z.tmod 12)).val =
    z.tmod 12 + if z < 0 ∧ ¬ 12 ∣ z then 256 else 0 := by
  rw [CInt.val_ofInt_of_unsigned rfl]
  show z.tmod 12 % 256 = _
  rcases Int.lt_or_le z 0 with hneg | hpos
  · have hrest : z.tmod 12 = -(-z % 12) := by
      rw [← Int.tmod_eq_emod_of_nonneg (by omega), Int.neg_tmod, Int.neg_neg]
    by_cases hdvd : 12 ∣ z
    · rw [if_neg fun h => h.2 hdvd]
      omega
    · rw [if_pos ⟨hneg, hdvd⟩]
      omega
  · rw [if_neg fun h => absurd h.1 (not_lt.mpr hpos), Int.tmod_eq_emod_of_nonneg hpos]
    omega

/-- A split sum of months. -/
theorem months_of_sum (x : YearMonthDay) (d : CalendarDuration .Month) :
    YearMonthDay.months { x with
      year := .ofInt .uint64 (x.year.val + (x.monthSum d).tdiv 12)
      month := .ofInt .uint8 ((x.monthSum d).tmod 12) } ≡
    x.months + d.value.val + (if x.monthSum d < 0 ∧ ¬ 12 ∣ x.monthSum d then 256 else 0)
      [ZMOD period] := by
  have hyear := (CInt.val_ofInt_modEq (t := .uint64)
    (x.year.val + (x.monthSum d).tdiv 12)).mul_left' (c := 12)
  have hsplit := Int.mul_tdiv_add_tmod (x.monthSum d) 12
  have htotal : x.months + d.value.val +
      (if x.monthSum d < 0 ∧ ¬ 12 ∣ x.monthSum d then 256 else 0) =
      12 * (x.year.val + (x.monthSum d).tdiv 12) +
        (CInt.ofInt .uint8 ((x.monthSum d).tmod 12)).val := by
    rw [remainder_byte]
    unfold YearMonthDay.months
    have hsum : x.monthSum d = d.value.val + x.month.val := rfl
    omega
  rw [htotal]
  exact hyear.add_right _

/-- What a call does: it changes the year alone, or splits a sum of months. -/
theorem CalendarMoves.cases {x y : YearMonthDay} {e : CalendarEvent} (h : CalendarMoves x e y) :
    (∃ n, e.call.months = 12 * n ∧ e.borrows = false ∧
      y = { x with year := .ofInt .uint64 (x.year.val + n) }) ∨
    ∃ d, e.call.months = d.value.val ∧
      e.borrows = decide (x.monthSum d < 0 ∧ ¬ 12 ∣ x.monthSum d) ∧
      y = { x with
        year := .ofInt .uint64 (x.year.val + (x.monthSum d).tdiv 12)
        month := .ofInt .uint8 ((x.monthSum d).tmod 12) } := by
  obtain ⟨rfl, happly⟩ := h
  obtain ⟨x, c⟩ := e
  cases c with
  | addYear d =>
    obtain rfl := Option.some.inj ((x.opYear_eq .add d).symm.trans happly)
    exact Or.inl ⟨d.value.val, rfl, rfl, rfl⟩
  | subYear d =>
    obtain rfl := Option.some.inj ((x.opYear_eq .sub d).symm.trans happly)
    exact Or.inl ⟨-d.value.val, (Int.mul_neg _ _).symm, rfl, rfl⟩
  | addMonth d =>
    have heq := YearMonthDay.addMonth_eq (YearMonthDay.inRange_of_addMonth happly)
    obtain rfl := Option.some.inj (heq.symm.trans happly)
    exact Or.inr ⟨d, rfl, rfl, rfl⟩

/-- **One call** adds its months, and 256 more for a negative remainder. -/
theorem months_of_apply {x y : YearMonthDay} {e : CalendarEvent} (h : CalendarMoves x e y) :
    y.months ≡ x.months + e.call.months + (if e.borrows then 256 else 0) [ZMOD period] := by
  obtain ⟨n, hmonths, hborrows, rfl⟩ | ⟨d, hmonths, hborrows, rfl⟩ := h.cases
  · rw [hmonths, hborrows, if_neg Bool.false_ne_true, add_zero]
    exact months_ofInt_year x n
  · rw [hmonths, hborrows]
    simpa only [decide_eq_true_eq] using months_of_sum x d

/-- The months that a month addition can leave. -/
def Remainder (x : YearMonthDay) : Prop := x.month.val ≤ 11 ∨ 245 ≤ x.month.val

theorem month_of_apply {x y : YearMonthDay} {e : CalendarEvent} (h : CalendarMoves x e y) :
    y.month = x.month ∨ Remainder y := by
  obtain ⟨n, -, -, rfl⟩ | ⟨d, -, -, rfl⟩ := h.cases
  · exact Or.inl rfl
  · right
    have hlow : -12 < (x.monthSum d).tmod 12 := Int.lt_tmod_of_pos _ (by decide)
    have hhigh : (x.monthSum d).tmod 12 < 12 := Int.tmod_lt_of_pos _ (by decide)
    show (CInt.ofInt .uint8 ((x.monthSum d).tmod 12)).val ≤ 11 ∨
      245 ≤ (CInt.ofInt .uint8 ((x.monthSum d).tmod 12)).val
    rw [CInt.val_ofInt_of_unsigned rfl]
    show (x.monthSum d).tmod 12 % 256 ≤ 11 ∨ 245 ≤ (x.monthSum d).tmod 12 % 256
    omega

theorem day_of_apply {x y : YearMonthDay} {e : CalendarEvent} (h : CalendarMoves x e y) :
    y.day = x.day := by
  obtain ⟨n, -, -, rfl⟩ | ⟨d, -, -, rfl⟩ := h.cases <;> rfl

-- ---------------------------------------------------------------------------
-- Runs
-- ---------------------------------------------------------------------------

/--
**The drift of a calendar.** Over every run of defined calls, from any calendar:

* the months (12 a year, and the month) are the months at the start, plus what
  the calls are meant to add, plus 256 for each call with a negative remainder,
  modulo the `2 ^ 64` years;
* the day stays;
* the month is the one at the start, 0 to 11, or 245 to 255.
-/
theorem calendar_drift {x₀ x : YearMonthDay} {es : List CalendarEvent}
    (h : Run CalendarMoves x₀ es x) :
    x.months ≡ x₀.months + (es.map fun e => e.call.months).sum +
      256 * es.countP CalendarEvent.borrows [ZMOD period] ∧
    x.day = x₀.day ∧ (x.month = x₀.month ∨ Remainder x) := by
  refine h.trace_invariant (P := fun es x => x.months ≡ x₀.months +
    (es.map fun e => e.call.months).sum + 256 * es.countP CalendarEvent.borrows [ZMOD period] ∧
    x.day = x₀.day ∧ (x.month = x₀.month ∨ Remainder x)) ⟨by simp, rfl, Or.inl rfl⟩ ?_
  rintro es x e y - ⟨hmonths, hday, hmonth⟩ hstep
  refine ⟨?_, (day_of_apply hstep).trans hday, ?_⟩
  · have hnext := (months_of_apply hstep).trans ((hmonths.add_right _).add_right _)
    have hcount : ((es ++ [e]).countP CalendarEvent.borrows : Int) =
        es.countP CalendarEvent.borrows + if e.borrows then 1 else 0 := by
      rw [List.countP_append, List.countP_singleton]
      push_cast
      rfl
    refine hnext.trans (congrArg (· % period) ?_)
    rw [List.map_append, List.sum_append, List.map_singleton, List.sum_singleton, hcount]
    split <;> omega
  · rcases month_of_apply hstep with hsame | hrest
    · refine hmonth.imp hsame.trans fun hrest => ?_
      unfold Remainder
      rwa [hsame]
    · exact Or.inr hrest

/-- Five months back from February 2026 and one on: February 2047. -/
theorem calendar_drift_february : ∃ es,
    Run CalendarMoves ⟨.ofInt _ 2026, .ofInt _ 2, .ofInt _ 5⟩ es
      ⟨.ofInt _ 2047, .ofInt _ 2, .ofInt _ 5⟩ ∧
    (es.map fun e => e.call.months) = [-5, 1] ∧
    YearMonthDay.months ⟨.ofInt _ 2047, .ofInt _ 2, .ofInt _ 5⟩ ≡
      YearMonthDay.months ⟨.ofInt _ 2026, .ofInt _ 2, .ofInt _ 5⟩ + -4 + 256 [ZMOD period] := by
  have hrun : Run CalendarMoves ⟨.ofInt _ 2026, .ofInt _ 2, .ofInt _ 5⟩
      [⟨⟨.ofInt _ 2026, .ofInt _ 2, .ofInt _ 5⟩, .addMonth ⟨.ofInt _ (-5)⟩⟩,
       ⟨⟨.ofInt _ 2026, .ofInt _ 253, .ofInt _ 5⟩, .addMonth ⟨.ofInt _ 1⟩⟩]
      ⟨.ofInt _ 2047, .ofInt _ 2, .ofInt _ 5⟩ :=
    .cons (t := ⟨.ofInt _ 2026, .ofInt _ 253, .ofInt _ 5⟩) (by decide) (.single (by decide))
  have hcount : List.countP CalendarEvent.borrows
      [⟨⟨.ofInt _ 2026, .ofInt _ 2, .ofInt _ 5⟩, .addMonth ⟨.ofInt _ (-5)⟩⟩,
       ⟨⟨.ofInt _ 2026, .ofInt _ 253, .ofInt _ 5⟩, .addMonth ⟨.ofInt _ 1⟩⟩] = 1 := by decide
  obtain ⟨hmonths, -, -⟩ := calendar_drift hrun
  rw [hcount] at hmonths
  exact ⟨_, hrun, by decide, hmonths⟩

end Destiny.Time
