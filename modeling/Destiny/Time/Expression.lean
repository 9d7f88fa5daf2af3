import Mathlib.Algebra.BigOperators.Group.List.Basic
import Destiny.Time.Arithmetic

/-!
# Time points and durations — expressions

Expressions of any shape over the operators `+` and `-`. The compiler picks an
overload at every node (`Value.op`), and with it the type of the node; the
twelve overloads together must not lose a second on the way.

* `Expr.eval`       — what the code computes, node by node.
* `Expr.signedSum`  — what it should stand for: the leaves' seconds, each with
  its sign.
* `eval_exact`      — in range they agree, and the result is in the finest unit.
* `mixed_unit_arithmetic_exact` — with the consequences for regrouping,
  reordering, and adding and taking away the same duration.
-/

namespace Destiny.Time

open Foundation

-- ---------------------------------------------------------------------------
-- Values and overload resolution
-- ---------------------------------------------------------------------------

/-- What an expression can be: a time point or a duration. -/
inductive Kind
  | point | duration
deriving DecidableEq

/-- A time point or a duration, with its unit. -/
inductive Value
  | point (T : AutoConvertDurationType) (a : Point T)
  | duration (T : AutoConvertDurationType) (a : Duration T)

namespace Value

def kind : Value → Kind
  | .point _ _ => .point
  | .duration _ _ => .duration

def unit : Value → AutoConvertDurationType
  | .point T _ => T
  | .duration T _ => T

def seconds : Value → Int
  | .point _ a => a.seconds
  | .duration _ a => a.seconds

/-- `a + b`: the overload for the kinds and units of the operands, if there is one. -/
def add : Value → Value → Option Value
  | .point T a, .duration U b =>
    if h : U = T then (a.addDuration (h ▸ b)).map (.point T)
    else (a.addDurationMixed b).map (.point (ResType T U))
  | .duration T a, .point U b =>
    if h : U = T then (a.addPoint (h ▸ b)).map (.point T)
    else (a.addPointMixed b).map (.point (ResType T U))
  | .duration T a, .duration U b =>
    if h : U = T then (a.addDuration (h ▸ b)).map (.duration T)
    else (a.addDurationMixed b).map (.duration (ResType T U))
  | .point _ _, .point _ _ => none

/-- `a - b` -/
def sub : Value → Value → Option Value
  | .point T a, .duration U b =>
    if h : U = T then (a.subDuration (h ▸ b)).map (.point T)
    else (a.subDurationMixed b).map (.point (ResType T U))
  | .duration T a, .point U b =>
    if h : U = T then (a.subPoint (h ▸ b)).map (.point T)
    else (a.subPointMixed b).map (.point (ResType T U))
  | .duration T a, .duration U b =>
    if h : U = T then (a.subDuration (h ▸ b)).map (.duration T)
    else (a.subDurationMixed b).map (.duration (ResType T U))
  | .point _ _, .point _ _ => none

def op : Op → Value → Value → Option Value
  | .add => add
  | .sub => sub

end Value

/-- The kind of a sum or difference; there is no overload for two points. -/
def Kind.op : Kind → Kind → Option Kind
  | .point, .duration => some .point
  | .duration, .point => some .point
  | .duration, .duration => some .duration
  | .point, .point => none

/-- **One operator.** In range, an accepted operator is exact and gives the
finer unit. -/
theorem Value.op_spec {o : Op} {a b : Value} {k : Kind} (hkind : a.kind.op b.kind = some k)
    (ha : CTy.int64.InRange a.seconds) (hb : CTy.int64.InRange b.seconds)
    (h : CTy.int64.InRange (o.exact a.seconds b.seconds)) :
    ∃ v, Value.op o a b = some v ∧ v.kind = k ∧ v.unit = ResType a.unit b.unit ∧
      v.seconds = o.exact a.seconds b.seconds := by
  cases a with
  | point T a =>
    cases b with
    | point U b => simp [Value.kind, Kind.op] at hkind
    | duration U b =>
      obtain rfl := Option.some.inj hkind
      by_cases hunit : U = T
      · subst hunit
        obtain ⟨r, hr, hsec⟩ := Point.opDuration_spec h
        refine ⟨.point U r, ?_, rfl, (resType_self U).symm, hsec⟩
        cases o <;> simp [Value.op, Value.add, Value.sub, Point.addDuration, Point.subDuration, hr]
      · obtain ⟨r, hr, hsec⟩ := Point.opDurationMixed_spec ha hb h
        refine ⟨.point (ResType T U) r, ?_, rfl, rfl, hsec⟩
        cases o <;> simp [Value.op, Value.add, Value.sub, Point.addDurationMixed,
          Point.subDurationMixed, hr, hunit]
  | duration T a =>
    cases b with
    | point U b =>
      obtain rfl := Option.some.inj hkind
      by_cases hunit : U = T
      · subst hunit
        obtain ⟨r, hr, hsec⟩ := Duration.opPoint_spec h
        refine ⟨.point U r, ?_, rfl, (resType_self U).symm, hsec⟩
        cases o <;> simp [Value.op, Value.add, Value.sub, Duration.addPoint, Duration.subPoint, hr]
      · obtain ⟨r, hr, hsec⟩ := Duration.opPointMixed_spec ha hb h
        refine ⟨.point (ResType T U) r, ?_, rfl, rfl, hsec⟩
        cases o <;> simp [Value.op, Value.add, Value.sub, Duration.addPointMixed,
          Duration.subPointMixed, hr, hunit]
    | duration U b =>
      obtain rfl := Option.some.inj hkind
      by_cases hunit : U = T
      · subst hunit
        obtain ⟨r, hr, hsec⟩ := Duration.opDuration_spec h
        refine ⟨.duration U r, ?_, rfl, (resType_self U).symm, hsec⟩
        cases o <;> simp [Value.op, Value.add, Value.sub, Duration.addDuration,
          Duration.subDuration, hr]
      · obtain ⟨r, hr, hsec⟩ := Duration.opDurationMixed_spec ha hb h
        refine ⟨.duration (ResType T U) r, ?_, rfl, rfl, hsec⟩
        cases o <;> simp [Value.op, Value.add, Value.sub, Duration.addDurationMixed,
          Duration.subDurationMixed, hr, hunit]

/-- Kind, unit and seconds determine a value. -/
theorem Value.ext {a b : Value} (hkind : a.kind = b.kind) (hunit : a.unit = b.unit)
    (hsec : a.seconds = b.seconds) : a = b := by
  have hpos : ∀ T, (scaleNat T : Int) ≠ 0 := fun T => by exact_mod_cast (scaleNat_pos T).ne'
  cases a with
  | point T a =>
    cases b with
    | duration U b => simp [Value.kind] at hkind
    | point U b =>
      obtain rfl : T = U := hunit
      have hsigned : a.signed = b.signed := mul_right_cancel₀ (hpos T) hsec
      have hcast : a.value.cast .int64 = b.value.cast .int64 := CInt.val_injective hsigned
      have hvalue : a.value = b.value := by
        rw [← CInt.cast_self a.value, ← CInt.cast_self b.value,
          ← CInt.cast_cast (u := .int64) (v := .uint64) (by decide) a.value, hcast,
          CInt.cast_cast (by decide)]
      exact congrArg (Value.point T) (Point.ext hvalue)
  | duration T a =>
    cases b with
    | point U b => simp [Value.kind] at hkind
    | duration U b =>
      obtain rfl : T = U := hunit
      have hvalue : a.value = b.value := CInt.val_injective (mul_right_cancel₀ (hpos T) hsec)
      exact congrArg (Value.duration T) (Duration.ext hvalue)

-- ---------------------------------------------------------------------------
-- Expressions
-- ---------------------------------------------------------------------------

/-- Expressions over `+` and `-`. -/
inductive Expr
  | leaf (v : Value)
  | op (o : Op) (l r : Expr)

namespace Expr

/-- The kind of the result, if overloads accept the expression. -/
def kind? : Expr → Option Kind
  | .leaf v => some v.kind
  | .op _ l r => do
    let a ← l.kind?
    let b ← r.kind?
    a.op b

/-- What the code computes. -/
def eval : Expr → Option Value
  | .leaf v => some v
  | .op o l r => do
    let a ← l.eval
    let b ← r.eval
    Value.op o a b

/-- The leaves, each with the sign it counts with. -/
def terms : Expr → List (Int × Value)
  | .leaf v => [(1, v)]
  | .op .add l r => l.terms ++ r.terms
  | .op .sub l r => l.terms ++ r.terms.map fun x => (-x.1, x.2)

/-- The signed sum of the leaves' seconds. -/
def signedSum (e : Expr) : Int := (e.terms.map fun x => x.1 * x.2.seconds).sum

/-- The seconds of every subexpression fit in `std::int64_t`. -/
def InBounds : Expr → Prop
  | .leaf v => CTy.int64.InRange v.seconds
  | .op o l r => CTy.int64.InRange (Expr.op o l r).signedSum ∧ l.InBounds ∧ r.InBounds

instance instDecidableInBounds : (e : Expr) → Decidable e.InBounds
  | .leaf v => inferInstanceAs (Decidable (CTy.int64.InRange v.seconds))
  | .op o l r =>
    have := instDecidableInBounds l
    have := instDecidableInBounds r
    inferInstanceAs (Decidable (CTy.int64.InRange (Expr.op o l r).signedSum ∧ _ ∧ _))

/-- `T` is the finest unit that occurs in the expression. -/
def IsFinest (e : Expr) (T : AutoConvertDurationType) : Prop :=
  (∃ x ∈ e.terms, x.2.unit = T) ∧ ∀ x ∈ e.terms, scaleNat T ≤ scaleNat x.2.unit

@[simp] theorem signedSum_leaf (v : Value) : (leaf v).signedSum = v.seconds := by
  simp [signedSum, terms]

theorem signedSum_op (o : Op) (l r : Expr) :
    (op o l r).signedSum = o.exact l.signedSum r.signedSum := by
  cases o with
  | add => simp [signedSum, terms, Op.exact]
  | sub =>
    have hneg : ∀ xs : List (Int × Value),
        ((xs.map fun x => (-x.1, x.2)).map fun x => x.1 * x.2.seconds).sum =
          -(xs.map fun x => x.1 * x.2.seconds).sum := by
      intro xs
      induction xs with
      | nil => rfl
      | cons x xs ih =>
        rw [List.map_cons, List.map_cons, List.map_cons, List.sum_cons, List.sum_cons, ih]
        show -x.1 * x.2.seconds + -_ = _
        rw [neg_mul, neg_add]
    rw [signedSum, terms, List.map_append, List.sum_append, hneg]
    rfl

theorem InBounds.signedSum {e : Expr} (h : e.InBounds) : CTy.int64.InRange e.signedSum := by
  cases e with
  | leaf v =>
    rw [signedSum_leaf]
    exact h
  | op o l r => exact h.1

/-- The leaves of a node are those of its operands. -/
theorem mem_units_op {o : Op} {l r : Expr} {T : AutoConvertDurationType} :
    (∃ x ∈ (op o l r).terms, x.2.unit = T) ↔
      (∃ x ∈ l.terms, x.2.unit = T) ∨ ∃ x ∈ r.terms, x.2.unit = T := by
  cases o <;> simp [terms, or_and_right, exists_or]

theorem isFinest_op {o : Op} {l r : Expr} {T U : AutoConvertDurationType}
    (hl : l.IsFinest T) (hr : r.IsFinest U) : (op o l r).IsFinest (ResType T U) := by
  constructor
  · rw [mem_units_op, resType_eq]
    split
    · exact Or.inl hl.1
    · exact Or.inr hr.1
  · intro x hx
    have hmin := scaleNat_resType T U
    rcases mem_units_op.mp ⟨x, hx, rfl⟩ with ⟨y, hy, hunit⟩ | ⟨y, hy, hunit⟩
    · have hle := hl.2 y hy
      rw [hunit] at hle
      omega
    · have hle := hr.2 y hy
      rw [hunit] at hle
      omega

/-- **An accepted expression in range is exact.** -/
theorem eval_exact {e : Expr} {k : Kind} (hkind : e.kind? = some k) (hfit : e.InBounds) :
    ∃ v, e.eval = some v ∧ v.kind = k ∧ e.IsFinest v.unit ∧ v.seconds = e.signedSum := by
  induction e generalizing k with
  | leaf v =>
    refine ⟨v, rfl, Option.some.inj hkind, ?_, (signedSum_leaf v).symm⟩
    simp [IsFinest, terms]
  | op o l r ihl ihr =>
    simp only [kind?, Option.bind_eq_bind, Option.bind_eq_some_iff] at hkind
    obtain ⟨kl, hkl, kr, hkr, hop⟩ := hkind
    obtain ⟨hsum, hfitl, hfitr⟩ := hfit
    obtain ⟨a, ha, hka, hfinea, hseca⟩ := ihl hkl hfitl
    obtain ⟨b, hb, hkb, hfineb, hsecb⟩ := ihr hkr hfitr
    rw [signedSum_op, ← hseca, ← hsecb] at hsum
    have hina : CTy.int64.InRange a.seconds := by
      rw [hseca]
      exact hfitl.signedSum
    have hinb : CTy.int64.InRange b.seconds := by
      rw [hsecb]
      exact hfitr.signedSum
    obtain ⟨v, hv, hkv, hunit, hsec⟩ := Value.op_spec (o := o) (by rw [hka, hkb, hop]) hina hinb hsum
    refine ⟨v, ?_, hkv, ?_, ?_⟩
    · rw [eval, ha, hb]
      exact hv
    · rw [hunit]
      exact isFinest_op hfinea hfineb
    · rw [hsec, signedSum_op, hseca, hsecb]

/-- An accepted expression is a point iff one of its leaves is. -/
theorem kind_point_iff {e : Expr} {k : Kind} (hkind : e.kind? = some k) :
    k = .point ↔ ∃ x ∈ e.terms, x.2.kind = .point := by
  induction e generalizing k with
  | leaf v =>
    obtain rfl := Option.some.inj hkind
    simp [terms]
  | op o l r ihl ihr =>
    simp only [kind?, Option.bind_eq_bind, Option.bind_eq_some_iff] at hkind
    obtain ⟨kl, hkl, kr, hkr, hop⟩ := hkind
    have hterms : (∃ x ∈ (Expr.op o l r).terms, x.2.kind = .point) ↔
        (∃ x ∈ l.terms, x.2.kind = .point) ∨ ∃ x ∈ r.terms, x.2.kind = .point := by
      cases o <;> simp [terms, or_and_right, exists_or]
    rw [hterms, ← ihl hkl, ← ihr hkr]
    cases kl <;> cases kr <;> cases k <;> simp [Kind.op] at hop ⊢

/-- The finest unit depends on the leaves only. -/
theorem isFinest_unique {e e' : Expr} {T U : AutoConvertDurationType} (hperm : e'.terms.Perm e.terms)
    (hT : e.IsFinest T) (hU : e'.IsFinest U) : T = U := by
  obtain ⟨⟨x, hx, rfl⟩, hmin⟩ := hT
  obtain ⟨⟨y, hy, rfl⟩, hmin'⟩ := hU
  have hxy := hmin' x (hperm.mem_iff.mpr hx)
  have hyx := hmin y (hperm.mem_iff.mp hy)
  exact scaleNat_injective (le_antisymm hyx hxy)

end Expr

-- ---------------------------------------------------------------------------
-- Main result
-- ---------------------------------------------------------------------------

/--
**Mixed-unit time arithmetic is exact.** For every expression the overloads
accept, all of whose subexpressions' seconds fit in `std::int64_t`:

* it is defined, a point if one of its leaves is a point and a duration
  otherwise, in the finest unit that occurs in it, and its seconds (a point read
  as two's complement) are the signed sum of the leaves' seconds;
* another such expression with the same signed leaves, in any order and
  grouping, has the same value;
* adding a duration and taking it away again gives the same instant, and so
  does taking it away first.
-/
theorem mixed_unit_arithmetic_exact {e : Expr} {k : Kind} (hkind : e.kind? = some k)
    (hfit : e.InBounds) :
    ∃ v, e.eval = some v ∧ v.kind = k ∧ e.IsFinest v.unit ∧ v.seconds = e.signedSum ∧
      (∀ e' : Expr, e'.kind?.isSome → e'.InBounds → e'.terms.Perm e.terms → e'.eval = some v) ∧
      ∀ (o o' : Op) (d : Expr), o ≠ o' → d.kind? = some .duration → (Expr.op o e d).InBounds →
        ∃ w, (Expr.op o' (.op o e d) d).eval = some w ∧ w.kind = k ∧ w.seconds = v.seconds := by
  obtain ⟨v, hv, hkv, hfine, hsec⟩ := Expr.eval_exact hkind hfit
  refine ⟨v, hv, hkv, hfine, hsec, ?_, ?_⟩
  · intro e' hsome hfit' hperm
    obtain ⟨k', hkind'⟩ := Option.isSome_iff_exists.mp hsome
    obtain ⟨w, hw, hkw, hfine', hsec'⟩ := Expr.eval_exact hkind' hfit'
    have hsum : e'.signedSum = e.signedSum := (hperm.map _).sum_eq
    have hpoint : k' = .point ↔ k = .point := by
      rw [Expr.kind_point_iff hkind', Expr.kind_point_iff hkind]
      simp only [hperm.mem_iff]
    have hkinds : w.kind = v.kind := by
      rw [hkw, hkv]
      cases k' <;> cases k <;> simp_all
    have hunits : w.unit = v.unit := (Expr.isFinest_unique hperm hfine hfine').symm
    rw [hw, Value.ext hkinds hunits (by rw [hsec', hsec, hsum])]
  · intro o o' d hne hkd hbounds
    have hback : (Expr.op o' (.op o e d) d).signedSum = e.signedSum := by
      rw [Expr.signedSum_op, Expr.signedSum_op]
      cases o <;> cases o' <;> first | exact absurd rfl hne | simp [Op.exact]
    have hkind' : (Expr.op o' (.op o e d) d).kind? = some k := by
      simp only [Expr.kind?, hkind, hkd]
      cases k <;> rfl
    have hfit' : (Expr.op o' (.op o e d) d).InBounds := by
      refine ⟨?_, hbounds, hbounds.2.2⟩
      rw [hback]
      exact hfit.signedSum
    obtain ⟨w, hw, hkw, -, hsec'⟩ := Expr.eval_exact hkind' hfit'
    exact ⟨w, hw, hkw, by rw [hsec', hsec, hback]⟩

/-- One hour past the epoch, less a day, plus half an hour: the point lies below
zero on the way. -/
theorem mixed_unit_arithmetic_exact_below_zero :
    let e := Expr.op .add (.op .sub (.leaf (.point .Hour ⟨.ofInt .uint64 1⟩))
      (.leaf (.duration .Day ⟨.ofInt .int64 1⟩))) (.leaf (.duration .Minute ⟨.ofInt .int64 30⟩))
    ∃ v, e.eval = some v ∧ v.kind = .point ∧ v.seconds = 3600 - 86400 + 1800 ∧
      ∃ w, (Expr.op .sub (.op .add e (.leaf (.duration .Day ⟨.ofInt .int64 2⟩)))
        (.leaf (.duration .Day ⟨.ofInt .int64 2⟩))).eval = some w ∧ w.seconds = v.seconds := by
  intro e
  have hfit : e.InBounds := by decide
  obtain ⟨v, hv, hkv, -, hsec, -, hback⟩ := mixed_unit_arithmetic_exact (k := .point) rfl hfit
  have hbounds : (Expr.op .add e (.leaf (.duration .Day ⟨.ofInt .int64 2⟩))).InBounds := by
    decide
  obtain ⟨w, hw, -, hsame⟩ := hback .add .sub (.leaf (.duration .Day ⟨.ofInt .int64 2⟩))
    (by decide) rfl hbounds
  refine ⟨v, hv, hkv, ?_, w, hw, hsame⟩
  rw [hsec]
  decide

end Destiny.Time
