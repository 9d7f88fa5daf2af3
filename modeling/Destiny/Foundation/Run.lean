import Mathlib.Algebra.BigOperators.Group.List.Basic
import Mathlib.Data.Finset.Card
import Mathlib.Tactic.Abel

/-!
# Labelled runs

Finite runs of a labelled transition system, and the rules by which facts
about one step become facts about a whole run:

* `Run Step s es t` — the run from `s` to `t` that emits the labels `es`;
* `Reachable Step init` — the states some run leads to;
* `Run.split_cons`, `Run.split_first` — the step that emits a given label, and the
  first one that emits a label of a given kind;
* `Run.invariant` — a property every step keeps holds after every run;
* `Run.trace_invariant` — the same for a property of the state *and* the
  labels emitted so far;
* `Run.always_iff` — a property that a step keeps exactly if a guard holds, after
  every step of a run;
* `Run.balance` — a quantity that every step changes by what its label puts
  in and takes out is, after a run, the initial quantity plus the totals
  (conservation laws and counters are its instances);
* `Run.channel` — the same for lists, where the order counts: what goes in comes
  out in the order in which it went in;
* `Run.restrict`, `Run.countP_add_rank_le`, `Run.exists_settled` — runs whose labels
  all satisfy a predicate; if each such step lowers a rank, they are short and
  some of them cannot be continued;
* `Run.population` — when some members of an unbounded population enter and
  leave a group one at a time, those inside are the entries less the leaves.

The system is arbitrary: a state type, a label type, and a step relation.
-/

namespace Foundation

variable {σ ε : Type*} {Step : σ → ε → σ → Prop}

/-- The runs of a labelled transition system, with the labels they emit. -/
inductive Run (Step : σ → ε → σ → Prop) : σ → List ε → σ → Prop
  | nil (s : σ) : Run Step s [] s
  | cons {s t u : σ} {e : ε} {es : List ε} :
      Step s e t → Run Step t es u → Run Step s (e :: es) u

/-- The states a run from `init` leads to. -/
def Reachable (Step : σ → ε → σ → Prop) (init s : σ) : Prop :=
  ∃ es, Run Step init es s

namespace Run

/-! ## Composition -/

theorem single {s t : σ} {e : ε} (h : Step s e t) : Run Step s [e] t :=
  .cons h (.nil t)

theorem append {s t u : σ} {es fs : List ε}
    (h : Run Step s es t) (h' : Run Step t fs u) : Run Step s (es ++ fs) u := by
  induction h with
  | nil => exact h'
  | cons hstep _ ih => exact .cons hstep (ih h')

theorem snoc {s t u : σ} {es : List ε} {e : ε}
    (h : Run Step s es t) (hstep : Step t e u) : Run Step s (es ++ [e]) u :=
  h.append (.single hstep)

/-- A run over a concatenation passes through a state in between. -/
theorem split {s u : σ} {es fs : List ε} (h : Run Step s (es ++ fs) u) :
    ∃ t, Run Step s es t ∧ Run Step t fs u := by
  induction es generalizing s with
  | nil => exact ⟨s, .nil s, h⟩
  | cons e es ih =>
    cases h with
    | cons hstep hrest =>
      obtain ⟨t, h₁, h₂⟩ := ih hrest
      exact ⟨t, .cons hstep h₁, h₂⟩

/-- A run that emits `e` somewhere takes a step that emits it. -/
theorem split_cons {s u : σ} {es fs : List ε} {e : ε} (h : Run Step s (es ++ e :: fs) u) :
    ∃ m m', Run Step s es m ∧ Step m e m' ∧ Run Step m' fs u := by
  obtain ⟨m, hbefore, hafter⟩ := h.split
  cases hafter with
  | cons hstep hrest => exact ⟨m, _, hbefore, hstep, hrest⟩

/-- A run that emits a label of a kind takes a first step that does. -/
theorem split_first {P : ε → Prop} {s u : σ} {es : List ε} {e : ε} (h : Run Step s es u)
    (hmem : e ∈ es) (he : P e) :
    ∃ pre e m m' post, es = pre ++ e :: post ∧ P e ∧ (∀ e ∈ pre, ¬ P e) ∧
      Run Step s pre m ∧ Step m e m' ∧ Run Step m' post u := by
  induction h with
  | nil => exact absurd hmem List.not_mem_nil
  | @cons s t u e' es hst hrest ih =>
    by_cases hfirst : P e'
    · exact ⟨[], e', s, t, es, rfl, hfirst, List.forall_mem_nil _, .nil s, hst, hrest⟩
    · have htail : e ∈ es := (List.mem_cons.mp hmem).resolve_left fun heq => hfirst (heq ▸ he)
      obtain ⟨pre, f, m, m', post, hes, hf, hpre, hbefore, hstep, hafter⟩ := ih htail
      refine ⟨e' :: pre, f, m, m', post, by rw [hes, List.cons_append], hf, ?_,
        .cons hst hbefore, hstep, hafter⟩
      exact List.forall_mem_cons.mpr ⟨hfirst, hpre⟩

theorem reachable {init s t : σ} {es : List ε}
    (hs : Reachable Step init s) (h : Run Step s es t) : Reachable Step init t := by
  obtain ⟨pre, hpre⟩ := hs
  exact ⟨pre ++ es, hpre.append h⟩

/-! ## Induction rules -/

/-- **Invariant rule.** -/
theorem invariant {I : σ → Prop} (hstep : ∀ s e t, I s → Step s e t → I t)
    {s t : σ} {es : List ε} (h : Run Step s es t) (hs : I s) : I t := by
  induction h with
  | nil => exact hs
  | cons hst _ ih => exact ih (hstep _ _ _ hs hst)

/-- **Trace rule.** Induction on a run from its start, for a property of the
labels emitted so far and the state they led to. -/
theorem trace_invariant {P : List ε → σ → Prop} {s : σ} (hnil : P [] s)
    (hsnoc : ∀ es t e u, Run Step s es t → P es t → Step t e u → P (es ++ [e]) u)
    {es : List ε} {t : σ} (h : Run Step s es t) : P es t := by
  suffices hgen : ∀ {m : σ} {fs : List ε} {u : σ}, Run Step m fs u →
      ∀ pre, Run Step s pre m → P pre m → P (pre ++ fs) u from
    hgen h [] (.nil s) hnil
  intro m fs u hrun
  induction hrun with
  | nil m =>
    intro pre _ hP
    simpa using hP
  | cons hst _ ih =>
    intro pre hpre hP
    have := ih _ (hpre.snoc hst) (hsnoc _ _ _ _ hpre hP hst)
    simpa using this

/-- The run over `es` from `s` to `t` takes the step from `m` to `m'` with the
label `e`, after the labels `pre`. -/
def Passes (Step : σ → ε → σ → Prop) (s : σ) (es : List ε) (t : σ) (pre : List ε) (m : σ) (e : ε)
    (m' : σ) : Prop :=
  ∃ post, es = pre ++ e :: post ∧ Run Step s pre m ∧ Step m e m' ∧ Run Step m' post t

/-- What the steps of a run keep holds before each of them. -/
theorem Passes.before {P : List ε → σ → Prop} {s t : σ} {es : List ε} (hnil : P [] s)
    (hkeep : ∀ pre m e m', Passes Step s es t pre m e m' → P pre m → P (pre ++ [e]) m')
    {pre : List ε} {m m' : σ} {e : ε} (h : Passes Step s es t pre m e m') : P pre m := by
  obtain ⟨post, hes, hpre, hst, hpost⟩ := h
  refine hpre.trace_invariant (P := fun pre m => ∀ rest, es = pre ++ rest → Run Step m rest t →
    P pre m) (fun _ _ _ => hnil) ?_ (e :: post) hes (.cons hst hpost)
  intro pre m e u hpre ih hst rest hes hrest
  rw [List.append_assoc] at hes
  exact hkeep pre m e u ⟨rest, hes, hpre, hst, hrest⟩ (ih (e :: rest) hes (.cons hst hrest))

/-- **Guard rule.** Let a property hold at the start, and let a step from a
state where it holds keep it exactly if a guard holds. Then it holds after
every step of a run iff the guard holds before every step. -/
theorem always_iff {P : List ε → σ → Prop} {G : σ → ε → Prop} {s t : σ} {es : List ε}
    (hnil : P [] s)
    (hstep : ∀ es t e u, P es t → Step t e u → (P (es ++ [e]) u ↔ G t e)) :
    (∀ pre m e m', Passes Step s es t pre m e m' → P (pre ++ [e]) m') ↔
      ∀ pre m e m', Passes Step s es t pre m e m' → G m e := by
  constructor
  · intro hall pre m e m' h
    have hbefore : P pre m := h.before hnil fun pre m e m' h _ => hall pre m e m' h
    obtain ⟨-, -, -, hst, -⟩ := id h
    exact (hstep _ _ _ _ hbefore hst).mp (hall pre m e m' h)
  · intro hguard pre m e m' h
    have hkeep : ∀ pre m e m', Passes Step s es t pre m e m' → P pre m → P (pre ++ [e]) m' := by
      intro pre m e m' h hP
      obtain ⟨-, -, -, hst, -⟩ := id h
      exact (hstep _ _ _ _ hP hst).mpr (hguard pre m e m' h)
    exact hkeep pre m e m' h (h.before hnil hkeep)

/-- **Balance rule.** If every step satisfies `f t + out e = f s + inn e`, a
whole run satisfies the same law for the totals of its labels. -/
theorem balance {M : Type*} [AddCommMonoid M] {I : σ → Prop} (f : σ → M) (inn out : ε → M)
    (hinv : ∀ s e t, I s → Step s e t → I t)
    (hstep : ∀ s e t, I s → Step s e t → f t + out e = f s + inn e)
    {s t : σ} {es : List ε} (h : Run Step s es t) (hs : I s) :
    f t + (es.map out).sum = f s + (es.map inn).sum := by
  induction h with
  | nil => simp
  | @cons s m u e es hst _ ih =>
    have hrest := ih (hinv _ _ _ hs hst)
    have hone := hstep _ _ _ hs hst
    rw [List.map_cons, List.map_cons, List.sum_cons, List.sum_cons]
    calc f u + (out e + (es.map out).sum)
        = (f u + (es.map out).sum) + out e := by abel
      _ = (f m + (es.map inn).sum) + out e := by rw [hrest]
      _ = (f m + out e) + (es.map inn).sum := by abel
      _ = (f s + inn e) + (es.map inn).sum := by rw [hone]
      _ = f s + (inn e + (es.map inn).sum) := by abel

/-- **Counting rule.** The balance of a natural number that goes up by one with
the labels in `inn` and down by one with the labels in `out`. -/
theorem balance_count {I : σ → Prop} (f : σ → Nat) (inn out : ε → Bool)
    (hinv : ∀ s e t, I s → Step s e t → I t)
    (hstep : ∀ s e t, I s → Step s e t →
      f t + (if out e then 1 else 0) = f s + if inn e then 1 else 0)
    {s t : σ} {es : List ε} (h : Run Step s es t) (hs : I s) :
    f t + es.countP out = f s + es.countP inn := by
  have hcount : ∀ (p : ε → Bool) (l : List ε),
      (l.map fun e => if p e then 1 else 0).sum = l.countP p := by
    intro p l
    induction l with
    | nil => rfl
    | cons e l ih => rw [List.map_cons, List.sum_cons, ih, List.countP_cons, Nat.add_comm]
  have hbal := h.balance f (fun e => if inn e then 1 else 0) (fun e => if out e then 1 else 0)
    hinv hstep hs
  rwa [hcount, hcount] at hbal

/-- **Channel rule.** If every step appends `inn e` to a list and takes `out e`
from its front, a whole run does so with all of its labels. -/
theorem channel {α : Type*} {I : σ → Prop} (f : σ → List α) (inn out : ε → List α)
    (hinv : ∀ s e t, I s → Step s e t → I t)
    (hstep : ∀ s e t, I s → Step s e t → f s ++ inn e = out e ++ f t)
    {s t : σ} {es : List ε} (h : Run Step s es t) (hs : I s) :
    f s ++ es.flatMap inn = es.flatMap out ++ f t := by
  induction h with
  | nil => exact List.append_nil _
  | cons hst _ ih =>
    rw [List.flatMap_cons, List.flatMap_cons, ← List.append_assoc, hstep _ _ _ hs hst,
      List.append_assoc, List.append_assoc, ih (hinv _ _ _ hs hst)]

/-- **Population rule.** `In s i` says that `i` is inside a group in state `s`.
If a step lets in only somebody who is outside and lets out only somebody who
is inside, then after a run from an empty group those inside are finitely many:
the entries less the leaves. -/
theorem population {ι : Type*} [DecidableEq ι] (In : σ → ι → Prop) (enter leave : ε → Option ι)
    (henter : ∀ s e t i, Step s e t → enter e = some i → ¬ In s i ∧ leave e = none)
    (hleave : ∀ s e t i, Step s e t → leave e = some i → In s i)
    (hstep : ∀ s e t i, Step s e t → (In t i ↔ enter e = some i ∨ (In s i ∧ leave e ≠ some i)))
    {s t : σ} {es : List ε} (h : Run Step s es t) (hs : ∀ i, ¬ In s i) :
    ∃ members : Finset ι, (∀ i, i ∈ members ↔ In t i) ∧
      (es.filterMap enter).length = (es.filterMap leave).length + members.card := by
  refine h.trace_invariant (P := fun es t => ∃ members : Finset ι, (∀ i, i ∈ members ↔ In t i) ∧
    (es.filterMap enter).length = (es.filterMap leave).length + members.card) ?_ ?_
  · exact ⟨∅, by simpa using hs, rfl⟩
  · rintro es t e u _ ⟨members, hmem, hcount⟩ hst
    rw [List.filterMap_append, List.filterMap_append, List.length_append, List.length_append]
    cases hin : enter e with
    | some i =>
      obtain ⟨hout, hnone⟩ := henter _ _ _ _ hst hin
      refine ⟨insert i members, ?_, ?_⟩
      · intro j
        rw [Finset.mem_insert, hmem, hstep _ _ _ _ hst, hin, hnone, Option.some.injEq]
        simp [eq_comm]
      · rw [Finset.card_insert_of_notMem (fun hi => hout ((hmem i).mp hi))]
        simp only [List.filterMap_cons, hin, hnone, List.filterMap_nil, List.length_cons,
          List.length_nil]
        omega
    | none =>
      cases hout : leave e with
      | some i =>
        have hi : i ∈ members := (hmem i).mpr (hleave _ _ _ _ hst hout)
        refine ⟨members.erase i, ?_, ?_⟩
        · intro j
          rw [Finset.mem_erase, hmem, hstep _ _ _ _ hst, hin, hout]
          simp [and_comm, eq_comm]
        · have hcard := Finset.card_erase_add_one hi
          simp only [List.filterMap_cons, hin, hout, List.filterMap_nil, List.length_cons,
            List.length_nil]
          omega
      | none =>
        refine ⟨members, ?_, ?_⟩
        · intro j
          rw [hmem, hstep _ _ _ _ hst, hin, hout]
          simp
        · simpa [hin, hout] using hcount

/-! ## Ranks -/

variable {P : ε → Prop}

/-- A run whose labels all satisfy `P` is a run of the steps that do. -/
theorem restrict {s t : σ} {es : List ε} (h : Run Step s es t) (hes : ∀ e ∈ es, P e) :
    Run (fun s e t => Step s e t ∧ P e) s es t := by
  induction h with
  | nil s => exact .nil s
  | cons hst _ ih =>
    obtain ⟨hfirst, hrest⟩ := List.forall_mem_cons.mp hes
    exact .cons ⟨hst, hfirst⟩ (ih hrest)

/-- **Rank rule.** If no step raises a rank and the steps `p` counts lower it,
a run makes no more of these than the rank allows. -/
theorem countP_add_rank_le {I : σ → Prop} (rank : σ → Nat) (p : ε → Bool)
    (hinv : ∀ s e t, I s → Step s e t → I t)
    (hrank : ∀ s e t, I s → Step s e t → rank t + (if p e then 1 else 0) ≤ rank s)
    {s t : σ} {es : List ε} (h : Run Step s es t) (hs : I s) :
    rank t + es.countP p ≤ rank s := by
  induction h with
  | nil => exact Nat.le_refl _
  | cons hst _ ih =>
    have hone := hrank _ _ _ hs hst
    have htail := ih (hinv _ _ _ hs hst)
    rw [List.countP_cons]
    omega

/-- Steps that lower a rank make runs no longer than the rank. -/
theorem length_add_rank_le (rank : σ → Nat) (hrank : ∀ s e t, P e → Step s e t → rank t < rank s)
    {s t : σ} {es : List ε} (h : Run Step s es t) (hes : ∀ e ∈ es, P e) :
    rank t + es.length ≤ rank s := by
  have hcount := (h.restrict hes).countP_add_rank_le (I := fun _ => True) rank (fun _ => true)
    (fun _ _ _ _ _ => trivial) (fun s e t _ hst => hrank s e t hst.2 hst.1) trivial
  rwa [List.countP_true] at hcount

/-- Steps that lower a rank lead to a state that has none. -/
theorem exists_settled {rank : σ → Nat} (hrank : ∀ s e t, P e → Step s e t → rank t < rank s)
    (s : σ) : ∃ es t, Run Step s es t ∧ (∀ e ∈ es, P e) ∧ ∀ e u, Step t e u → ¬ P e := by
  induction hn : rank s using Nat.strong_induction_on generalizing s with
  | _ n ih =>
    by_cases hstop : ∀ e u, Step s e u → ¬ P e
    · exact ⟨[], s, .nil s, List.forall_mem_nil _, hstop⟩
    · push Not at hstop
      obtain ⟨e, u, hst, he⟩ := hstop
      obtain ⟨es, t, hrun, hes, hend⟩ := ih (rank u) (hn ▸ hrank _ _ _ he hst) u rfl
      exact ⟨e :: es, t, .cons hst hrun, List.forall_mem_cons.mpr ⟨he, hes⟩, hend⟩

end Run

/-! ## Labels -/

/-- How often a label's attribute occurs, one label later. -/
theorem count_filterMap_snoc {α : Type*} [DecidableEq α] {f : ε → Option α} (a : α) (es : List ε)
    (e : ε) : ((es ++ [e]).filterMap f).count a =
      (es.filterMap f).count a + if f e = some a then 1 else 0 := by
  rw [List.filterMap_append, List.count_append]
  cases h : f e with
  | none => simp [h]
  | some b => simp [h, List.count_singleton]

/-- A label of a run that is one step longer is the new one or an old one. -/
theorem split_snoc {es pre post : List ε} {e f : ε} (h : es ++ [e] = pre ++ f :: post) :
    (post = [] ∧ es = pre ∧ e = f) ∨ ∃ post', post = post' ++ [e] ∧ es = pre ++ f :: post' := by
  rcases List.eq_nil_or_concat post with rfl | ⟨post, g, rfl⟩
  · obtain ⟨hes, he⟩ := List.append_inj' h rfl
    exact Or.inl ⟨rfl, hes, List.singleton_inj.mp he⟩
  · rw [List.concat_eq_append, ← List.cons_append, ← List.append_assoc] at h
    obtain ⟨hes, he⟩ := List.append_inj' h rfl
    obtain rfl := List.singleton_inj.mp he
    exact Or.inr ⟨post, List.concat_eq_append, hes⟩

end Foundation
