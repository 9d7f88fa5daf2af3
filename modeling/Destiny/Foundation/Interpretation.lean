import Mathlib.Data.Option.Basic
import Mathlib.Logic.Function.Basic

/-!
# Programs under two interpretations

Straight-line programs over typed variables, with operators that only compute
and members that change the variable they are called on, both possibly undefined
on some operands, and the rules that carry facts about single operators over to
whole programs:

* `Signature`, `Interpretation`   — operator symbols, and what they compute;
* `Term`, `Action`, `Statement`   — terms over variables, member calls on a
  variable, and what is done with their results;
* `Simulation.exec`               — if operators defined under one interpretation
  are defined under another, on related operands with related results, the same
  holds of programs;
* `Hom.exec`                      — if a map turns one interpretation into the
  other, a program is defined under both or under none, and the map turns the one
  result into the other.
-/

namespace Foundation

universe u

variable {S ι : Type*}

-- ---------------------------------------------------------------------------
-- Programs
-- ---------------------------------------------------------------------------

/-- Operator symbols, with the sorts of their operands and of their result, and
members that change their object, with its sort and that of their argument. -/
structure Signature (S : Type*) where
  Unary    : S → S → Type
  Binary   : S → S → S → Type
  Modify   : S → Type
  ModifyBy : S → S → Type

/-- What the operators compute, where they are defined; of a member, the value
that it returns and its object afterwards. -/
structure Interpretation (sig : Signature S) where
  Carrier  : S → Type u
  unary    : {s t : S} → sig.Unary s t → Carrier s → Option (Carrier t)
  binary   : {s t w : S} → sig.Binary s t w → Carrier s → Carrier t → Option (Carrier w)
  modify   : {s : S} → sig.Modify s → Carrier s → Option (Carrier s × Carrier s)
  modifyBy : {s t : S} → sig.ModifyBy s t → Carrier s → Carrier t → Option (Carrier s × Carrier s)

variable {sig : Signature S} {sort : ι → S}

/-- Terms over the variables `ι`. -/
inductive Term (sig : Signature S) (sort : ι → S) : S → Type _
  | var (i : ι) : Term sig sort (sort i)
  | unary {s t : S} (f : sig.Unary s t) (a : Term sig sort s) : Term sig sort t
  | binary {s t w : S} (f : sig.Binary s t w) (a : Term sig sort s) (b : Term sig sort t) :
      Term sig sort w

/-- A term, or a member called on a variable. -/
inductive Action (sig : Signature S) (sort : ι → S) : S → Type _
  | term {s : S} (t : Term sig sort s) : Action sig sort s
  | modify (self : ι) (f : sig.Modify (sort self)) : Action sig sort (sort self)
  | modifyBy {t : S} (self : ι) (f : sig.ModifyBy (sort self) t) (arg : Term sig sort t) :
      Action sig sort (sort self)

/-- An action whose result is dropped, or is assigned to a variable. -/
inductive Statement (sig : Signature S) (sort : ι → S)
  | discard {s : S} (a : Action sig sort s)
  | assign (target : ι) (a : Action sig sort (sort target))

namespace Interpretation

variable (I : Interpretation.{u} sig)

/-- The values of the variables. -/
abbrev Env (sort : ι → S) := (i : ι) → I.Carrier (sort i)

def eval (env : I.Env sort) : {s : S} → Term sig sort s → Option (I.Carrier s)
  | _, .var i        => some (env i)
  | _, .unary f a    => (eval env a).bind (I.unary f)
  | _, .binary f a b => (eval env a).bind fun x => (eval env b).bind (I.binary f x)

variable [DecidableEq ι]

/-- The result of an action, and the variables after it. -/
def run (env : I.Env sort) : {s : S} → Action sig sort s → Option (I.Carrier s × I.Env sort)
  | _, .term t              => (I.eval env t).map fun x => (x, env)
  | _, .modify self f       =>
    (I.modify f (env self)).map fun r => (r.1, Function.update env self r.2)
  | _, .modifyBy self f arg => (I.eval env arg).bind fun x =>
    (I.modifyBy f (env self) x).map fun r => (r.1, Function.update env self r.2)

-- the member has changed its object before its result is assigned
def step (env : I.Env sort) : Statement sig sort → Option (I.Env sort)
  | .discard a       => (I.run env a).map fun r => r.2
  | .assign target a => (I.run env a).map fun r => Function.update r.2 target r.1

/-- The statements, one after the other. -/
def exec : I.Env sort → List (Statement sig sort) → Option (I.Env sort)
  | env, []      => some env
  | env, c :: cs => (I.step env c).bind fun env' => exec env' cs

end Interpretation

-- ---------------------------------------------------------------------------
-- Simulation
-- ---------------------------------------------------------------------------

/-- What is defined under `I` is defined under `J`, on related operands with
related results. -/
structure Simulation (I J : Interpretation sig) (R : {s : S} → I.Carrier s → J.Carrier s → Prop) :
    Prop where
  unary    : ∀ {s t : S} (f : sig.Unary s t) {a b x}, R a b → I.unary f a = some x →
    ∃ y, J.unary f b = some y ∧ R x y
  binary   : ∀ {s t w : S} (f : sig.Binary s t w) {a b c d x}, R a b → R c d →
    I.binary f a c = some x → ∃ y, J.binary f b d = some y ∧ R x y
  modify   : ∀ {s : S} (f : sig.Modify s) {a b x}, R a b → I.modify f a = some x →
    ∃ y, J.modify f b = some y ∧ R x.1 y.1 ∧ R x.2 y.2
  modifyBy : ∀ {s t : S} (f : sig.ModifyBy s t) {a b c d x}, R a b → R c d →
    I.modifyBy f a c = some x → ∃ y, J.modifyBy f b d = some y ∧ R x.1 y.1 ∧ R x.2 y.2

namespace Simulation

variable {I J : Interpretation sig} {R : {s : S} → I.Carrier s → J.Carrier s → Prop}
  {env : I.Env sort} {env' : J.Env sort}

/-- **Terms.** -/
theorem eval (h : Simulation I J R) (henv : ∀ i, R (env i) (env' i)) {s : S} {t : Term sig sort s}
    {x : I.Carrier s} (heval : I.eval env t = some x) : ∃ y, J.eval env' t = some y ∧ R x y := by
  induction t with
  | var i =>
    obtain rfl := Option.some.inj heval
    exact ⟨env' i, rfl, henv i⟩
  | unary f a ih =>
    rw [Interpretation.eval, Option.bind_eq_some_iff] at heval
    obtain ⟨v, hv, hx⟩ := heval
    obtain ⟨v', hv', hvv⟩ := ih hv
    obtain ⟨y, hy, hxy⟩ := h.unary f hvv hx
    refine ⟨y, ?_, hxy⟩
    rw [Interpretation.eval, hv']
    exact hy
  | binary f a b iha ihb =>
    rw [Interpretation.eval, Option.bind_eq_some_iff] at heval
    obtain ⟨v, hv, hrest⟩ := heval
    rw [Option.bind_eq_some_iff] at hrest
    obtain ⟨w, hw, hx⟩ := hrest
    obtain ⟨v', hv', hvv⟩ := iha hv
    obtain ⟨w', hw', hww⟩ := ihb hw
    obtain ⟨y, hy, hxy⟩ := h.binary f hvv hww hx
    refine ⟨y, ?_, hxy⟩
    rw [Interpretation.eval, hv', Option.bind_some, hw']
    exact hy

variable [DecidableEq ι]

theorem update {env : I.Env sort} {env' : J.Env sort} (henv : ∀ i, R (env i) (env' i)) {i : ι}
    {x : I.Carrier (sort i)} {y : J.Carrier (sort i)} (hxy : R x y) (k : ι) :
    R (Function.update env i x k) (Function.update env' i y k) := by
  by_cases hk : k = i
  · subst hk
    rwa [Function.update_self, Function.update_self]
  · rw [Function.update_of_ne hk, Function.update_of_ne hk]
    exact henv k

/-- **Actions.** -/
theorem run (h : Simulation I J R) (henv : ∀ i, R (env i) (env' i)) {s : S}
    {a : Action sig sort s} {x : I.Carrier s} {out : I.Env sort} (hrun : I.run env a = some (x, out)) :
    ∃ y out', J.run env' a = some (y, out') ∧ R x y ∧ ∀ i, R (out i) (out' i) := by
  cases a with
  | term t =>
    obtain ⟨v, hv, heq⟩ := Option.map_eq_some_iff.mp hrun
    cases heq
    obtain ⟨y, hy, hxy⟩ := h.eval henv hv
    refine ⟨y, env', ?_, hxy, henv⟩
    rw [Interpretation.run, hy]
    rfl
  | modify self f =>
    obtain ⟨r, hr, heq⟩ := Option.map_eq_some_iff.mp hrun
    cases heq
    obtain ⟨r', hr', hreturn, hobject⟩ := h.modify f (henv self) hr
    refine ⟨r'.1, Function.update env' self r'.2, ?_, hreturn, update henv hobject⟩
    rw [Interpretation.run, hr']
    rfl
  | modifyBy self f arg =>
    rw [Interpretation.run, Option.bind_eq_some_iff] at hrun
    obtain ⟨v, hv, hrest⟩ := hrun
    obtain ⟨r, hr, heq⟩ := Option.map_eq_some_iff.mp hrest
    cases heq
    obtain ⟨w, hw, hvw⟩ := h.eval henv hv
    obtain ⟨r', hr', hreturn, hobject⟩ := h.modifyBy f (henv self) hvw hr
    refine ⟨r'.1, Function.update env' self r'.2, ?_, hreturn, update henv hobject⟩
    rw [Interpretation.run, hw, Option.bind_some, hr']
    rfl

/-- **Statements.** -/
theorem step (h : Simulation I J R) (henv : ∀ i, R (env i) (env' i)) {c : Statement sig sort}
    {out : I.Env sort} (hstep : I.step env c = some out) :
    ∃ out', J.step env' c = some out' ∧ ∀ i, R (out i) (out' i) := by
  cases c with
  | discard a =>
    obtain ⟨r, hr, rfl⟩ := Option.map_eq_some_iff.mp hstep
    obtain ⟨y, out', hrun, -, hout⟩ := h.run henv hr
    refine ⟨out', ?_, hout⟩
    rw [Interpretation.step, hrun]
    rfl
  | assign target a =>
    obtain ⟨r, hr, rfl⟩ := Option.map_eq_some_iff.mp hstep
    obtain ⟨y, out', hrun, hxy, hout⟩ := h.run henv hr
    refine ⟨Function.update out' target y, ?_, update hout hxy⟩
    rw [Interpretation.step, hrun]
    rfl

/-- **Programs.** -/
theorem exec (h : Simulation I J R) {cs : List (Statement sig sort)}
    (henv : ∀ i, R (env i) (env' i)) {out : I.Env sort} (hexec : I.exec env cs = some out) :
    ∃ out', J.exec env' cs = some out' ∧ ∀ i, R (out i) (out' i) := by
  induction cs generalizing env env' with
  | nil =>
    obtain rfl := Option.some.inj hexec
    exact ⟨env', rfl, henv⟩
  | cons c cs ih =>
    rw [Interpretation.exec, Option.bind_eq_some_iff] at hexec
    obtain ⟨mid, hmid, hrest⟩ := hexec
    obtain ⟨mid', hmid', hrel⟩ := h.step henv hmid
    obtain ⟨out', hout', hout⟩ := ih hrel hrest
    refine ⟨out', ?_, hout⟩
    rw [Interpretation.exec, hmid']
    exact hout'

end Simulation

-- ---------------------------------------------------------------------------
-- Homomorphisms
-- ---------------------------------------------------------------------------

/-- A map that turns the operators of `I` into those of `J`, undefined ones
included. -/
structure Hom (I J : Interpretation sig) where
  map      : {s : S} → I.Carrier s → J.Carrier s
  unary    : ∀ {s t : S} (f : sig.Unary s t) (a : I.Carrier s),
    J.unary f (map a) = (I.unary f a).map map
  binary   : ∀ {s t w : S} (f : sig.Binary s t w) (a : I.Carrier s) (b : I.Carrier t),
    J.binary f (map a) (map b) = (I.binary f a b).map map
  modify   : ∀ {s : S} (f : sig.Modify s) (a : I.Carrier s),
    J.modify f (map a) = (I.modify f a).map (Prod.map map map)
  modifyBy : ∀ {s t : S} (f : sig.ModifyBy s t) (a : I.Carrier s) (b : I.Carrier t),
    J.modifyBy f (map a) (map b) = (I.modifyBy f a b).map (Prod.map map map)

namespace Hom

variable {I J : Interpretation sig} (h : Hom I J)

theorem simulation : Simulation I J fun a b => h.map a = b where
  unary := by
    rintro s t f a _ x rfl hx
    exact ⟨h.map x, by rw [h.unary, hx, Option.map_some], rfl⟩
  binary := by
    rintro s t w f a _ c _ x rfl rfl hx
    exact ⟨h.map x, by rw [h.binary, hx, Option.map_some], rfl⟩
  modify := by
    rintro s f a _ x rfl hx
    exact ⟨x.map h.map h.map, by rw [h.modify, hx, Option.map_some], rfl, rfl⟩
  modifyBy := by
    rintro s t f a _ c _ x rfl rfl hx
    exact ⟨x.map h.map h.map, by rw [h.modifyBy, hx, Option.map_some], rfl, rfl⟩

theorem simulation_back : Simulation J I fun b a => h.map a = b where
  unary := by
    rintro s t f _ a y rfl hy
    rw [h.unary] at hy
    obtain ⟨x, hx, rfl⟩ := Option.map_eq_some_iff.mp hy
    exact ⟨x, hx, rfl⟩
  binary := by
    rintro s t w f _ a _ c y rfl rfl hy
    rw [h.binary] at hy
    obtain ⟨x, hx, rfl⟩ := Option.map_eq_some_iff.mp hy
    exact ⟨x, hx, rfl⟩
  modify := by
    rintro s f _ a y rfl hy
    rw [h.modify] at hy
    obtain ⟨x, hx, rfl⟩ := Option.map_eq_some_iff.mp hy
    exact ⟨x, hx, rfl, rfl⟩
  modifyBy := by
    rintro s t f _ a _ c y rfl rfl hy
    rw [h.modifyBy] at hy
    obtain ⟨x, hx, rfl⟩ := Option.map_eq_some_iff.mp hy
    exact ⟨x, hx, rfl, rfl⟩

variable [DecidableEq ι]

/-- **Programs under a homomorphism.** -/
theorem exec (env : I.Env sort) (cs : List (Statement sig sort)) :
    J.exec (fun i => h.map (env i)) cs = (I.exec env cs).map fun out i => h.map (out i) := by
  cases hI : I.exec env cs with
  | some out =>
    obtain ⟨out', hout', hrel⟩ := h.simulation.exec (fun _ => rfl) hI
    rw [hout', Option.map_some]
    exact congrArg some (funext fun i => (hrel i).symm)
  | none =>
    rw [Option.map_none, Option.eq_none_iff_forall_ne_some]
    intro out' hout'
    have hstart : ∀ i, h.map (env i) = h.map (env i) := fun _ => rfl
    obtain ⟨out, hout, -⟩ := h.simulation_back.exec hstart hout'
    rw [hI] at hout
    cases hout

end Hom

end Foundation
