import Mathlib.Logic.Function.Basic
import Destiny.Foundation.Run

/-!
# Linearizability

What it means that a concurrent object behaves like an atomic one, and how to
prove it when the point at which an operation takes effect depends on what
happens later:

* `AtomicObject`, `AtomicObject.Step` — the atomic object of a sequential
  specification: between its invocation and its response every operation takes
  effect once, in one indivisible step;
* `Linearizable` — a history of invocations and responses is one that the atomic
  object shows. The order of the `perform` marks is the sequential order; it
  respects real time because every mark lies between its invocation and its
  response;
* `Run.backward_simulation` — the proof rule: every abstract state of the last
  concrete state is traced back to an abstract state of the first.

The specification is a relation: an operation may have several outcomes.
-/

namespace Foundation

-- ---------------------------------------------------------------------------
-- Backward simulation
-- ---------------------------------------------------------------------------

/-- **Backward simulation.** If every abstract state related to the target of a
step is reached from one related to its source, by abstract steps that show the
same, then a whole run can be followed from its end back to its start. -/
theorem Run.backward_simulation {σ ε τ δ ω : Type*} {Step : σ → ε → σ → Prop}
    {Step' : τ → δ → τ → Prop} {shown : ε → List ω} {shown' : δ → Option ω} {I : σ → Prop}
    {R : σ → τ → Prop} {s t : σ} {es : List ε} (h : Run Step s es t)
    (hinv : ∀ s e t, I s → Step s e t → I t)
    (hback : ∀ s e t b, I s → Step s e t → R t b →
      ∃ a ds, R s a ∧ Run Step' a ds b ∧ ds.filterMap shown' = shown e)
    (hs : I s) {b : τ} (hb : R t b) :
    ∃ a ds, R s a ∧ Run Step' a ds b ∧ ds.filterMap shown' = es.flatMap shown := by
  induction h with
  | nil => exact ⟨b, [], hb, .nil b, rfl⟩
  | cons hst _ ih =>
    obtain ⟨m, ds, hm, hrun, hshown⟩ := ih (hinv _ _ _ hs hst) hb
    obtain ⟨a, ds', ha, hrun', hshown'⟩ := hback _ _ _ _ hs hst hm
    refine ⟨a, ds' ++ ds, ha, hrun'.append hrun, ?_⟩
    rw [List.filterMap_append, hshown', hshown, List.flatMap_cons]

-- ---------------------------------------------------------------------------
-- The atomic object
-- ---------------------------------------------------------------------------

/-- Where a thread stands between the invocation of an operation and its response. -/
inductive Activity (Op Ret : Type*)
  | idle
  -- invoked, without effect so far
  | pending (op : Op)
  -- has taken effect
  | answered (ret : Ret)

/-- What an observer sees of an object. -/
inductive Observation (Tid Op Ret : Type*)
  | invoke (t : Tid) (op : Op)
  | respond (t : Tid) (ret : Ret)
deriving DecidableEq

/-- What happens to an atomic object. -/
inductive Mark (Tid Op Ret : Type*)
  | invoke (t : Tid) (op : Op)
  -- the operation takes effect
  | perform (t : Tid) (op : Op) (ret : Ret)
  | respond (t : Tid) (ret : Ret)

def Mark.observation? {Tid Op Ret : Type*} : Mark Tid Op Ret → Option (Observation Tid Op Ret)
  | .invoke t op => some (.invoke t op)
  | .perform _ _ _ => none
  | .respond t ret => some (.respond t ret)

/-- An object and the threads that use it. -/
structure AtomicObject (Tid Obj Op Ret : Type*) where
  obj      : Obj
  activity : Tid → Activity Op Ret

namespace AtomicObject

variable {Tid Obj Op Ret : Type*}

/-- Nobody uses the object. -/
def start (obj : Obj) : AtomicObject Tid Obj Op Ret := ⟨obj, fun _ => .idle⟩

variable [DecidableEq Tid]

def setActivity (a : AtomicObject Tid Obj Op Ret) (t : Tid) (x : Activity Op Ret) :
    AtomicObject Tid Obj Op Ret :=
  { a with activity := Function.update a.activity t x }

/-- The steps of an atomic object with the sequential specification `spec`. -/
inductive Step (spec : Obj → Op → Ret → Obj → Prop) :
    AtomicObject Tid Obj Op Ret → Mark Tid Op Ret → AtomicObject Tid Obj Op Ret → Prop
  | invoke {a : AtomicObject Tid Obj Op Ret} {t : Tid} (op : Op) (hidle : a.activity t = .idle) :
      Step spec a (.invoke t op) (a.setActivity t (.pending op))
  | perform {a : AtomicObject Tid Obj Op Ret} {t : Tid} {op : Op} {ret : Ret} {obj : Obj}
      (hpending : a.activity t = .pending op) (hspec : spec a.obj op ret obj) :
      Step spec a (.perform t op ret) ({ a with obj }.setActivity t (.answered ret))
  | respond {a : AtomicObject Tid Obj Op Ret} {t : Tid} {ret : Ret}
      (hanswered : a.activity t = .answered ret) :
      Step spec a (.respond t ret) (a.setActivity t .idle)

end AtomicObject

/-- **Linearizability** of a history. -/
def Linearizable {Tid Obj Op Ret : Type*} [DecidableEq Tid] (spec : Obj → Op → Ret → Obj → Prop)
    (obj : Obj) (history : List (Observation Tid Op Ret)) : Prop :=
  ∃ marks a, Run (AtomicObject.Step spec) (AtomicObject.start obj) marks a ∧
    marks.filterMap Mark.observation? = history

-- ---------------------------------------------------------------------------
-- Whole operations
-- ---------------------------------------------------------------------------

namespace AtomicObject

variable {Tid Obj Op Ret : Type*} [DecidableEq Tid] {spec : Obj → Op → Ret → Obj → Prop}
  {a : AtomicObject Tid Obj Op Ret} {t : Tid} {op : Op} {ret : Ret} {obj : Obj}

/-- An operation takes effect and responds. -/
theorem run_perform_respond (hpending : a.activity t = .pending op)
    (hspec : spec a.obj op ret obj) :
    Run (Step spec) a [.perform t op ret, .respond t ret] ({ a with obj }.setActivity t .idle) := by
  have hrespond : Step spec ({ a with obj }.setActivity t (.answered ret)) (.respond t ret)
      (({ a with obj }.setActivity t (.answered ret)).setActivity t .idle) :=
    .respond (Function.update_self ..)
  rw [setActivity, setActivity, Function.update_idem] at hrespond
  exact .cons (.perform hpending hspec) (.single hrespond)

/-- An operation is invoked and takes effect. -/
theorem run_invoke_perform (hidle : a.activity t = .idle) (hspec : spec a.obj op ret obj) :
    Run (Step spec) a [.invoke t op, .perform t op ret]
      ({ a with obj }.setActivity t (.answered ret)) := by
  have hperform : Step spec (a.setActivity t (.pending op)) (.perform t op ret)
      ({ a.setActivity t (.pending op) with obj }.setActivity t (.answered ret)) :=
    .perform (Function.update_self ..) hspec
  rw [setActivity, setActivity, Function.update_idem] at hperform
  exact .cons (.invoke op hidle) (.single hperform)

end AtomicObject

end Foundation
