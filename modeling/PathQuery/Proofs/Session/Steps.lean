import PathQuery.Proofs.Heedless
import PathQuery.Proofs.Session.Instructions
import PathQuery.Proofs.Session.Join

/-!
# What steps of compilations have in common

None of the steps that compilations are made of looks back at earlier events. The new events say
which joins and clauses the plan has taken, also when a step fails.
-/

namespace PathQuery

/-! ## What events say -/

namespace Event

def join? : Event → Option Join
  | .joined j => some j
  | _ => none

def clause? : Event → Option Predicate
  | .restricted clause => some clause
  | _ => none

def term? : Event → Option Predicate
  | .built term => some term
  | _ => none

/-- The event says that an instruction of a sort was taken, or that a term of a sort was built. -/
inductive Echoes (told : Instruction → Prop) (built : Predicate → Prop) : Event → Prop where
  | joined {j : Join} (h : told (.join j)) : Echoes told built (.joined j)
  | restricted {clause : Predicate} (h : told (.restrict clause)) :
    Echoes told built (.restricted clause)
  | built {term : Predicate} (h : built term) : Echoes told built (.built term)

end Event

namespace Session

variable {α : Type} {told : Instruction → Prop} {built : Predicate → Prop}

/-! ## Steps do not look back -/

theorem heedless_issue (i : Instruction) : (issue i).Heedless :=
  (Plan.heedless_perform i).focus

theorem heedless_join (parent : Nat) (segment : Segment) : (join parent segment).Heedless := by
  refine Action.heedless_current.bind fun s => ?_
  dsimp only
  split
  · exact Action.heedless_pure _
  · refine (heedless_issue _).bind fun _ => Action.heedless_current.bind fun s => ?_
    exact (Action.heedless_put _).bind fun _ =>
      (Action.heedless_report _).bind fun _ => Action.heedless_pure _

theorem Composed.heedless {a : Action Session α} (h : Composed told built a) : a.Heedless := by
  induction h with
  | pure x => exact Action.heedless_pure x
  | ofExcept r => exact Action.heedless_ofExcept r
  | aliasOf id => exact Action.heedless_current.bind fun _ => Action.heedless_pure _
  | join _ parent segment => exact heedless_join parent segment
  | issue _ _ => exact heedless_issue _
  | build _ => exact Action.heedless_report _
  | bind _ _ ih ihf => exact ih.bind ihf

/-! ## Steps report what the plan takes -/

/-- New events have come in, about instructions and terms of a sort. They name the joins that the
plan and the tree have got in the meantime, and the clauses that the plan has got, one by one. -/
structure Recorded (told : Instruction → Prop) (built : Predicate → Prop) (s t : Logged Session)
    (log : List Event) : Prop where
  events : t.events = s.events ++ log
  echoes : ∀ e ∈ log, e.Echoes told built
  joins : t.state.plan.joins = s.state.plan.joins ++ log.filterMap Event.join?
  count : t.state.tree.size = s.state.tree.size + (log.filterMap Event.join?).length
  predicates : t.state.plan.predicates = s.state.plan.predicates ++ log.filterMap Event.clause?

theorem Recorded.refl (s : Logged Session) : Recorded told built s s [] :=
  ⟨(List.append_nil _).symm, List.forall_mem_nil _, (List.append_nil _).symm, rfl,
    (List.append_nil _).symm⟩

theorem Recorded.trans {s t u : Logged Session} {log more : List Event}
    (h : Recorded told built s t log) (h' : Recorded told built t u more) :
    Recorded told built s u (log ++ more) := by
  refine ⟨?_, List.forall_mem_append.2 ⟨h.echoes, h'.echoes⟩, ?_, ?_, ?_⟩
  · rw [h'.events, h.events, List.append_assoc]
  · rw [h'.joins, h.joins, List.filterMap_append, List.append_assoc]
  · rw [h'.count, h.count, List.filterMap_append, List.length_append, Nat.add_assoc]
  · rw [h'.predicates, h.predicates, List.filterMap_append, List.append_assoc]

-- An instruction that is no join leaves the tree and the joins as they are.
theorem recorded_issue {i : Instruction} (hjoin : ∀ j, i ≠ .join j) (h : told i)
    (s : Logged Session) :
    (issue i).Ensures s (fun _ t => Recorded told built s t i.events) (fun _ t => t = s) := by
  rw [issue, Action.ensures_focus]
  refine (Plan.ensures_perform i _).imp (fun _ t htaken => ?_) fun _ t hrefused => ?_
  · rcases t with ⟨p, events⟩
    obtain ⟨htake, hevents⟩ := htaken
    cases i with
    | join j => exact absurd rfl (hjoin j)
    | restrict clause =>
      cases htake
      exact ⟨hevents, List.forall_mem_singleton.2 (.restricted h), (List.append_nil _).symm, rfl,
        rfl⟩
    | order _ | offset _ | limit _ | select _ | bindResult _ =>
      cases htake
      exact ⟨hevents, List.forall_mem_nil _, (List.append_nil _).symm, rfl,
        (List.append_nil _).symm⟩
  · rw [hrefused.2]

-- A relationship that is joined is reported; one that is known or refused is not.
theorem recorded_join (h : ∀ j, told (.join j)) (parent : Nat) (segment : Segment)
    (s : Logged Session) :
    (join parent segment).Ensures s (fun _ t => ∃ log, Recorded told built s t log)
      (fun _ t => t = s) := by
  rw [join, Action.ensures_bind, Action.ensures_current]
  dsimp only
  split
  · exact ⟨[], .refl s⟩
  · simp only [issue, Action.ensures_bind, Action.ensures_focus, Action.ensures_current,
      Action.ensures_put, Action.ensures_report, Action.ensures_pure]
    refine (Plan.ensures_perform _ _).imp (fun _ t htaken => ?_) fun _ t hrefused => ?_
    · obtain ⟨htake, hevents⟩ := htaken
      have hplan := (Plan.join_eq_ok_iff.1 htake).2.2
      rw [hplan, hevents]
      refine ⟨[.joined _], ?_, List.forall_mem_singleton.2 (.joined (h _)), rfl, ?_,
        (List.append_nil _).symm⟩
      · exact congrArg (· ++ _) (List.append_nil s.events)
      · exact JoinTree.size_grow
    · rw [hrefused.2]

/-- Whether they succeed or fail, steps of compilations report what the plan has taken. -/
theorem Composed.recorded {a : Action Session α} (h : Composed told built a) (s : Logged Session) :
    a.Ensures s (fun _ t => ∃ log, Recorded told built s t log)
      (fun _ t => ∃ log, Recorded told built s t log) := by
  induction h generalizing s with
  | pure x => exact ⟨[], .refl s⟩
  | ofExcept r =>
    exact Action.ensures_ofExcept.2 ⟨fun _ _ => ⟨[], .refl s⟩, fun _ _ => ⟨[], .refl s⟩⟩
  | aliasOf id => exact ⟨[], .refl s⟩
  | join h parent segment =>
    refine (recorded_join h parent segment s).imp (fun _ _ => id) fun _ t ht => ?_
    rw [ht]
    exact ⟨[], .refl s⟩
  | issue hjoin h =>
    refine (recorded_issue hjoin h s).imp (fun _ _ ht => ⟨_, ht⟩) fun _ t ht => ?_
    rw [ht]
    exact ⟨[], .refl s⟩
  | build h =>
    refine ⟨[_], rfl, ?_, (List.append_nil _).symm, rfl, (List.append_nil _).symm⟩
    exact List.forall_mem_singleton.2 (.built h)
  | bind _ _ ih ihf =>
    rw [Action.ensures_bind]
    refine (ih s).imp (fun x t ht => ?_) fun _ _ => id
    obtain ⟨log, hlog⟩ := ht
    refine (ihf x t).imp (fun _ u hu => ?_) fun _ u hu => ?_
    · obtain ⟨more, hmore⟩ := hu
      exact ⟨log ++ more, hlog.trans hmore⟩
    · obtain ⟨more, hmore⟩ := hu
      exact ⟨log ++ more, hlog.trans hmore⟩

end Session

end PathQuery
