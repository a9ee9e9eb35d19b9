import PathQuery.Compile
import PathQuery.Proofs.Action

/-!
# What a compilation tells a plan

Whatever a specification is, its compilation joins relationships, gives other instructions, builds
terms, and computes without touching the session. So it changes its plan by instructions only, and
the plan may refuse any of them. What a condition can tell it is settled by the kind: joins, and for
some kinds an order, an offset or a limit. Only filters build terms.
-/

namespace PathQuery

open Condition (Kind Group)

/-! ## Instructions that a plan has taken -/

/-- The plan has taken instructions of a sort, one after the other, and has become another one. -/
inductive Plan.Receives (sort : Instruction → Prop) (p : Plan) : Plan → Prop where
  | nothing : Receives sort p p
  | taken {q r : Plan} {i : Instruction} (h : Receives sort p q) (hi : sort i)
    (run : q.apply i = .ok r) : Receives sort p r

namespace Plan.Receives

variable {sort other : Instruction → Prop} {p q r : Plan}

theorem trans (h : p.Receives sort q) (h' : q.Receives sort r) : p.Receives sort r := by
  induction h' with
  | nothing => exact h
  | taken _ hi run ih => exact ih.taken hi run

theorem mono (h : p.Receives sort q) (hsort : ∀ i, sort i → other i) : p.Receives other q := by
  induction h with
  | nothing => exact .nothing
  | taken _ hi run ih => exact ih.taken (hsort _ hi) run

-- What every instruction of the sort keeps is kept by all of them together.
theorem invariant (inv : Plan → Prop) (h : p.Receives sort q) (hp : inv p)
    (hstep : ∀ {q r i}, inv q → sort i → q.apply i = .ok r → inv r) : inv q := by
  induction h with
  | nothing => exact hp
  | taken _ hi run ih => exact hstep ih hi run

end Plan.Receives

/-- The instructions that a condition of a kind can lead to. -/
inductive Instruction.For (kind : Kind) : Instruction → Prop where
  | join (j : Join) : For kind (.join j)
  | order (o : Order) (h : kind.isOrdering = true) : For kind (.order o)
  | offset (n : Nat) (h : kind = .skip) : For kind (.offset n)
  | limit (n : Nat) (h : kind = .take) : For kind (.limit n)

/-- The instructions that groups can lead to: those of their conditions, and clauses. -/
inductive Instruction.ForGroups (gs : List Group) : Instruction → Prop where
  | condition {c : Condition} {i : Instruction} (hc : c ∈ gs.flatMap Group.conditions)
    (hi : i.For c.kind) : ForGroups gs i
  | restrict (q : Predicate) : ForGroups gs (.restrict q)

/-- The instructions that a specification can lead to: those of its groups, and at the end columns
and a result type. -/
inductive Instruction.ForSpec (spec : Spec) : Instruction → Prop where
  | group {i : Instruction} (hi : i.ForGroups spec.groups) : ForSpec spec i
  | select (cs : List Column) : ForSpec spec (.select cs)
  | bindResult (target : String) : ForSpec spec (.bindResult target)

namespace Instruction.ForGroups

variable {gs hs : List Group} {i : Instruction}

theorem append_right (h : i.ForGroups gs) : i.ForGroups (gs ++ hs) := by
  cases h with
  | condition hc hi =>
    refine .condition ?_ hi
    rw [List.flatMap_append]
    exact List.mem_append_left _ hc
  | restrict q => exact .restrict q

theorem append_left (gs : List Group) (h : i.ForGroups hs) : i.ForGroups (gs ++ hs) := by
  cases h with
  | condition hc hi =>
    refine .condition ?_ hi
    rw [List.flatMap_append]
    exact List.mem_append_right _ hc
  | restrict q => exact .restrict q

end Instruction.ForGroups

namespace Session

variable {α β : Type} {sort told other : Instruction → Prop} {built built' : Predicate → Prop}
  {schema : Schema}

/-! ## Steps in a row -/

/-- The action is put together from steps of compilations, which give instructions of a sort and
build terms of a sort. -/
inductive Composed (told : Instruction → Prop) (built : Predicate → Prop) :
    {α : Type} → Action Session α → Prop where
  | pure {α : Type} (x : α) : Composed told built (pure x)
  | ofExcept {α : Type} (r : Except Error α) : Composed told built (Action.ofExcept r)
  | aliasOf (id : Nat) : Composed told built (aliasOf id)
  | join (h : ∀ j, told (.join j)) (parent : Nat) (segment : Segment) :
    Composed told built (join parent segment)
  | issue {i : Instruction} (hjoin : ∀ j, i ≠ .join j) (h : told i) :
    Composed told built (issue i)
  | build {term : Predicate} (h : built term) :
    Composed told built (Action.report (.built term))
  | bind {α β : Type} {a : Action Session β} {f : β → Action Session α}
    (h : Composed told built a) (hf : ∀ x, Composed told built (f x)) :
    Composed told built (a >>= f)

theorem Composed.mono {a : Action Session α} (h : Composed told built a)
    (htold : ∀ i, told i → other i) (hbuilt : ∀ term, built term → built' term) :
    Composed other built' a := by
  induction h with
  | pure x => exact .pure x
  | ofExcept r => exact .ofExcept r
  | aliasOf id => exact .aliasOf id
  | join h parent segment => exact .join (fun j => htold _ (h j)) parent segment
  | issue hjoin h => exact .issue hjoin (htold _ h)
  | build h => exact .build (hbuilt _ h)
  | bind _ _ ih ihf => exact .bind ih ihf

theorem composed_foldlM {step : β → α → Action Session β}
    (hstep : ∀ y x, Composed told built (step y x)) (xs : List α) (y : β) :
    Composed told built (xs.foldlM step y) := by
  induction xs generalizing y with
  | nil => exact .pure y
  | cons x xs ih =>
    rw [List.foldlM_cons]
    exact .bind (hstep y x) ih

/-! ## Joins -/

section Joins

variable (hjoin : ∀ j, told (.join j))

include hjoin

theorem composed_owner (path : Path) : Composed told built (owner path) :=
  composed_foldlM (Composed.join hjoin) _ _

theorem composed_qualify (path : Path) : Composed told built (qualify path) :=
  .bind (composed_owner hjoin path) fun owner => .bind (.aliasOf owner) fun _ => .pure _

theorem composed_order {direction : Direction} (horder : ∀ o, told (.order o)) (path : Path) :
    Composed told built (order path direction) :=
  .bind (composed_qualify hjoin path) fun _ => .issue nofun (horder _)

theorem composed_select (schema : Schema) (path : Path) :
    Composed told built (select schema path) := by
  refine .bind (composed_owner hjoin path) fun parent => .bind (.ofExcept _) fun target => ?_
  cases target with
  | none => exact .bind (.aliasOf parent) fun _ => .pure _
  | some name =>
    refine .bind (.ofExcept _) fun entity => .bind (.join hjoin parent path.terminal) ?_
    exact fun child => .bind (.aliasOf child) fun _ => .pure _

theorem composed_fetch (path : Path) : Composed told built (fetch path) :=
  .bind (composed_owner hjoin path) fun parent =>
    .bind (.join hjoin parent path.terminal) fun _ => .pure _

theorem composed_filter (hbuilt : ∀ term, built term) (c : Condition) (path : Path) :
    Composed told built (filter c path) :=
  .bind (composed_qualify hjoin path) fun _ => .bind (.ofExcept _) fun term =>
    .bind (.build (hbuilt term)) fun _ => .pure _

end Joins

/-! ## Conditions -/

/-- A condition tells the plan what its kind stands for, and builds a term if it is a filter. -/
theorem composed_condition (schema : Schema) (c : Condition) :
    Composed (Instruction.For c.kind) (fun _ => c.kind.isFilter = true) (condition schema c) := by
  -- most kinds contribute nothing after what they do
  have hdone {a : Action Session Unit}
      (h : Composed (Instruction.For c.kind) (fun _ => c.kind.isFilter = true) a) :
      Composed (Instruction.For c.kind) (fun _ => c.kind.isFilter = true)
        (a >>= fun _ => pure Contribution.nothing) :=
    .bind h fun _ => .pure _
  have horder (hkind : c.kind.isOrdering = true) (o : Order) :
      Instruction.For c.kind (.order o) :=
    .order o hkind
  unfold condition
  split
  case h_1 hkind =>
    exact .bind (.ofExcept c.count) fun n => hdone (.issue nofun (.offset n hkind))
  case h_2 hkind =>
    exact .bind (.ofExcept c.count) fun n => hdone (.issue nofun (.limit n hkind))
  case h_3 hkind =>
    have hordering : c.kind.isOrdering = true := by rw [hkind]; rfl
    exact .bind (.ofExcept c.requirePath) fun path =>
      hdone (composed_order .join (horder hordering) path)
  case h_4 hkind =>
    have hordering : c.kind.isOrdering = true := by rw [hkind]; rfl
    exact .bind (.ofExcept c.requirePath) fun path =>
      hdone (composed_order .join (horder hordering) path)
  case h_5 =>
    exact .bind (.ofExcept c.requirePath) fun path =>
      .bind (composed_select .join schema path) fun _ => .pure _
  case h_6 =>
    exact .bind (.ofExcept c.requirePath) fun path => hdone (composed_fetch .join path)
  case h_7 =>
    have hfilter : c.kind.isFilter = true := by
      cases hkind : c.kind <;> first | rfl | contradiction
    exact .bind (.ofExcept c.requirePath) fun path =>
      .bind (composed_filter .join (fun _ => hfilter) c path) fun _ => .pure _

theorem composed_conditions (schema : Schema) (cs : List Condition) :
    Composed (fun i => ∃ c ∈ cs, i.For c.kind) (fun _ => ∃ c ∈ cs, c.kind.isFilter = true)
      (conditions schema cs) := by
  induction cs with
  | nil => exact .pure _
  | cons c cs ih =>
    have hfirst : Composed (fun i => ∃ d ∈ c :: cs, i.For d.kind)
        (fun _ => ∃ d ∈ c :: cs, d.kind.isFilter = true) (condition schema c) :=
      (composed_condition schema c).mono (fun i hi => ⟨c, List.mem_cons_self, hi⟩)
        fun _ hfilter => ⟨c, List.mem_cons_self, hfilter⟩
    have hrest : Composed (fun i => ∃ d ∈ c :: cs, i.For d.kind)
        (fun _ => ∃ d ∈ c :: cs, d.kind.isFilter = true) (conditions schema cs) := by
      refine ih.mono ?_ ?_
      · rintro i ⟨d, hd, hi⟩
        exact ⟨d, List.mem_cons_of_mem c hd, hi⟩
      · rintro - ⟨d, hd, hfilter⟩
        exact ⟨d, List.mem_cons_of_mem c hd, hfilter⟩
    exact .bind hfirst fun _ => .bind hrest fun _ => .pure _

/-! ## Whole specifications -/

theorem composed_group (schema : Schema) (g : Group) :
    Composed (Instruction.ForGroups [g]) (fun _ => True) (group schema g) := by
  have hconditions : Composed (Instruction.ForGroups [g]) (fun _ => True)
      (conditions schema g.conditions) := by
    refine (composed_conditions schema g.conditions).mono ?_ fun _ _ => trivial
    rintro i ⟨c, hc, hi⟩
    exact .condition (by rwa [List.flatMap_singleton]) hi
  refine .bind hconditions fun c => ?_
  split
  · exact .pure _
  · exact .bind (.issue nofun (.restrict _)) fun _ => .pure _

theorem composed_groups (schema : Schema) (gs : List Group) :
    Composed (Instruction.ForGroups gs) (fun _ => True) (groups schema gs) := by
  induction gs with
  | nil => exact .pure _
  | cons g gs ih =>
    have hfirst : Composed (Instruction.ForGroups (g :: gs)) (fun _ => True) (group schema g) :=
      (composed_group schema g).mono (fun _ hi => hi.append_right) fun _ => id
    have hrest : Composed (Instruction.ForGroups (g :: gs)) (fun _ => True) (groups schema gs) :=
      ih.mono (fun _ hi => hi.append_left [g]) fun _ => id
    exact .bind hfirst fun _ => .bind hrest fun _ => .pure _

theorem composed_project (hselect : ∀ cs, told (.select cs))
    (hbind : ∀ target, told (.bindResult target)) (columns : List Column)
    (resultType : Option String) : Composed told built (project columns resultType) := by
  unfold project
  split
  · exact .pure _
  · refine .bind (.issue nofun (hselect columns)) fun _ => ?_
    cases resultType with
    | none => exact .pure _
    | some target => exact .issue nofun (hbind target)

/-- Every specification is carried out by steps of compilations. -/
theorem composed_spec (spec : Spec) :
    Composed (Instruction.ForSpec spec) (fun _ => True) (Session.spec spec) := by
  have hgroups : Composed (Instruction.ForSpec spec) (fun _ => True)
      (groups spec.schema spec.groups) :=
    (composed_groups spec.schema spec.groups).mono (fun _ => .group) fun _ => id
  exact .bind hgroups fun found =>
    .bind (composed_project .select .bindResult found.2 spec.resultType) fun _ => .pure _

/-! ## What steps do to the plan -/

/-- Whether it succeeds or fails, the step changes the plan by instructions of a sort only. -/
def Tells (sort : Instruction → Prop) (a : Action Session α) : Prop :=
  ∀ s, a.Ensures s (fun _ t => s.state.plan.Receives sort t.state.plan)
    (fun _ t => s.state.plan.Receives sort t.state.plan)

theorem Tells.mono {a : Action Session α} (h : Tells sort a) (hsort : ∀ i, sort i → other i) :
    Tells other a :=
  fun s => (h s).imp (fun _ _ ht => ht.mono hsort) fun _ _ ht => ht.mono hsort

theorem tells_issue {i : Instruction} (hi : sort i) : Tells sort (issue i) := by
  intro s
  rw [issue, Action.ensures_focus]
  refine (Plan.ensures_perform i _).imp (fun _ t htaken => ?_) fun _ t hrefused => ?_
  · exact Plan.Receives.nothing.taken hi htaken.1
  · rw [hrefused.2]
    exact .nothing

theorem tells_join (hjoin : ∀ j, sort (.join j)) (parent : Nat) (segment : Segment) :
    Tells sort (join parent segment) := by
  intro s
  rw [join, Action.ensures_bind, Action.ensures_current]
  dsimp only
  split
  · exact .nothing
  · -- behind the instruction only the tree changes
    rw [Action.ensures_bind]
    refine (tells_issue (hjoin _) s).imp (fun _ _ ht => ?_) fun _ _ => id
    simpa using ht

theorem Composed.tells {a : Action Session α} (h : Composed told built a) : Tells told a := by
  induction h with
  | pure x => exact fun _ => .nothing
  | ofExcept r =>
    exact fun _ => Action.ensures_ofExcept.2 ⟨fun _ _ => .nothing, fun _ _ => .nothing⟩
  | aliasOf id => exact fun _ => .nothing
  | join h parent segment => exact tells_join h parent segment
  | issue _ h => exact tells_issue h
  | build _ => exact fun _ => .nothing
  | bind _ _ ih ihf =>
    intro s
    rw [Action.ensures_bind]
    refine (ih s).imp (fun x t ht => ?_) fun _ _ => id
    exact (ihf x t).imp (fun _ _ => ht.trans) fun _ _ => ht.trans

theorem tells_conditions (schema : Schema) (cs : List Condition) :
    Tells (fun i => ∃ c ∈ cs, i.For c.kind) (conditions schema cs) :=
  (composed_conditions schema cs).tells

theorem tells_groups (schema : Schema) (gs : List Group) :
    Tells (Instruction.ForGroups gs) (groups schema gs) :=
  (composed_groups schema gs).tells

/-- Whatever the specification is, it changes the plan by instructions only. -/
theorem tells_spec (spec : Spec) : Tells (Instruction.ForSpec spec) (Session.spec spec) :=
  (composed_spec spec).tells

end Session

end PathQuery
