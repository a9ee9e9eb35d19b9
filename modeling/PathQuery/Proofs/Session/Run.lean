import PathQuery.Proofs.Session.Join

/-!
# Runs of joins

Relationships of known nodes and ways of paths are joined in any number and order, and the plan may
refuse any of them. After every such run the tree is in order, and the plan holds one join for each
of its nodes.
-/

namespace PathQuery

open PathQuery.Text

namespace JoinTree

/-- Node zero stands for the entity and has the root alias. Every other node stands behind its
parent, has stored the alias with its own number and the kind of the root, and its chain is that of
its parent with its property. A node knows exactly the nodes by name that have it as their parent,
and the counter stands at the next node. -/
structure Arranged (t : JoinTree) (root rootAlias stem : String) (kind : JoinKind) : Prop where
  start : t.property 0 = root ∧ t.parent? 0 = none ∧ t.aliasOf 0 = rootAlias ∧ t.kind = kind
  nodes : ∀ id, 0 < id → id < t.size →
    t.aliasOf id = stem ++ naturalText id ∧ (t.node id).kind = kind ∧
      ∃ parent < id, t.parent? id = some parent ∧ t.chain id = t.chain parent ++ [t.property id]
  children : ∀ parent name id,
    t.child? parent name = some id ↔ t.parent? id = some parent ∧ t.property id = name
  counter : t.stem = stem ∧ t.next = t.size

theorem arranged_of_reaches {t : JoinTree} {root rootAlias stem : String} {kind : JoinKind}
    {used : List (List String)} (h : (start root rootAlias stem kind).Reaches used t)
    (ht : t.Sound) : t.Arranged root rootAlias stem kind := by
  refine ⟨⟨h.root, ht.root, h.rootAlias, h.kind⟩, fun id hpos hid => ⟨?_, ?_, ?_⟩, ht.child,
    h.stem, ht.next⟩
  · rw [ht.ownAlias id hpos hid, h.stem]
    rfl
  · rw [ht.kind id hid, h.kind]
    rfl
  · exact ht.exists_chain hpos hid

end JoinTree

namespace Session

/-- What can be joined. -/
inductive Demand where
  /-- a relationship of a node -/
  | relationship (parent : Nat) (segment : Segment)
  /-- the relationships on the way to the end of a path -/
  | way (path : Path)

/-- Joins what is demanded; the answer is the node at its end. -/
def Demand.meet : Demand → Action Session Nat
  | .relationship parent segment => join parent segment
  | .way path => owner path

/-- A relationship can only be demanded of a node that is there. -/
def Demand.Fits (t : JoinTree) : Demand → Prop
  | .relationship parent _ => parent < t.size
  | .way _ => True

/-- What demands leave of a session, whichever of them are refused. -/
inductive After (start : Session) : Session → Prop where
  | start : After start start
  | accepted {s t : Logged Session} {d : Demand} {id : Nat} (h : After start s.state)
    (hd : d.Fits s.state.tree) (run : d.meet s = .ok id t) : After start t.state
  | refused {s t : Logged Session} {d : Demand} {e : Error} (h : After start s.state)
    (hd : d.Fits s.state.tree) (run : d.meet s = .error e t) : After start t.state

variable {before : Plan} {s : Session}

/-- Whatever is demanded, only chains are joined, and the plan stays in step. -/
theorem walked_of_meet {s : Logged Session} {d : Demand} (h : InStep before s.state)
    (hd : d.Fits s.state.tree) :
    d.meet.Ensures s (fun _ t => ∃ used, Walked before s.state used t.state)
      (fun _ t => ∃ used, Walked before s.state used t.state) := by
  cases d with
  | relationship parent segment =>
    have hid := h.sound.id?_chain hd
    refine (ensures_join segment h hid).imp (fun _ _ hdone => ⟨_, hdone.1⟩) fun _ t hfail => ?_
    rw [hfail.1]
    exact ⟨[], .refl h⟩
  | way path =>
    exact (ensures_owner path h).imp (fun _ _ hdone => ⟨_, hdone.1⟩) fun _ _ hfail => hfail.1

theorem After.walked {start : Session} (h : After start s) (hstart : InStep before start) :
    ∃ used, Walked before start used s := by
  have further : ∀ {s t : Session}, (∃ used, Walked before start used s) →
      (InStep before s → ∃ used, Walked before s used t) → ∃ used, Walked before start used t := by
    rintro s t ⟨used, hs⟩ hstep
    rcases hstep hs.inStep with ⟨more, ht⟩
    exact ⟨used ++ more, hs.trans ht⟩
  induction h with
  | start => exact ⟨[], .refl hstart⟩
  | accepted _ hd run ih => exact further ih fun hs => (walked_of_meet hs hd).of_ok run
  | refused _ hd run ih => exact further ih fun hs => (walked_of_meet hs hd).of_error run

/-- Whatever was demanded of a tree and a plan, starting from the root alone and any plan: the tree
is arranged, and the plan has received the join of each node under the alias of its parent, in the
order of their numbers, and nothing else. A relationship that is refused changes nothing, and the
way of a path leads to the node that is named after its relationships. -/
theorem arranged_of_after {root rootAlias stem : String} {kind : JoinKind}
    (h : After ⟨.start root rootAlias stem kind, before⟩ s) :
    s.tree.Arranged root rootAlias stem kind ∧
    (∃ js, s.plan = { before with joins := before.joins ++ js } ∧ js.length = s.tree.joinCount ∧
      ∀ i parent, s.tree.parent? (i + 1) = some parent →
        js[i]? = some ⟨s.tree.aliasOf parent, s.tree.property (i + 1), s.tree.aliasOf (i + 1),
          (s.tree.node (i + 1)).kind⟩) ∧
    (∀ parent < s.tree.size, ∀ segment events e t,
      join parent segment ⟨s, events⟩ = .error e t → t = ⟨s, events⟩) ∧
    ∀ path events id t, owner path ⟨s, events⟩ = .ok id t →
      t.state.tree.pathOf id = ".".intercalate (path.navigation.map (·.name)) := by
  rcases h.walked (inStep_start root rootAlias stem kind before) with ⟨used, hwalk⟩
  have hsound := hwalk.inStep.sound
  refine ⟨JoinTree.arranged_of_reaches hwalk.tree hsound, ?_, ?_, ?_⟩
  · refine ⟨s.tree.joins, ?_, JoinTree.length_joins s.tree, fun i parent hparent => ?_⟩
    · rw [← hwalk.inStep.joins]
      exact hwalk.plan
    · exact JoinTree.getElem?_joins hparent
  · intro parent hparent segment events e t run
    exact ((ensures_join segment hwalk.inStep (hsound.id?_chain hparent)).of_error run).1
  · intro path events id t run
    have hdone := (ensures_owner path hwalk.inStep).of_ok run
    have hid := (hdone.1.inStep.sound.id?_eq_some_iff.1 hdone.2).2
    exact congrArg (".".intercalate ·) hid

/-- A plan of loans that has an alias of its own under the number two. -/
def lent : Plan :=
  { Plan.start "Loan" "this" with joins := [⟨"this", "Borrower", "j2", .inner⟩] }

/-- The books of the loans are joined, under the number one. -/
def booked : Session :=
  ⟨⟨[⟨"Loan", .reference "Loan", .leftOuter, "this", none, [("Book", 1)]⟩,
      ⟨"Book", .reference "Book", .leftOuter, "j1", some 0, []⟩], "j", 2⟩,
    { lent with joins := lent.joins ++ [⟨"this", "Book", "j1", .leftOuter⟩] }⟩

-- The books are joined first. The way to the names of their authors starts with them and is then
-- refused, since the plan knows the alias with the number two.
theorem arranged_of_after_loans :
    After ⟨.start "Loan" "this" "j" .leftOuter, lent⟩ booked ∧
      booked.tree.Arranged "Loan" "this" "j" .leftOuter ∧
      ∀ segment events e t,
        join 1 segment ⟨booked, events⟩ = .error e t → t = ⟨booked, events⟩ := by
  let book : Segment := ⟨"Book", .reference "Book"⟩
  let author : Segment := ⟨"Author", .reference "Author"⟩
  let joined : Event := .joined ⟨"this", "Book", "j1", .leftOuter⟩
  have hbook : (Demand.relationship 0 book).meet ⟨⟨.start "Loan" "this" "j" .leftOuter, lent⟩, []⟩ =
      .ok 1 ⟨booked, [joined]⟩ := rfl
  have hauthor : (Demand.way ⟨"Loan", [book, author], ⟨"Name", .scalar .string⟩⟩).meet
      ⟨booked, [joined]⟩ =
      .error (.engine "create_sub_criteria" "alias 'j2' is already in use") ⟨booked, [joined]⟩ := by
    with_unfolding_all rfl
  have hafter : After ⟨.start "Loan" "this" "j" .leftOuter, lent⟩ booked :=
    .refused (.accepted .start (by exact Nat.one_pos) hbook) (by exact trivial) hauthor
  have hall := arranged_of_after hafter
  exact ⟨hafter, hall.1, hall.2.2.1 1 (by decide)⟩

end Session

end PathQuery
