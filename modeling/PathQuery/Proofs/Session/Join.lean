import PathQuery.Proofs.Action
import PathQuery.Proofs.JoinTree.Chains

/-!
# Joining relationships during a compilation

While a compilation joins relationships, the joins of its plan are those that were there before and
then those of its tree. It uses the chains on the way of a path from the shortest to the longest,
and it can only fail where an alias of the plan is in the way.
-/

namespace PathQuery

/-! ## Plans that take joins -/

namespace Plan

variable {p q : Plan} {j : Join} {e : Error}

/-- A join is taken under a known alias and with an unknown one, and comes behind all others. -/
theorem join_eq_ok_iff :
    p.join j = .ok q ↔ p.hasAlias j.parent = true ∧ p.hasAlias j.ownAlias = false ∧
      q = { p with joins := p.joins ++ [j] } := by
  rw [join]
  cases p.hasAlias j.parent <;> cases p.hasAlias j.ownAlias <;> simp [eq_comm]

/-- A join is refused for its parent first and then for its own alias. -/
theorem join_eq_error_iff :
    p.join j = .error e ↔
      p.hasAlias j.parent = false ∧
        e = .engine "create_sub_criteria" s!"unknown parent alias '{j.parent}'" ∨
      p.hasAlias j.parent = true ∧ p.hasAlias j.ownAlias = true ∧
        e = .engine "create_sub_criteria" s!"alias '{j.ownAlias}' is already in use" := by
  rw [join]
  cases p.hasAlias j.parent <;> cases p.hasAlias j.ownAlias <;> simp [eq_comm]

theorem hasAlias_eq_true {a : String} :
    p.hasAlias a = true ↔ a = p.rootAlias ∨ ∃ j ∈ p.joins, j.ownAlias = a := by
  simp only [hasAlias, Bool.or_eq_true, beq_iff_eq, List.any_eq_true]

end Plan

namespace Session

/-! ## Trees and plans in step -/

/-- The tree is sound, and its joins stand in the plan behind those of an earlier plan, which knows
none of their aliases. -/
structure InStep (before : Plan) (s : Session) : Prop where
  sound : s.tree.Sound
  rootAlias : s.plan.rootAlias = before.rootAlias
  joins : s.plan.joins = before.joins ++ s.tree.joins
  fresh : ∀ i < s.tree.chains.length, before.hasAlias (generatedAlias s.tree.stem (i + 1)) = false

/-- An earlier plan knows the root alias and no generated one. -/
structure Clear (before : Plan) (t : JoinTree) : Prop where
  root : before.hasAlias t.rootAlias = true
  generated : ∀ n, before.hasAlias (generatedAlias t.stem n) = false

variable {before : Plan} {s : Session} {chain : List String} {parent : Nat} {segment : Segment}

theorem Clear.reaches {t u : JoinTree} {used : List (List String)} (h : Clear before t)
    (hu : t.Reaches used u) : Clear before u := by
  refine ⟨?_, ?_⟩
  · rw [hu.rootAlias]
    exact h.root
  · rw [hu.stem]
    exact h.generated

-- Before anything is joined, tree and plan are in step.
theorem inStep_start (root rootAlias stem : String) (kind : JoinKind) (p : Plan) :
    InStep p ⟨.start root rootAlias stem kind, p⟩ :=
  ⟨JoinTree.sound_start root rootAlias stem kind, rfl, (List.append_nil p.joins).symm, nofun⟩

theorem InStep.closed (h : InStep before s) : ClosedChains s.tree.chains :=
  h.sound.closed

-- What the earlier plan knows is known.
theorem InStep.hasAlias_of_before (h : InStep before s) {a : String}
    (ha : before.hasAlias a = true) : s.plan.hasAlias a = true := by
  rw [Plan.hasAlias_eq_true, h.rootAlias, h.joins]
  apply (Plan.hasAlias_eq_true.1 ha).imp_right
  intro hjoin
  rcases hjoin with ⟨j, hj, heq⟩
  exact ⟨j, List.mem_append_left _ hj, heq⟩

-- The other fields of a plan play no part.
theorem InStep.congr {p : Plan} (h : InStep before s) (hroot : p.rootAlias = s.plan.rootAlias)
    (hjoins : p.joins = s.plan.joins) : InStep before ⟨s.tree, p⟩ :=
  ⟨h.sound, hroot.trans h.rootAlias, hjoins.trans h.joins, h.fresh⟩

-- The plan knows the alias of every node.
theorem InStep.hasAlias (h : InStep before s) (hclear : Clear before s.tree)
    (hparent : parent < s.tree.size) : s.plan.hasAlias (s.tree.aliasOf parent) = true := by
  cases parent with
  | zero => exact h.hasAlias_of_before hclear.root
  | succ i =>
    obtain ⟨earlier, -, hp⟩ := h.sound.parent _ (Nat.succ_pos i) hparent
    rw [Plan.hasAlias_eq_true, h.joins]
    exact .inr ⟨_, List.mem_append_right _ (List.mem_of_getElem? (JoinTree.getElem?_joins hp)), rfl⟩

-- The plan does not know the alias that comes next.
theorem InStep.next_unknown (h : InStep before s) (hclear : Clear before s.tree) :
    s.plan.hasAlias s.tree.nextAlias = false := by
  rw [h.sound.nextAlias_eq, Bool.eq_false_iff, Ne, Plan.hasAlias_eq_true, h.rootAlias, h.joins,
    h.sound.joins_eq]
  have hbefore := hclear.generated (s.tree.chains.length + 1)
  rw [Bool.eq_false_iff, Ne, Plan.hasAlias_eq_true] at hbefore
  intro hknown
  rcases hknown with hroot | ⟨j, hj, heq⟩
  · exact hbefore (.inl hroot)
  · rcases List.mem_append.1 hj with hj | hj
    · exact hbefore (.inr ⟨j, hj, heq⟩)
    · rcases exists_number_of_mem_chainJoins hj with ⟨i, hi, hown⟩
      have hsame := generatedAlias_injective (hown.symm.trans heq)
      omega

-- Nothing is in the way of the join of a new node.
theorem InStep.not_refused {name : String} {e : Error} (h : InStep before s)
    (hclear : Clear before s.tree) (hparent : parent < s.tree.size) :
    s.plan.join ⟨s.tree.aliasOf parent, name, s.tree.nextAlias, s.tree.kind⟩ ≠ .error e := by
  intro hrefuse
  rcases Plan.join_eq_error_iff.1 hrefuse with ⟨hunknown, -⟩ | ⟨-, hown, -⟩
  · rw [h.hasAlias hclear hparent] at hunknown
    cases hunknown
  · rw [h.next_unknown hclear] at hown
    cases hown

-- The plan takes the join of a new node.
theorem InStep.grow (h : InStep before s) (hparent : parent < s.tree.size)
    (hnew : s.tree.child? parent segment.name = none)
    (hown : s.plan.hasAlias s.tree.nextAlias = false) :
    InStep before ⟨s.tree.grow parent segment, { s.plan with
      joins := s.plan.joins ++
        [⟨s.tree.aliasOf parent, segment.name, s.tree.nextAlias, s.tree.kind⟩] }⟩ := by
  refine ⟨h.sound.grow hparent hnew, h.rootAlias, ?_, ?_⟩
  · rw [h.sound.joins_grow hparent hnew, ← List.append_assoc, ← h.joins]
  · intro i hi
    rw [JoinTree.chains_grow hparent, List.length_append, List.length_singleton] at hi
    by_cases hlt : i < s.tree.chains.length
    · exact h.fresh i hlt
    -- the plan does not know the new alias, nor does the earlier plan
    · obtain rfl : i = s.tree.chains.length := by omega
      rw [h.sound.nextAlias_eq, Bool.eq_false_iff] at hown
      rw [Bool.eq_false_iff]
      exact fun hbefore => hown (h.hasAlias_of_before hbefore)

/-! ## Walking along chains -/

/-- Only chains were joined, and the plan stayed in step. -/
structure Walked (before : Plan) (s : Session) (used : List (List String)) (t : Session) :
    Prop where
  inStep : InStep before t
  tree : s.tree.Reaches used t.tree
  plan : t.plan = { s.plan with joins := t.plan.joins }

theorem Walked.refl (h : InStep before s) : Walked before s [] s :=
  ⟨h, .refl h.closed, rfl⟩

theorem Walked.trans {t u : Session} {used more : List (List String)}
    (h : Walked before s used t) (h' : Walked before t more u) :
    Walked before s (used ++ more) u :=
  ⟨h'.inStep, h.tree.trans h'.tree, by rw [h'.plan, h.plan]⟩

/-- Joining a relationship of a node leads to the node of the longer chain. Where nothing is in the
way it does not fail, and if it fails it changes nothing. -/
theorem ensures_join {s : Logged Session} (segment : Segment) (h : InStep before s.state)
    (hid : s.state.tree.id? chain = some parent) :
    (join parent segment).Ensures s
      (fun id t => Walked before s.state [chain ++ [segment.name]] t.state ∧
        t.state.tree.id? (chain ++ [segment.name]) = some id)
      (fun _ t => t = s ∧ ¬ Clear before s.state.tree) := by
  have hsound := h.sound
  rw [join, Action.ensures_bind, Action.ensures_current]
  dsimp only
  cases hold : s.state.tree.child? parent segment.name with
  | some id =>
    -- the relationship is joined already
    rw [JoinTree.child?_of_id? hid] at hold
    have hmem := (hsound.mem_of_id? hold).resolve_left (List.concat_ne_nil _ _)
    exact ⟨⟨h, .known h.closed hmem, rfl⟩, hold⟩
  | none =>
    -- a new relationship is joined under the next alias
    obtain ⟨hparent, rfl⟩ := hsound.id?_eq_some_iff.1 hid
    have hnew := hsound.notMem_of_id? ((JoinTree.child?_of_id? hid _).symm.trans hold)
    simp only [issue, Action.ensures_bind, Action.ensures_focus, Action.ensures_current,
      Action.ensures_put, Action.ensures_report, Action.ensures_pure]
    apply (Plan.ensures_perform _ _).imp
    · intro _ t hdone
      rcases hdone with ⟨htake, -⟩
      rcases Plan.join_eq_ok_iff.1 htake with ⟨-, hown, hplan⟩
      rw [hplan]
      have hstep := h.grow hparent hold hown
      refine ⟨⟨hstep, .grow hsound hparent hnew, rfl⟩, hstep.sound.id?_eq_some_iff.2 ⟨?_, ?_⟩⟩
      · rw [JoinTree.size_grow]
        exact Nat.lt_succ_self _
      · exact JoinTree.chain_grow_size hparent
    · intro e t hdone
      rcases hdone with ⟨hrefuse, rfl⟩
      exact ⟨rfl, fun hclear => h.not_refused hclear hparent hrefuse⟩

-- A walk goes on with the relationship of the node that it has reached.
theorem Walked.ensures_join {t : Logged Session} {used : List (List String)}
    (h : Walked before s used t.state) (segment : Segment)
    (hid : t.state.tree.id? chain = some parent) :
    (join parent segment).Ensures t
      (fun id u => Walked before s (used ++ [chain ++ [segment.name]]) u.state ∧
        u.state.tree.id? (chain ++ [segment.name]) = some id)
      (fun _ _ => ¬ Clear before s.tree) := by
  apply (Session.ensures_join segment h.inStep hid).imp
  · intro id u hdone
    exact ⟨h.trans hdone.1, hdone.2⟩
  · intro e u hdone hclear
    exact hdone.2 (hclear.reaches h.tree)

-- The chains behind a node begin with the one of its first name.
theorem append_chainsAlong_cons (chain : List String) (name : String) (names : List String) :
    (chainsAlong (name :: names)).map (chain ++ ·) =
      [chain ++ [name]] ++ (chainsAlong names).map (chain ++ [name] ++ ·) := by
  simp only [chainsAlong_cons, List.map_cons, List.map_map, List.singleton_append,
    Function.comp_def, List.append_assoc]

-- Walking along segments uses one longer chain after the other, and stays in step where it stops.
theorem ensures_walk {s : Logged Session} (segments : List Segment) (h : InStep before s.state)
    (hid : s.state.tree.id? chain = some parent) :
    (segments.foldlM join parent : Action Session Nat).Ensures s
      (fun id t => Walked before s.state
          ((chainsAlong (segments.map (·.name))).map (chain ++ ·)) t.state ∧
        t.state.tree.id? (chain ++ segments.map (·.name)) = some id)
      (fun _ t => (∃ used, Walked before s.state used t.state) ∧ ¬ Clear before s.state.tree) := by
  -- each segment starts at the node that the one before has led to
  induction segments generalizing chain parent s with
  | nil =>
    refine ⟨.refl h, ?_⟩
    rw [List.map_nil, List.append_nil]
    exact hid
  | cons segment segments ih =>
    rw [List.foldlM_cons, Action.ensures_bind]
    refine (ensures_join segment h hid).imp ?_ ?_
    · intro id t hdone
      rcases hdone with ⟨hwalk, hnext⟩
      apply (ih hwalk.inStep hnext).imp
      · intro last u hdone
        rcases hdone with ⟨hrest, hlast⟩
        rw [List.map_cons, append_chainsAlong_cons,
          List.append_cons chain segment.name (segments.map (·.name))]
        exact ⟨hwalk.trans hrest, hlast⟩
      · intro e u hfail
        rcases hfail with ⟨⟨used, hrest⟩, hclear⟩
        exact ⟨⟨_, hwalk.trans hrest⟩, fun h => hclear (h.reaches hwalk.tree)⟩
    · intro e t hfail
      rw [hfail.1]
      exact ⟨⟨[], .refl h⟩, hfail.2⟩

-- The owner of a path's end is the node at the end of its way.
theorem ensures_owner {s : Logged Session} (path : Path) (h : InStep before s.state) :
    (owner path).Ensures s
      (fun id t => Walked before s.state (chainsAlong path.way) t.state ∧
        t.state.tree.id? path.way = some id)
      (fun _ t => (∃ used, Walked before s.state used t.state) ∧ ¬ Clear before s.state.tree) := by
  have hwalk := ensures_walk path.navigation h (rfl : s.state.tree.id? [] = some 0)
  simpa only [owner, Path.way, List.nil_append, List.map_id'] using hwalk

-- The end of a path is qualified by the alias at the end of its way.
theorem ensures_qualify {s : Logged Session} (path : Path) (h : InStep before s.state) :
    (qualify path).Ensures s
      (fun reference t => Walked before s.state (chainsAlong path.way) t.state ∧
        reference = t.state.tree.reference path.way path.terminal.name)
      (fun _ _ => ¬ Clear before s.state.tree) := by
  rw [qualify, Action.ensures_bind]
  refine (ensures_owner path h).imp ?_ fun _ _ hfail => hfail.2
  intro id t hdone
  rcases hdone with ⟨hwalk, hid⟩
  refine ⟨hwalk, ?_⟩
  rw [JoinTree.reference, hwalk.inStep.sound.aliasOf_of_id? hid]

end Session

end PathQuery
