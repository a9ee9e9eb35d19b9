import PathQuery.Proofs.Session.Instructions
import PathQuery.Proofs.Trails

/-!
# Joins as a forest

A plan takes a join only under an alias that it knows and with one that it does not know yet. So
whatever a plan is told, and whatever of it is refused, its joins stay a forest below the root: they
have aliases of their own, and each of them stands under the root or under an earlier one.
-/

namespace PathQuery

namespace Plan

/-- The aliases that the plan knows: that of the root, and those of the joins in their order. -/
def aliases (p : Plan) : List String :=
  p.rootAlias :: p.joins.map (·.ownAlias)

/-- No alias is known twice, and every join stands under the root or under an earlier join. -/
structure Forest (p : Plan) : Prop where
  distinct : p.aliases.Nodup
  parents : ∀ (i : Nat) (j : Join), p.joins[i]? = some j →
    j.parent = p.rootAlias ∨ ∃ k < i, ∃ earlier : Join, p.joins[k]? = some earlier ∧
      j.parent = earlier.ownAlias

variable {p q : Plan} {i : Instruction} {j : Join} {e : Error}

/-! ## Taking joins -/

theorem hasAlias_eq_true_iff {a : String} : p.hasAlias a = true ↔ a ∈ p.aliases := by
  rw [hasAlias_eq_true, aliases, List.mem_cons, List.mem_map]

theorem hasAlias_eq_false_iff {a : String} : p.hasAlias a = false ↔ a ∉ p.aliases := by
  rw [← hasAlias_eq_true_iff, Bool.not_eq_true]

theorem takes_iff :
    p.join j = .ok q ↔ j.parent ∈ p.aliases ∧ j.ownAlias ∉ p.aliases ∧
      q = { p with joins := p.joins ++ [j] } := by
  rw [join_eq_ok_iff, hasAlias_eq_true_iff, hasAlias_eq_false_iff]

theorem refuses_iff :
    p.join j = .error e ↔
      j.parent ∉ p.aliases ∧
        e = .engine "create_sub_criteria" s!"unknown parent alias '{j.parent}'" ∨
      j.parent ∈ p.aliases ∧ j.ownAlias ∈ p.aliases ∧
        e = .engine "create_sub_criteria" s!"alias '{j.ownAlias}' is already in use" := by
  rw [join_eq_error_iff, hasAlias_eq_true_iff, hasAlias_eq_true_iff, hasAlias_eq_false_iff]

theorem perform_eq_ok_iff {s t : Logged Plan} :
    perform i s = .ok () t ↔
      s.state.apply i = .ok t.state ∧ t.events = s.events ++ i.events := by
  obtain ⟨q, events⟩ := t
  unfold perform
  cases s.state.apply i <;> simp [eq_comm]

theorem perform_eq_error_iff {s t : Logged Plan} :
    perform i s = .error e t ↔ s.state.apply i = .error e ∧ t = s := by
  unfold perform
  cases s.state.apply i <;> simp [eq_comm]

/-! ## Keeping the forest -/

theorem forest_start (entity rootAlias : String) : (start entity rootAlias).Forest :=
  ⟨List.nodup_singleton rootAlias, nofun⟩

-- The other fields of a plan play no part.
theorem Forest.congr (h : p.Forest) (hroot : q.rootAlias = p.rootAlias)
    (hjoins : q.joins = p.joins) : q.Forest := by
  refine ⟨?_, ?_⟩
  · rw [aliases, hroot, hjoins]
    exact h.distinct
  · rw [hroot, hjoins]
    exact h.parents

-- A known alias other than the root's is that of a join.
theorem exists_join_of_mem_aliases {a : String} (h : a ∈ p.aliases) :
    a = p.rootAlias ∨ ∃ k < p.joins.length, ∃ earlier, p.joins[k]? = some earlier ∧
      a = earlier.ownAlias := by
  refine (List.mem_cons.1 h).imp_right fun hmem => ?_
  obtain ⟨earlier, hearlier, rfl⟩ := List.mem_map.1 hmem
  obtain ⟨k, hk⟩ := List.mem_iff_getElem?.1 hearlier
  exact ⟨k, (List.getElem?_eq_some_iff.1 hk).1, earlier, hk, rfl⟩

theorem Forest.concat (h : p.Forest) (hparent : j.parent ∈ p.aliases)
    (hown : j.ownAlias ∉ p.aliases) : Forest { p with joins := p.joins ++ [j] } := by
  refine ⟨?_, fun i other hother => ?_⟩
  · have haliases : aliases { p with joins := p.joins ++ [j] } = p.aliases ++ [j.ownAlias] := by
      simp [aliases]
    rw [haliases, List.nodup_append]
    refine ⟨h.distinct, List.nodup_singleton _, fun a ha b hb => ?_⟩
    rw [List.mem_singleton.1 hb]
    rintro rfl
    exact hown ha
  · -- an earlier join keeps its parent, and the new one has a parent among the earlier ones
    have hearlier : ∀ k < p.joins.length, (p.joins ++ [j])[k]? = p.joins[k]? :=
      fun k hk => List.getElem?_append_left hk
    by_cases hi : i < p.joins.length
    · refine (h.parents i other (by rwa [← hearlier i hi])).imp_right ?_
      rintro ⟨k, hk, parent, hget, heq⟩
      exact ⟨k, hk, parent, (hearlier k (by omega)).trans hget, heq⟩
    · obtain ⟨rfl, rfl⟩ : i = p.joins.length ∧ j = other := by
        have hlast : i = p.joins.length := by
          have hlt := (List.getElem?_eq_some_iff.1 hother).1
          simp only [List.length_append, List.length_singleton] at hlt
          omega
        refine ⟨hlast, ?_⟩
        simpa [hlast] using hother
      refine (exists_join_of_mem_aliases hparent).imp_right ?_
      rintro ⟨k, hk, parent, hget, heq⟩
      exact ⟨k, hk, parent, (hearlier k hk).trans hget, heq⟩

/-- Every instruction that a plan takes keeps the forest. -/
theorem Forest.apply (h : p.Forest) (run : p.apply i = .ok q) : q.Forest := by
  cases i with
  | join j =>
    obtain ⟨hparent, hown, rfl⟩ := takes_iff.1 run
    exact h.concat hparent hown
  | restrict _ | order _ | offset _ | limit _ | select _ | bindResult _ =>
    cases run
    exact h.congr rfl rfl

/-! ## Climbing to the root -/

theorem Forest.ownAlias_ne (h : p.Forest) (hj : j ∈ p.joins) : j.ownAlias ≠ p.rootAlias := by
  intro heq
  have hroot := (List.nodup_cons.1 h.distinct).1
  rw [← heq] at hroot
  exact hroot (List.mem_map_of_mem hj)

-- One step less is left for the parent, which stands in an earlier place.
theorem Forest.exists_trail_of_lt (h : p.Forest) (place : Nat) :
    ∀ j, p.joins[place]? = some j → ∀ n, place < n →
      ∃ names, p.trail? n j.ownAlias = some (names ++ [j.property]) := by
  induction place using Nat.strong_induction_on with
  | h place ih =>
    intro j hj n hn
    obtain ⟨m, rfl⟩ : ∃ m, n = m + 1 := ⟨n - 1, by omega⟩
    have hmem := List.mem_of_getElem? hj
    rw [trail?, if_neg (h.ownAlias_ne hmem),
      find?_ownAlias (List.nodup_cons.1 h.distinct).2 hmem, Option.bind_some]
    rcases h.parents place j hj with hroot | ⟨k, hk, earlier, hearlier, hparent⟩
    · exact ⟨[], by rw [hroot, trail?_rootAlias]; rfl⟩
    · obtain ⟨names, hnames⟩ := ih k hk earlier hearlier m (by omega)
      exact ⟨names ++ [earlier.property], by rw [hparent, hnames]; rfl⟩

/-- From every join the parents lead to the root, in no more steps than there are joins. -/
theorem Forest.exists_trail (h : p.Forest) (hj : j ∈ p.joins) :
    ∃ names, p.trail? p.joins.length j.ownAlias = some (names ++ [j.property]) := by
  obtain ⟨place, hplace⟩ := List.mem_iff_getElem?.1 hj
  exact h.exists_trail_of_lt place j hplace _ (List.getElem?_eq_some_iff.1 hplace).1

/-! ## Whatever a plan is told -/

/-- What becomes of a plan that is created for an entity and a root alias, told instructions and
filled by compilations, whichever of these fail. -/
inductive Handled (entity rootAlias : String) : Plan → Prop where
  | created : Handled entity rootAlias (.start entity rootAlias)
  | accepted {s t : Logged Plan} {i : Instruction} (h : Handled entity rootAlias s.state)
    (run : perform i s = .ok () t) : Handled entity rootAlias t.state
  | refused {s t : Logged Plan} {i : Instruction} {e : Error}
    (h : Handled entity rootAlias s.state) (run : perform i s = .error e t) :
    Handled entity rootAlias t.state
  | compiled {s t : Logged Plan} {settings : Settings} {spec : Spec} {c : Compilation}
    (h : Handled entity rootAlias s.state) (run : spec.compile settings s = .ok c t) :
    Handled entity rootAlias t.state
  | stopped {s t : Logged Plan} {settings : Settings} {spec : Spec} {e : Error}
    (h : Handled entity rootAlias s.state) (run : spec.compile settings s = .error e t) :
    Handled entity rootAlias t.state

/-- A compilation, of whatever specification, changes a plan by instructions only. -/
theorem receives_compile (settings : Settings) (spec : Spec) (s : Logged Plan) :
    (spec.compile settings).Ensures s (fun _ t => s.state.Receives (fun _ => True) t.state)
      (fun _ t => s.state.Receives (fun _ => True) t.state) := by
  rw [Spec.ensures_compile_iff]
  exact (Session.tells_spec spec).mono (fun _ _ => trivial) _

theorem Handled.receives {entity rootAlias : String} (h : Handled entity rootAlias p) :
    (start entity rootAlias).Receives (fun _ => True) p := by
  induction h with
  | created => exact .nothing
  | accepted _ run ih => exact ih.taken trivial ((ensures_perform _ _).of_ok run).1
  | refused _ run ih =>
    rw [((ensures_perform _ _).of_error run).2]
    exact ih
  | compiled _ run ih => exact ih.trans ((receives_compile _ _ _).of_ok run)
  | stopped _ run ih => exact ih.trans ((receives_compile _ _ _).of_error run)

-- No instruction changes what the plan was created for.
theorem created_apply (run : p.apply i = .ok q) :
    q.entity = p.entity ∧ q.rootAlias = p.rootAlias := by
  cases i with
  | join j =>
    obtain ⟨-, -, rfl⟩ := takes_iff.1 run
    exact ⟨rfl, rfl⟩
  | restrict _ | order _ | offset _ | limit _ | select _ | bindResult _ =>
    cases run
    exact ⟨rfl, rfl⟩

/-- Whatever a plan has been told, and whatever of it was refused: its joins are a forest, in which
the parents lead from every join to the root. It takes a join exactly under an alias that it knows
and with one that it does not know, and then has that join behind all others; it refuses any other
join for its parent first and then for its alias. What is refused changes nothing at all. -/
theorem forest_of_handled {entity rootAlias : String} (h : Handled entity rootAlias p) :
    (p.entity = entity ∧ p.rootAlias = rootAlias) ∧ p.Forest ∧
    (∀ j ∈ p.joins, ∃ names, p.trail? p.joins.length j.ownAlias = some (names ++ [j.property])) ∧
    (∀ j events t, perform (.join j) ⟨p, events⟩ = .ok () t ↔
      j.parent ∈ p.aliases ∧ j.ownAlias ∉ p.aliases ∧
        t = ⟨{ p with joins := p.joins ++ [j] }, events⟩) ∧
    (∀ j events e, (∃ t, perform (.join j) ⟨p, events⟩ = .error e t) ↔
      j.parent ∉ p.aliases ∧
        e = .engine "create_sub_criteria" s!"unknown parent alias '{j.parent}'" ∨
      j.parent ∈ p.aliases ∧ j.ownAlias ∈ p.aliases ∧
        e = .engine "create_sub_criteria" s!"alias '{j.ownAlias}' is already in use") ∧
    ∀ i events e t, perform i ⟨p, events⟩ = .error e t → t = ⟨p, events⟩ := by
  have hreceived := h.receives
  have hforest : p.Forest :=
    hreceived.invariant Forest (forest_start entity rootAlias) fun hq _ run => hq.apply run
  refine ⟨?_, hforest, fun j => hforest.exists_trail, fun j events t => ?_, fun j events e => ?_,
    fun i events e t run => (perform_eq_error_iff.1 run).2⟩
  · refine hreceived.invariant (fun q => q.entity = entity ∧ q.rootAlias = rootAlias)
      ⟨rfl, rfl⟩ fun hq _ run => ?_
    rwa [(created_apply run).1, (created_apply run).2]
  · obtain ⟨q, reported⟩ := t
    rw [perform_eq_ok_iff]
    show p.join j = .ok q ∧ reported = events ++ [] ↔ _
    rw [takes_iff, List.append_nil, Logged.mk.injEq]
    tauto
  · rw [← refuses_iff]
    constructor
    · rintro ⟨t, run⟩
      exact (perform_eq_error_iff.1 run).1
    · intro hrefused
      exact ⟨_, perform_eq_error_iff.2 ⟨hrefused, rfl⟩⟩

/-- A handle with a join under an alias that compilations generate too. -/
def bossPlan : Plan :=
  { start "Employee" "this" with joins := [⟨"this", "boss", "alias_2", .inner⟩] }

/-- The handle after a compilation that has stopped at its second join. -/
def stoppedPlan : Plan :=
  { bossPlan with joins := bossPlan.joins ++ [⟨"this", "manager", "alias_1", .inner⟩] }

-- A join is taken, another one is refused and a compilation stops, and the joins are a forest.
theorem forest_of_handled_stopped :
    Handled "Employee" "this" stoppedPlan ∧ stoppedPlan.Forest ∧
      stoppedPlan.trail? 2 "alias_1" = some ["manager"] ∧
      ∃ t, perform (.join ⟨"alias_1", "manager", "alias_2", .inner⟩) ⟨stoppedPlan, []⟩ =
        .error (.engine "create_sub_criteria" "alias 'alias_2' is already in use") t := by
  have hboss : Handled "Employee" "this" bossPlan :=
    .accepted (s := ⟨start "Employee" "this", []⟩) (t := ⟨bossPlan, []⟩)
      (i := .join ⟨"this", "boss", "alias_2", .inner⟩) .created rfl
  have hrefused : Handled "Employee" "this" bossPlan :=
    .refused (s := ⟨bossPlan, []⟩) (t := ⟨bossPlan, []⟩)
      (i := .join ⟨"nobody", "boss", "b", .inner⟩) hboss rfl
  have hstopped : Handled "Employee" "this" stoppedPlan := by
    obtain ⟨e, t, run, hstate⟩ : ∃ e t,
        Spec.staff.compile .standard ⟨bossPlan, []⟩ = .error e t ∧ t.state = stoppedPlan := by
      rw [← Action.exists_error_iff, Spec.ensures_compile_iff]
      dsimp only -- what is reported plays no part
      cbv
    rw [← hstate]
    exact .stopped (s := ⟨bossPlan, []⟩) hboss run
  obtain ⟨-, hforest, -, -, herror, -⟩ := forest_of_handled hstopped
  have hparent : "alias_1" ∈ stoppedPlan.aliases := by decide
  have hown : "alias_2" ∈ stoppedPlan.aliases := by decide
  exact ⟨hstopped, hforest, rfl, (herror _ _ _).2 (.inr ⟨hparent, hown, by decide⟩)⟩

end Plan

end PathQuery
