import PathQuery.Proofs.Spec.Fluent

/-!
# Orderings and filters

An ordering opens a group of its own, no filter comes into that group, and no filter opens a group
behind it. A filter gets behind an ordering in one way only: it continues a group that something
else has opened there. Runs without such a call keep all filters in front of the first ordering.
-/

namespace PathQuery

open Condition (Kind Group)

/-! ## Groups -/

theorem Condition.Kind.isFilter_of_isOrdering {kind : Kind} (h : kind.isOrdering = true) :
    kind.isFilter = false := by
  revert h
  cases kind <;> decide

namespace Condition.Group

variable {g : Group} {c : Condition} {cs : List Condition} {kind : Kind}

/-- Whether the first condition is a filter. -/
def opensWithFilter (g : Group) : Bool :=
  g.conditions.head?.any (·.kind.isFilter)

@[simp]
theorem hasFilter_extend (g : Group) (cs : List Condition) :
    (g.extend cs).hasFilter = (g.hasFilter || cs.any (·.kind.isFilter)) :=
  List.any_append

theorem opensWithFilter_extend (h : g.conditions ≠ []) (cs : List Condition) :
    (g.extend cs).opensWithFilter = g.opensWithFilter := by
  obtain ⟨c, ds, hg⟩ := List.exists_cons_of_ne_nil h
  simp [opensWithFilter, extend, hg]

/-- An ordering stands at the front of its group, and there are no filters with it. -/
structure Orderly (g : Group) : Prop where
  nonempty : g.conditions ≠ []
  front : ∀ c ∈ g.conditions.tail, c.kind.isOrdering = false
  apart : g.hasOrdering = true → g.hasFilter = false

theorem orderly_singleton (c : Condition) : Orderly ⟨[c]⟩ := by
  refine ⟨List.cons_ne_nil c [], List.forall_mem_nil _, fun hordering => ?_⟩
  simp only [hasOrdering, hasFilter, List.any_cons, List.any_nil, Bool.or_false] at *
  exact Kind.isFilter_of_isOrdering hordering

theorem Orderly.extend (h : g.Orderly) (hcs : ∀ c ∈ cs, c.kind = kind)
    (hordering : kind.isOrdering = false) (hfilter : kind.isFilter = true → g.hasOrdering = false) :
    (g.extend cs).Orderly := by
  have hnone : cs.any (·.kind.isOrdering) = false := by
    rw [List.any_eq_false]
    intro c hc
    rw [hcs c hc, hordering]
    decide
  refine ⟨List.append_ne_nil_of_left_ne_nil h.nonempty _, fun c hc => ?_, fun hg => ?_⟩
  · rw [Group.extend, List.tail_append_of_ne_nil h.nonempty, List.mem_append] at hc
    rcases hc with hc | hc
    · exact h.front c hc
    · rw [hcs c hc, hordering]
  · rw [hasOrdering_extend, hnone, Bool.or_false] at hg
    rw [hasFilter_extend, h.apart hg, Bool.false_or, List.any_eq_false]
    intro c hc hfiltered
    rw [hcs c hc] at hfiltered
    rw [hfilter hfiltered] at hg
    cases hg

end Condition.Group

namespace Spec

variable {spec before after : Spec} {placement : Placement} {request : Request}
  {added : List Condition} {index : Nat}

-- What holds of a kind holds of all conditions that are asked for by it.
theorem Landed.any_kind (h : Landed placement request before added index after)
    (p : Kind → Bool) : added.any (fun c => p c.kind) = p request.kind := by
  obtain ⟨c, cs, rfl⟩ := List.exists_cons_of_ne_nil h.some_added
  rw [Bool.eq_iff_iff, List.any_eq_true]
  constructor
  · rintro ⟨d, hd, hp⟩
    rwa [(h.each d hd).1] at hp
  · intro hp
    refine ⟨c, List.mem_cons_self, ?_⟩
    rwa [(h.each c List.mem_cons_self).1]

/-! ## Behind an ordering -/

/-- No group behind one with an ordering is such a group. -/
def NoneBehind (p : Group → Bool) (groups : List Group) : Prop :=
  groups.Pairwise fun g h => g.hasOrdering = true → p h = false

-- New groups are all of one kind, and filters do not get groups of their own behind an ordering.
theorem Landed.noneBehind_of_newGroup {p : Group → Bool}
    (h : Landed .newGroup request before added index after)
    (hp : ∀ c : Condition, p ⟨[c]⟩ = c.kind.isFilter) (hbefore : NoneBehind p before.groups) :
    NoneBehind p after.groups := by
  obtain ⟨i, hslot⟩ := h.place
  obtain ⟨hopen, -⟩ := slot_newGroup_eq_ok.1 hslot
  have hnew : ∀ c ∈ added, p ⟨[c]⟩ = request.kind.isFilter := fun c hc => by
    rw [hp, (h.each c hc).1]
  rw [h.state, arrange, NoneBehind, List.pairwise_append]
  refine ⟨hbefore, ?_, ?_⟩
  · rw [List.pairwise_map]
    refine List.pairwise_of_forall_mem_list fun c hc d hd hordering => ?_
    simp only [Group.hasOrdering, List.any_cons, List.any_nil, Bool.or_false] at hordering
    rw [(h.each c hc).1] at hordering
    rw [hnew d hd, Kind.isFilter_of_isOrdering hordering]
  · intro g hg d hd hordering
    obtain ⟨c, hc, rfl⟩ := List.mem_map.1 hd
    have hany : before.groups.any Group.hasOrdering = true := List.any_eq_true.2 ⟨g, hg, hordering⟩
    rw [hnew c hc, Bool.eq_false_iff]
    intro hfilter
    rw [hopen hfilter] at hany
    cases hany

-- A group with the same orderings in the place of another one matters only to those before it.
theorem noneBehind_replace_iff {p : Group → Bool} {front back : List Group} {g g' : Group}
    (hsame : g'.hasOrdering = g.hasOrdering) (h : NoneBehind p (front ++ g :: back)) :
    NoneBehind p (front ++ g' :: back) ↔ ∀ d ∈ front, d.hasOrdering = true → p g' = false := by
  rw [NoneBehind, List.pairwise_append, List.pairwise_cons] at h
  rw [NoneBehind, List.pairwise_append, List.pairwise_cons, hsame]
  obtain ⟨hfront, hback, hcross⟩ := h
  constructor
  · rintro ⟨-, -, hcross'⟩ d hd
    exact hcross' d hd g' List.mem_cons_self
  · intro hg'
    refine ⟨hfront, hback, fun d hd e he => ?_⟩
    rcases List.mem_cons.1 he with rfl | he
    · exact hg' d hd
    · exact hcross d hd e (List.mem_cons_of_mem _ he)

/-- A group that is continued stays between the same groups and gets no ordering. -/
theorem Landed.exists_extended {target : Nat}
    (h : Landed (.group target) request before added index after) :
    ∃ g front back, before.groups = front ++ g :: back ∧ front = before.groups.take target ∧
      after.groups = front ++ g.extend added :: back ∧ request.kind.isOrdering = false ∧
      (request.kind.isFilter = true → g.hasOrdering = false) ∧
      (g.extend added).hasOrdering = g.hasOrdering := by
  obtain ⟨i, hslot⟩ := h.place
  obtain ⟨⟨g, hg, hordering, hfilter⟩, -⟩ := slot_group_eq_ok.1 hslot
  obtain ⟨hlt, rfl⟩ := List.getElem?_eq_some_iff.1 hg
  obtain ⟨front, g, back, hgroups, hlength, hput⟩ :=
    List.exists_of_modify (Group.extend · added) hlt
  have hg' : before.groups[target] = g := by simp [hgroups, ← hlength]
  rw [hg'] at hfilter
  refine ⟨g, front, back, hgroups, ?_, ?_, hordering, hfilter, ?_⟩
  · rw [hgroups, ← hlength, List.take_left]
  · rw [h.state, arrange, hput]
  · rw [Group.hasOrdering_extend, h.any_kind, hordering, Bool.or_false]

/-! ## What every run keeps -/

/-- The groups are orderly, and none behind an ordering is opened by a filter. -/
structure Kept (groups : List Group) : Prop where
  orderly : ∀ g ∈ groups, g.Orderly
  behind : NoneBehind Group.opensWithFilter groups

theorem Landed.kept (h : Landed placement request before added index after)
    (hbefore : Kept before.groups) : Kept after.groups := by
  cases placement with
  | newGroup =>
    refine ⟨fun g hg => ?_, ?_⟩
    · rw [h.state, arrange, List.mem_append, List.mem_map] at hg
      rcases hg with hg | ⟨c, -, rfl⟩
      · exact hbefore.orderly g hg
      · exact Group.orderly_singleton c
    · exact h.noneBehind_of_newGroup (fun _ => rfl) hbefore.behind
  | group target =>
    obtain ⟨g, front, back, hgroups, -, hafter, hordering, hfilter, hsame⟩ := h.exists_extended
    have hg : g.Orderly := hbefore.orderly g (by simp [hgroups])
    refine ⟨fun d hd => ?_, ?_⟩
    · rw [hafter, List.mem_append, List.mem_cons] at hd
      rcases hd with hd | rfl | hd
      · exact hbefore.orderly d (by simp [hgroups, hd])
      · exact hg.extend (fun c hc => (h.each c hc).1) hordering hfilter
      · exact hbefore.orderly d (by simp [hgroups, hd])
    · -- what the group was opened by stays
      have hbehind := hbefore.behind
      rw [hgroups] at hbehind
      rw [hafter, noneBehind_replace_iff hsame hbehind, Group.opensWithFilter_extend hg.nonempty]
      exact (noneBehind_replace_iff rfl hbehind).1 hbehind

/-! ## Filters behind orderings -/

/-- No group behind one with an ordering holds a filter. -/
def Sequenced (groups : List Group) : Prop :=
  NoneBehind Group.hasFilter groups

/-- A filter is to continue a group behind one with an ordering. -/
def Slips (spec : Spec) (placement : Placement) (request : Request) : Prop :=
  request.kind.isFilter = true ∧
    ∃ target, placement = .group target ∧ ∃ g ∈ spec.groups.take target, g.hasOrdering = true

-- A slip is the only way in which a filter gets behind an ordering.
theorem Landed.sequenced_iff (h : Landed placement request before added index after)
    (hbefore : Sequenced before.groups) :
    Sequenced after.groups ↔ ¬ Slips before placement request := by
  cases placement with
  | newGroup =>
    refine ⟨fun _ => ?_, fun _ => h.noneBehind_of_newGroup (fun c => Bool.or_false _) hbefore⟩
    rintro ⟨-, target, hplacement, -⟩
    cases hplacement
  | group target =>
    obtain ⟨g, front, back, hgroups, hfront, hafter, -, -, hsame⟩ := h.exists_extended
    rw [Sequenced, hgroups] at hbefore
    have hg := (noneBehind_replace_iff rfl hbefore).1 hbefore
    rw [Sequenced, hafter, noneBehind_replace_iff hsame hbefore, Group.hasFilter_extend, h.any_kind]
    constructor
    · rintro hnone ⟨hfilter, _, hplacement, d, hd, hordering⟩
      cases hplacement
      rw [← hfront] at hd
      have hor := hnone d hd hordering
      rw [hfilter, Bool.or_true] at hor
      cases hor
    · intro hslip d hd hordering
      rw [hg d hd hordering, Bool.false_or, Bool.eq_false_iff]
      intro hfilter
      rw [hfront] at hd
      exact hslip ⟨hfilter, target, rfl, d, hd, hordering⟩

/-! ## Refused filters -/

/-- What keeps a filter out of a place when there is an ordering in the way. -/
def barrier : Placement → OutOfOrder
  | .newGroup => .filterAfterOrdering
  | .group _ => .filterWithOrdering

/-- An ordering is in the way of filters: for a new group one in any group, for a group that is
there one in that group. -/
def Barred (spec : Spec) : Placement → Prop
  | .newGroup => ∃ g ∈ spec.groups, g.hasOrdering = true
  | .group target => ∃ g, spec.groups[target]? = some g ∧ g.hasOrdering = true

theorem slot_of_barred {kind : Kind} (hfilter : kind.isFilter = true) (h : spec.Barred placement) :
    spec.slot placement kind = .error (.outOfOrder (barrier placement)) := by
  cases placement with
  | newGroup =>
    have hany : spec.groups.any Group.hasOrdering = true := List.any_eq_true.2 h
    simp [slot, hfilter, hany, barrier]
  | group target =>
    obtain ⟨g, hg, hordering⟩ := h
    simp [slot, hg, hfilter, hordering, Kind.isOrdering_of_isFilter hfilter, barrier]

-- A filter that could be made is refused for the ordering in its way, and changes nothing.
theorem exists_error_of_barred (hfilter : request.kind.isFilter = true)
    (hnamed : request.isVacant = false) (h : spec.Barred placement) (events : List Event) :
    ∃ e t, perform placement request ⟨spec, events⟩ = .error e t ∧ t.state = spec ∧
      ∀ cs, spec.prepared request = .ok cs → e = .invalidSequence (barrier placement).reason := by
  have hslot := slot_of_barred hfilter h
  have houtcome := ensures_perform placement request ⟨spec, events⟩
  cases run : perform placement request ⟨spec, events⟩ with
  | ok index t =>
    obtain ⟨added, hlanded⟩ := landed_of_perform hnamed run
    obtain ⟨i, hplace⟩ := hlanded.place
    cases hslot.symm.trans hplace
  | error e t =>
    obtain ⟨ht, hcause⟩ := houtcome.of_error run
    refine ⟨e, t, rfl, ht, fun cs hcs => ?_⟩
    rcases hcause with hcause | ⟨m, hm, rfl⟩
    · cases hcs.symm.trans hcause
    · cases hslot.symm.trans hm
      rfl

/-! ## Runs -/

/-- A specification before any call. -/
def Started (spec : Spec) : Prop :=
  ∃ schema root, start schema root = .ok spec

theorem Started.groups_eq_nil (h : Started spec) : spec.groups = [] := by
  obtain ⟨schema, root, h⟩ := h
  obtain ⟨entity, -, h⟩ := Except.bind_eq_ok_iff.1 h
  cases h
  rfl

-- What holds without groups, and after every call that lands, holds after every run.
theorem Fluent.invariant {p : Spec → Placement → Request → Prop} {inv : List Group → Prop}
    {previous : Option Nat} (h : Fluent Started p spec previous) (hnil : inv [])
    (hstep : ∀ {placement request before added index after}, p before placement request →
      Landed placement request before added index after → inv before.groups → inv after.groups) :
    inv spec.groups := by
  induction h with
  | init h => rw [h.groups_eq_nil]; exact hnil
  | withJoinKind _ _ ih | withResultType _ _ ih | ended _ ih => exact ih
  | accepted _ hc run ih =>
    rcases (ensures_perform _ _ _).of_ok run with ⟨-, -, ht⟩ | ⟨-, added, hlanded⟩
    · rw [ht]
      exact ih
    · exact hstep hc hlanded ih
  | refused _ _ run ih =>
    rw [((ensures_perform _ _ _).of_error run).1]
    exact ih

/-- Whatever the calls were, groups are orderly and no filter has opened one behind an ordering. All
filters stand in front of the first ordering as long as no call slips, and exactly as long. Where an
ordering is in the way, a filter is refused and nothing changes. -/
theorem fluent_sequencing {p : Spec → Placement → Request → Prop} {previous : Option Nat}
    (h : Fluent Started p spec previous) :
    Kept spec.groups ∧
    ((∀ before placement request, p before placement request → ¬ Slips before placement request) →
      Sequenced spec.groups) ∧
    ∀ (placement : Placement) (request : Request) (events : List Event),
      request.isVacant = false →
      (request.kind.isFilter = true → spec.Barred placement →
        ∃ e t, perform placement request ⟨spec, events⟩ = .error e t ∧ t.state = spec ∧
          ∀ cs, spec.prepared request = .ok cs →
            e = .invalidSequence (barrier placement).reason) ∧
      (Sequenced spec.groups → ∀ index t, perform placement request ⟨spec, events⟩ = .ok index t →
        (Sequenced t.state.groups ↔ ¬ Slips spec placement request)) := by
  refine ⟨?_, fun hslips => ?_, fun placement request events hnamed => ⟨?_, ?_⟩⟩
  · exact h.invariant ⟨List.forall_mem_nil _, .nil⟩ fun _ hlanded hbefore => hlanded.kept hbefore
  · refine h.invariant .nil fun hp hlanded hbefore => ?_
    exact (hlanded.sequenced_iff hbefore).2 (hslips _ _ _ hp)
  · exact fun hfilter hbarred => exists_error_of_barred hfilter hnamed hbarred events
  · intro hsequenced index t run
    obtain ⟨added, hlanded⟩ := landed_of_perform hnamed run
    exact hlanded.sequenced_iff hsequenced

/-- A name, an order and a page behind it. -/
def orderedCalls : List Call :=
  [⟨.equal (.chain ["name"]) (.string "Ann"), false⟩, ⟨.orderByAscending (.chain ["name"]), false⟩,
   ⟨.take 10, false⟩]

def ordered : Spec :=
  (chain orderedCalls ⟨staffStart, []⟩).2.state

theorem started_staffStart : Started staffStart :=
  ⟨staffSchema, "Employee", rfl⟩

-- None of these calls continues a group, so the name stays in front, and a plain filter is refused.
theorem fluent_sequencing_ordered :
    Fluent Started (fun before placement request => ¬ Slips before placement request) ordered none ∧
      Sequenced ordered.groups ∧ ordered.Barred .newGroup ∧
      ∃ e t, perform .newGroup (.isNull (.chain ["age"])) ⟨ordered, []⟩ = .error e t ∧
        t.state = ordered ∧
        e = .invalidSequence "Cannot add a filter condition after an order by clause" := by
  have hplain : ∀ c ∈ orderedCalls, c.continues = false := by
    simp [orderedCalls]
  have hrun : Fluent Started (fun before placement request => ¬ Slips before placement request)
      ordered none := by
    refine Fluent.chain (.init started_staffStart) orderedCalls fun c hc spec previous => ?_
    rintro ⟨-, target, hplacement, -⟩
    cases previous <;> simp [Call.placement, hplain c hc] at hplacement
  have hbarred : ordered.Barred .newGroup := ⟨⟨ordered.conditions.drop 1 |>.take 1⟩, by decide⟩
  obtain ⟨-, hsequenced, hrefused⟩ := fluent_sequencing hrun
  obtain ⟨e, t, run, ht, he⟩ :=
    (hrefused .newGroup (.isNull (.chain ["age"])) [] rfl).1 rfl hbarred
  exact ⟨hrun, hsequenced fun _ _ _ => id, hbarred, e, t, run, ht, he _ rfl⟩

/-- An order, a selection behind it, and an alternative to the selection. -/
def lateCalls : List Call :=
  [⟨.orderByAscending (.chain ["name"]), false⟩, ⟨.select (.chain ["name"]), false⟩,
   ⟨.equal (.chain ["name"]) (.string "Ann"), true⟩]

def late : Spec :=
  (chain lateCalls ⟨staffStart, []⟩).2.state

-- The alternative is accepted, so there is a filter behind the ordering.
theorem not_sequenced_late :
    Fluent Started (fun _ _ _ => True) late none ∧
      (chain lateCalls ⟨staffStart, []⟩).1 = [.ok 0, .ok 1, .ok 1] ∧
      ¬ Sequenced late.groups :=
  ⟨Fluent.chain (.init started_staffStart) lateCalls fun _ _ _ _ => trivial, rfl, by
    unfold Sequenced NoneBehind; decide⟩

end Spec

end PathQuery
