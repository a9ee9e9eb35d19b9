import PathQuery.Path
import PathQuery.Proofs.Except

/-!
# Resolving accessors

An accessor resolves to a path when it is a chain of names that lead from entity to entity. If it
does not resolve, the error is that of its form, or that of the first name that leads nowhere.
-/

namespace PathQuery

/-! ## The form of accessors -/

namespace Accessor

/-- The accessor with all widenings of its chain removed. -/
def plain : Accessor → Accessor
  | .root => .root
  | .member owner name => .member owner.plain name
  | .widen operand _ => operand.plain
  | .tuple items => .tuple items

/-- Whether a tuple stands in the chain. -/
def hasTuple : Accessor → Bool
  | .root => false
  | .member owner _ => owner.hasTuple
  | .widen operand _ => operand.hasTuple
  | .tuple _ => true

variable {a : Accessor} {names : List String} {e : Error}

theorem chain_concat (names : List String) (name : String) :
    chain (names ++ [name]) = member (chain names) name :=
  List.foldl_concat member root name names

theorem chain_eq_root_iff : chain names = root ↔ names = [] := by
  rcases List.eq_nil_or_concat' names with rfl | ⟨front, name, rfl⟩
  · exact ⟨fun _ => rfl, fun _ => rfl⟩
  · rw [chain_concat]
    simp

theorem eq_chain_member_iff {owner : Accessor} {name : String} :
    member owner name = chain names ↔
      ∃ front, owner = chain front ∧ names = front ++ [name] := by
  constructor
  · intro h
    rcases List.eq_nil_or_concat' names with rfl | ⟨front, last, rfl⟩
    · cases h
    · rw [chain_concat, member.injEq] at h
      exact ⟨front, h.1, by rw [h.2]⟩
  · rintro ⟨front, rfl, rfl⟩
    exact (chain_concat front name).symm

theorem tuple_ne_chain {items : List Accessor} : tuple items ≠ chain names := by
  rcases List.eq_nil_or_concat' names with rfl | ⟨front, last, rfl⟩
  · exact nofun
  · rw [chain_concat]
    exact nofun

/-- The names of an accessor are those of the chain that it is without its widenings. -/
theorem names_eq_ok_iff : a.names = .ok names ↔ a.plain = chain names := by
  fun_induction Accessor.names a generalizing names with
  | case1 => 
    rw [plain, eq_comm (a := root), chain_eq_root_iff, Except.ok.injEq, eq_comm]
  | case2 owner name ih =>
    rw [plain, eq_chain_member_iff, Except.bind_eq_ok_iff]
    constructor
    · rintro ⟨front, hfront, h⟩
      cases h
      exact ⟨front, ih.1 hfront, rfl⟩
    · rintro ⟨front, hfront, rfl⟩
      exact ⟨front, ih.2 hfront, rfl⟩
  | case3 operand target ih => exact ih
  | case4 items => exact ⟨nofun, fun h => absurd h tuple_ne_chain⟩

/-- Only a tuple in the chain leaves an accessor without names. -/
theorem names_eq_error_iff :
    a.names = .error e ↔ a.hasTuple = true ∧
      e = .unsupportedExpression "tuple accessor nested inside a property chain" := by
  fun_induction Accessor.names a with
  | case1 => exact ⟨nofun, nofun⟩
  | case2 owner name ih =>
    rw [Except.bind_eq_error_iff, ih]
    exact or_iff_left nofun
  | case3 operand target ih => exact ih
  | case4 items => 
    rw [Except.error.injEq, eq_comm]
    exact (and_iff_right rfl).symm

end Accessor

/-! ## Names that lead somewhere -/

/-- The property is the first one of its name. -/
def Entity.Declares (e : Entity) (p : Property) : Prop :=
  ∃ before after, e.properties = before ++ p :: after ∧ ∀ q ∈ before, q.name ≠ p.name

theorem Entity.find?_eq_some_iff {e : Entity} {name : String} {p : Property} :
    e.find? name = some p ↔ p.name = name ∧ e.Declares p := by
  rw [find?, List.find?_eq_some_iff_append, beq_iff_eq]
  refine and_congr_right fun hname => ?_
  subst hname
  simp only [Declares, Bool.not_eq_true', beq_eq_false_iff_ne, ne_eq]

theorem Entity.find?_eq_none_iff {e : Entity} {name : String} :
    e.find? name = none ↔ ∀ p ∈ e.properties, p.name ≠ name := by
  simp only [find?, List.find?_eq_none, beq_iff_eq, ne_eq]

namespace Schema

/-- The entity of that name is registered and declares the property. -/
def Declares (s : Schema) (entity : String) (p : Property) : Prop :=
  ∃ e, s.entity? entity = some e ∧ e.Declares p

/-- Relationships lead from one entity to another: each is declared by the entity that the ones
before it lead to. -/
inductive Leads (s : Schema) : String → List Segment → String → Prop where
  | here (entity : String) : Leads s entity [] entity
  | along {entity next target : String} {p : Segment} {ps : List Segment}
    (hp : s.Declares entity p) (htarget : p.declared.target? = some next)
    (h : Leads s next ps target) : Leads s entity (p :: ps) target

/-- What is wrong with a name that is looked up in an entity, with other names behind it. -/
inductive Fault (s : Schema) (entity name : String) (behind : List String) : Error → Prop where
  | unknownEntity (h : s.entity? entity = none) : Fault s entity name behind (.unknownEntity entity)
  | unknownProperty {e : Entity} (he : s.entity? entity = some e)
    (h : ∀ p ∈ e.properties, p.name ≠ name) :
    Fault s entity name behind (.unknownProperty entity name)
  | nonNavigable {p : Property} (hp : s.Declares entity p) (hname : p.name = name)
    (hbehind : behind ≠ []) (h : p.declared.target? = none) :
    Fault s entity name behind (.nonNavigable entity name)

variable {s : Schema} {entity name root : String} {p : Property} {rest : List String} {e : Error}
  {navigation : List Segment} {terminal : Segment}

theorem entity_eq_ok_iff {x : Entity} : s.entity entity = .ok x ↔ s.entity? entity = some x := by
  unfold Schema.entity
  cases s.entity? entity <;> simp

theorem entity_eq_error_iff :
    s.entity entity = .error e ↔ s.entity? entity = none ∧ e = .unknownEntity entity := by
  unfold Schema.entity
  cases s.entity? entity <;> simp [eq_comm]

theorem property_eq_ok_iff :
    s.property entity name = .ok p ↔ p.name = name ∧ s.Declares entity p := by
  rw [property, Except.bind_eq_ok_iff]
  constructor
  · rintro ⟨x, hx, h⟩
    split at h
    next hfind =>
      cases h
      rcases Entity.find?_eq_some_iff.1 hfind with ⟨hname, hdeclares⟩
      exact ⟨hname, x, entity_eq_ok_iff.1 hx, hdeclares⟩
    next => cases h
  · rintro ⟨hname, x, hx, hdeclares⟩
    exact ⟨x, entity_eq_ok_iff.2 hx, by rw [Entity.find?_eq_some_iff.2 ⟨hname, hdeclares⟩]⟩

theorem property_eq_error_iff :
    s.property entity name = .error e ↔
      s.entity? entity = none ∧ e = .unknownEntity entity ∨
        ∃ x, s.entity? entity = some x ∧ (∀ p ∈ x.properties, p.name ≠ name) ∧
          e = .unknownProperty entity name := by
  simp only [← Entity.find?_eq_none_iff]
  rw [property, Except.bind_eq_error_iff, Schema.entity]
  cases s.entity? entity with
  | none => simp [eq_comm]
  | some x => cases hfind : x.find? name <;> simp [hfind, eq_comm]

theorem fault_iff {behind : List String} :
    s.Fault entity name behind e ↔
      s.property entity name = .error e ∨
        behind ≠ [] ∧ e = .nonNavigable entity name ∧
          ∃ p, s.property entity name = .ok p ∧ p.declared.target? = none := by
  simp only [property_eq_error_iff, property_eq_ok_iff]
  constructor
  · intro h
    cases h with
    | unknownEntity h => exact .inl (.inl ⟨h, rfl⟩)
    | unknownProperty he h => exact .inl (.inr ⟨_, he, h, rfl⟩)
    | nonNavigable hp hname hbehind h => exact .inr ⟨hbehind, rfl, _, ⟨hname, hp⟩, h⟩
  · rintro ((⟨h, rfl⟩ | ⟨x, he, h, rfl⟩) | ⟨hbehind, rfl, p, ⟨hname, hp⟩, h⟩)
    · exact .unknownEntity h
    · exact .unknownProperty he h
    · exact .nonNavigable hp hname hbehind h

-- Several names are followed by following the first and then the others.
theorem follow_cons_eq_ok_iff {next : String} :
    s.follow entity name (next :: rest) = .ok (navigation, terminal) ↔
      ∃ p target tail, s.property entity name = .ok p ∧ p.declared.target? = some target ∧
        s.follow target next rest = .ok (tail, terminal) ∧ navigation = p :: tail := by
  rw [follow, Except.bind_eq_ok_iff]
  constructor
  · rintro ⟨p, hp, h⟩
    split at h
    next => cases h
    next target htarget =>
      rcases Except.bind_eq_ok_iff.1 h with ⟨⟨tail, last⟩, hrest, h⟩
      cases h
      exact ⟨p, target, tail, hp, htarget, hrest, rfl⟩
  · rintro ⟨p, target, tail, hp, htarget, hrest, rfl⟩
    refine ⟨p, hp, ?_⟩
    simp only [htarget]
    exact Except.bind_eq_ok_iff.2 ⟨(tail, terminal), hrest, rfl⟩

/-- Following names succeeds when the relationships on the way lead to the entity that declares the
property at the end. -/
theorem follow_eq_ok_iff :
    s.follow entity name rest = .ok (navigation, terminal) ↔
      (navigation ++ [terminal]).map (·.name) = name :: rest ∧
        ∃ target, s.Leads entity navigation target ∧ s.Declares target terminal := by
  induction rest generalizing entity name navigation with
  | nil =>
    rw [follow, Except.bind_eq_ok_iff]
    constructor
    · rintro ⟨p, hp, h⟩
      cases h
      rcases property_eq_ok_iff.1 hp with ⟨rfl, hdeclares⟩
      exact ⟨rfl, entity, .here entity, hdeclares⟩
    · rintro ⟨hnames, target, hleads, hdeclares⟩
      cases hleads with
      | here =>
        cases hnames
        exact ⟨terminal, property_eq_ok_iff.2 ⟨rfl, hdeclares⟩, rfl⟩
      | along => simp at hnames
  | cons next rest ih =>
    rw [follow_cons_eq_ok_iff]
    constructor
    · rintro ⟨p, target, tail, hp, htarget, hrest, rfl⟩
      rcases property_eq_ok_iff.1 hp with ⟨rfl, hdeclares⟩
      rcases ih.1 hrest with ⟨hnames, last, hleads, hlast⟩
      exact ⟨congrArg (p.name :: ·) hnames, last, .along hdeclares htarget hleads, hlast⟩
    · rintro ⟨hnames, last, hleads, hlast⟩
      cases hleads with
      | here => cases hnames
      | along hp htarget h =>
        rcases List.cons.inj hnames with ⟨hname, hrest⟩
        exact ⟨_, _, _, property_eq_ok_iff.2 ⟨hname, hp⟩, htarget,
          ih.2 ⟨hrest, last, h, hlast⟩, rfl⟩

theorem follow_cons_eq_error_iff {next : String} :
    s.follow entity name (next :: rest) = .error e ↔
      s.Fault entity name (next :: rest) e ∨
        ∃ p target, s.property entity name = .ok p ∧ p.declared.target? = some target ∧
          s.follow target next rest = .error e := by
  rw [follow, Except.bind_eq_error_iff, fault_iff]
  constructor
  · rintro (h | ⟨p, hp, h⟩)
    · exact .inl (.inl h)
    · split at h
      next htarget =>
        cases h
        exact .inl (.inr ⟨List.cons_ne_nil _ _, rfl, p, hp, htarget⟩)
      next target htarget =>
        rcases Except.bind_eq_error_iff.1 h with h | ⟨_, _, h⟩
        · exact .inr ⟨p, target, hp, htarget, h⟩
        · cases h
  · rintro ((h | ⟨-, rfl, p, hp, htarget⟩) | ⟨p, target, hp, htarget, h⟩)
    · exact .inl h
    · exact .inr ⟨p, hp, by simp only [htarget]⟩
    · refine .inr ⟨p, hp, ?_⟩
      simp only [htarget]
      exact Except.bind_eq_error_iff.2 (.inl h)

/-- Following names fails at the first name that has a fault, with the error of that fault. -/
theorem follow_eq_error_iff :
    s.follow entity name rest = .error e ↔
      ∃ before faulty behind target, name :: rest = before.map (·.name) ++ faulty :: behind ∧
        s.Leads entity before target ∧ s.Fault target faulty behind e := by
  induction rest generalizing entity name with
  | nil =>
    rw [follow, Except.bind_eq_error_iff]
    constructor
    · rintro (h | ⟨_, _, h⟩)
      · exact ⟨[], name, [], entity, rfl, .here entity, fault_iff.2 (.inl h)⟩
      · cases h
    · rintro ⟨before, faulty, behind, target, hnames, hleads, hfault⟩
      cases hleads with
      | here =>
        cases hnames
        exact .inl ((fault_iff.1 hfault).resolve_right fun h => h.1 rfl)
      | along => simp at hnames
  | cons next rest ih =>
    rw [follow_cons_eq_error_iff]
    constructor
    · rintro (hfault | ⟨p, target, hp, htarget, hrest⟩)
      · exact ⟨[], name, next :: rest, entity, rfl, .here entity, hfault⟩
      · rcases property_eq_ok_iff.1 hp with ⟨rfl, hdeclares⟩
        rcases ih.1 hrest with ⟨before, faulty, behind, last, hnames, hleads, hfault⟩
        exact ⟨p :: before, faulty, behind, last, congrArg (p.name :: ·) hnames,
          .along hdeclares htarget hleads, hfault⟩
    · rintro ⟨before, faulty, behind, last, hnames, hleads, hfault⟩
      cases hleads with
      | here =>
        cases hnames
        exact .inl hfault
      | along hp htarget h =>
        rcases List.cons.inj hnames with ⟨hname, hrest⟩
        exact .inr ⟨_, _, property_eq_ok_iff.2 ⟨hname.symm, hp⟩, htarget,
          ih.2 ⟨_, _, _, _, hrest, h, hfault⟩⟩

variable {a : Accessor} {path : Path}

theorem path_eq_ok_iff :
    s.path root a = .ok path ↔
      path.root = root ∧ a.plain = .chain (path.segments.map (·.name)) ∧
        ∃ target, s.Leads root path.navigation target ∧ s.Declares target path.terminal := by
  rw [Schema.path, Accessor.names_bare, Except.bind_eq_ok_iff]
  constructor
  · rintro ⟨names, hnames, h⟩
    split at h
    next => cases h
    next name rest =>
      rcases Except.bind_eq_ok_iff.1 h with ⟨⟨navigation, terminal⟩, hfollow, h⟩
      cases h
      rcases follow_eq_ok_iff.1 hfollow with ⟨hsegments, hleads⟩
      refine ⟨rfl, ?_, hleads⟩
      rw [Path.segments, hsegments]
      exact Accessor.names_eq_ok_iff.1 hnames
  · rintro ⟨rfl, hplain, hleads⟩
    refine ⟨_, Accessor.names_eq_ok_iff.2 hplain, ?_⟩
    -- a path has a segment at its end, so there are names
    cases hsegments : path.segments.map (·.name) with
    | nil => simp [Path.segments] at hsegments
    | cons name rest =>
      exact Except.bind_eq_ok_iff.2 ⟨_, follow_eq_ok_iff.2 ⟨hsegments, hleads⟩, rfl⟩

theorem path_eq_error_iff :
    s.path root a = .error e ↔
      a.hasTuple = true ∧
        e = .unsupportedExpression "tuple accessor nested inside a property chain" ∨
      a.plain = .root ∧
        e = .unsupportedExpression s!"accessor on '{root}' does not reference a property" ∨
      ∃ before faulty behind target,
        a.plain = .chain (before.map (·.name) ++ faulty :: behind) ∧
          s.Leads root before target ∧ s.Fault target faulty behind e := by
  rw [Schema.path, Accessor.names_bare, Except.bind_eq_error_iff, Accessor.names_eq_error_iff]
  refine or_congr_right ?_
  constructor
  · rintro ⟨names, hnames, h⟩
    have hplain := Accessor.names_eq_ok_iff.1 hnames
    split at h
    next =>
      cases h
      exact .inl ⟨hplain, rfl⟩
    next name rest =>
      rcases Except.bind_eq_error_iff.1 h with h | ⟨_, _, h⟩
      · rcases follow_eq_error_iff.1 h with ⟨before, faulty, behind, target, hsplit, hfault⟩
        rw [hsplit] at hplain
        exact .inr ⟨before, faulty, behind, target, hplain, hfault⟩
      · cases h
  · rintro (⟨hplain, rfl⟩ | ⟨before, faulty, behind, target, hplain, hfault⟩)
    · exact ⟨[], Accessor.names_eq_ok_iff.2 hplain, rfl⟩
    · refine ⟨_, Accessor.names_eq_ok_iff.2 hplain, ?_⟩
      cases hsplit : before.map (·.name) ++ faulty :: behind with
      | nil => simp at hsplit
      | cons name rest =>
        refine Except.bind_eq_error_iff.2 (.inl (follow_eq_error_iff.2 ?_))
        exact ⟨before, faulty, behind, target, hsplit.symm, hfault⟩

/-- An accessor resolves exactly when, without its widenings, it is a chain of names whose
relationships lead from the root to the entity that declares the last one; the path then has the
declarations of these names. Otherwise the error is that of a tuple in the chain, that of a chain
without names, or that of the first name with a fault. The items of a tuple resolve one by one, in
their order and up to the first that does not. -/
theorem accessor_resolves (s : Schema) (root : String) (a : Accessor) :
    (∀ path, s.path root a = .ok path ↔
      path.root = root ∧ a.plain = .chain (path.segments.map (·.name)) ∧
        ∃ target, s.Leads root path.navigation target ∧ s.Declares target path.terminal) ∧
    (∀ e, s.path root a = .error e ↔
      a.hasTuple = true ∧
        e = .unsupportedExpression "tuple accessor nested inside a property chain" ∨
      a.plain = .root ∧
        e = .unsupportedExpression s!"accessor on '{root}' does not reference a property" ∨
      ∃ before faulty behind target,
        a.plain = .chain (before.map (·.name) ++ faulty :: behind) ∧
          s.Leads root before target ∧ s.Fault target faulty behind e) ∧
    (∀ target, s.paths root (.widen a target) = s.paths root a) ∧
    ∀ items,
      (∀ paths, s.paths root (.tuple items) = .ok paths ↔
        List.Forall₂ (fun item path => s.path root item = .ok path) items paths) ∧
      ∀ e, s.paths root (.tuple items) = .error e ↔
        ∃ before item behind, items = before ++ item :: behind ∧
          (∀ other ∈ before, ∃ path, s.path root other = .ok path) ∧
          s.path root item = .error e :=
  ⟨fun _ => path_eq_ok_iff, fun _ => path_eq_error_iff, fun _ => rfl,
    fun _ => ⟨fun _ => Except.mapM_eq_ok_iff, fun _ => Except.mapM_eq_error_iff⟩⟩

end Schema

end PathQuery
