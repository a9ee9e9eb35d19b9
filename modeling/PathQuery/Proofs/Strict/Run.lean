import PathQuery.Proofs.Compile
import PathQuery.Proofs.Strict.Session

/-!
# Runs over tightened schemas

A schema is tightened when some of its nullable numbers and times are declared never null. Whatever
is done with a specification, nothing tells the two schemas apart: every call answers the same, and
the plan at the end is the same.
-/

namespace PathQuery

/-! ## Tightened schemas -/

/-- A declaration, or a nullable number or time declared never null. -/
inductive Declared.Tightened : Declared → Declared → Prop where
  | same (d : Declared) : Tightened d d
  | firm (t : Scalar) (h : t.isNumeric = true ∨ t.isTemporal = true) :
    Tightened (.nullable t) (.scalar t)

structure Property.Tightened (p p' : Property) : Prop where
  name : p'.name = p.name
  declared : p.declared.Tightened p'.declared

structure Entity.Tightened (e e' : Entity) : Prop where
  name : e'.name = e.name
  properties : List.Forall₂ Property.Tightened e.properties e'.properties

/-- The second schema declares some of the nullable numbers and times of the first never null. -/
structure Schema.Tightened (s s' : Schema) : Prop where
  entities : List.Forall₂ Entity.Tightened s.entities s'.entities

theorem Declared.Tightened.strict {d d' : Declared} (h : d.Tightened d') :
    d'.strict = d.strict := by
  cases h with
  | same => rfl
  | firm t h =>
    have hcompared : (t.isNumeric || t.isTemporal) = true := by simpa using h
    simp [Declared.strict, hcompared]

theorem Property.Tightened.strict {p p' : Property} (h : p.Tightened p') :
    p'.strict = p.strict := by
  rw [Property.strict, Property.strict, h.name, h.declared.strict]

-- What holds of the items of two lists holds of the lists.
theorem map_eq_of_forall₂ {α β : Type} {r : α → α → Prop} {f : α → β} {xs xs' : List α}
    (h : List.Forall₂ r xs xs') (hitem : ∀ {x x'}, r x x' → f x' = f x) : xs'.map f = xs.map f := by
  induction h with
  | nil => rfl
  | cons hx _ ih => rw [List.map_cons, List.map_cons, hitem hx, ih]

theorem Entity.Tightened.strict {e e' : Entity} (h : e.Tightened e') : e'.strict = e.strict := by
  rw [Entity.strict, Entity.strict, h.name,
    map_eq_of_forall₂ h.properties Property.Tightened.strict]

theorem Schema.Tightened.strict {s s' : Schema} (h : s.Tightened s') : s'.strict = s.strict := by
  rw [Schema.strict, Schema.strict, map_eq_of_forall₂ h.entities Entity.Tightened.strict]

/-! ## Runs -/

namespace Spec

/-- One thing that is done with a specification while it is built. -/
inductive Move where
  /-- a request is put somewhere -/
  | put (placement : Placement) (request : Request)
  /-- calls are made, each of which may continue the group of the one before -/
  | chain (calls : List Call)
  | joinKind (kind : JoinKind)
  | resultType (target : String)

/-- What the calls of a move answer, and what they leave. -/
def Move.play : Move → Logged Spec → List (Except Error Nat) × Logged Spec
  | .put placement request, s =>
    match perform placement request s with
    | .ok index t => ([.ok index], t)
    | .error e t => ([.error e], t)
  | .chain calls, s => Spec.chain calls s
  | .joinKind kind, s => ([], s.map (withJoinKind · kind))
  | .resultType target, s => ([], s.map (withResultType · target))

/-- The answers move by move, and what the last move leaves. A call that fails stops its chain but
not the moves behind it. -/
def play : List Move → Logged Spec → List (List (Except Error Nat)) × Logged Spec
  | [], s => ([], s)
  | m :: ms, s =>
    let (answers, t) := m.play s
    let (more, u) := play ms t
    (answers :: more, u)

/-- What can be seen of a specification: whether it can be started, what its calls answer, and what
it compiles to. -/
def outcome (settings : Settings) (schema : Schema) (root : String) (moves : List Move) :
    Except Error (List (List (Except Error Nat)) × Except Error Plan) := do
  let spec ← start schema root
  let (answers, s) := play moves ⟨spec, []⟩
  return (answers, s.state.toPlan settings)

theorem start_strict (schema : Schema) (root : String) :
    start schema.strict root = strict <$> start schema root := by
  rw [start, start, Schema.entity_strict, bind_map_left, map_bind]
  rfl

theorem Move.play_strict (m : Move) (s : Logged Spec) :
    m.play (s.map strict) = Prod.map id (Logged.map strict) (m.play s) := by
  cases m with
  | put placement request =>
    rw [play, play, perform_strict _ _ s]
    cases perform placement request s <;> rfl
  | chain calls => exact chainFrom_strict none calls s
  | joinKind kind => rfl
  | resultType target => rfl

theorem play_strict (ms : List Move) (s : Logged Spec) :
    play ms (s.map strict) = Prod.map id (Logged.map strict) (play ms s) := by
  induction ms generalizing s with
  | nil => rfl
  | cons m ms ih =>
    simp only [play, Move.play_strict, Prod.map, ih]
    rfl

/-- Over the strict schema everything looks the same. -/
theorem outcome_strict (settings : Settings) (schema : Schema) (root : String)
    (moves : List Move) :
    outcome settings schema.strict root moves = outcome settings schema root moves := by
  rw [outcome, outcome, start_strict, bind_map_left]
  congr
  funext spec
  have hplay : play moves ⟨spec.strict, []⟩ = _ := play_strict moves ⟨spec, []⟩
  simp only [hplay, Prod.map, Logged.map, toPlan_strict]
  rfl

/-- Whatever is done with a specification, it makes no difference whether a number or a time is
declared nullable: it starts over both schemas or over none, every call answers the same group or
fails with the same error, and the compilation at the end gives the same plan or the same error. -/
theorem outcome_tightened {schema schema' : Schema} (h : schema.Tightened schema')
    (settings : Settings) (root : String) (moves : List Move) :
    outcome settings schema' root moves = outcome settings schema root moves := by
  rw [← outcome_strict settings schema', h.strict, outcome_strict]

/-- The employees, whose age is now never null. -/
def agedSchema : Schema :=
  ⟨[⟨"Employee", [⟨"name", .scalar .string⟩, ⟨"age", .scalar .int32⟩,
    ⟨"manager", .reference "Employee"⟩]⟩]⟩

-- With an age that is never null, the calls answer as before and compile to the same plan.
theorem outcome_tightened_staff :
    staffSchema.Tightened agedSchema ∧
      outcome .standard agedSchema "Employee"
        [.chain staffCalls, .put (.group 0) (.orderByAscending (.chain ["age"]))] =
        .ok ([[.ok 0, .ok 0, .ok 1, .ok 2, .ok 3],
          [.error (.invalidSequence OutOfOrder.orderingInGroup.reason)]], .ok staffPlan) := by
  have htightened : staffSchema.Tightened agedSchema := by
    have hname : Property.Tightened ⟨"name", .scalar .string⟩ ⟨"name", .scalar .string⟩ :=
      ⟨rfl, .same _⟩
    have hage : Property.Tightened ⟨"age", .nullable .int32⟩ ⟨"age", .scalar .int32⟩ :=
      ⟨rfl, .firm _ (.inl rfl)⟩
    have hmanager : Property.Tightened ⟨"manager", .reference "Employee"⟩
        ⟨"manager", .reference "Employee"⟩ :=
      ⟨rfl, .same _⟩
    exact ⟨.cons ⟨rfl, .cons hname (.cons hage (.cons hmanager .nil))⟩ .nil⟩
  refine ⟨htightened, ?_⟩
  rw [outcome_tightened htightened, ← toPlan_staff]
  rfl

end Spec

end PathQuery
