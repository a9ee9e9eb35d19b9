import PathQuery.Condition.Basic
import PathQuery.Proofs.Except

/-!
# Nullable numbers and times

A nullable number or time compares like one that is never null. `strict` declares it so: the strict
schema has the same entities and properties, and accessors resolve in it to the strict forms of the
same paths, or fail with the same errors.
-/

namespace PathQuery

/-! ## Strict declarations -/

/-- The declaration with a nullable number or time as one that is never null. -/
def Declared.strict : Declared → Declared
  | .nullable t => if t.isNumeric || t.isTemporal then .scalar t else .nullable t
  | d => d

namespace Declared

@[simp]
theorem isNavigation_strict (d : Declared) : d.strict.isNavigation = d.isNavigation := by
  cases d with
  | nullable t =>
    rw [strict]
    split <;> rfl
  | _ => rfl

@[simp]
theorem target?_strict (d : Declared) : d.strict.target? = d.target? := by
  cases d with
  | nullable t =>
    rw [strict]
    split <;> rfl
  | _ => rfl

@[simp]
theorem comparison?_strict (d : Declared) : d.strict.comparison? = d.comparison? := by
  cases d with
  | nullable t =>
    rw [strict]
    split
    next h => exact (if_pos h).symm
    next => rfl
  | _ => rfl

-- Relationships are not nullable.
theorem strict_of_isNavigation {d : Declared} (h : d.isNavigation = true) : d.strict = d := by
  cases d with
  | nullable t => cases h
  | _ => rfl

end Declared

def Property.strict (p : Property) : Property :=
  ⟨p.name, p.declared.strict⟩

def Entity.strict (e : Entity) : Entity :=
  ⟨e.name, e.properties.map Property.strict⟩

def Schema.strict (s : Schema) : Schema :=
  ⟨s.entities.map Entity.strict⟩

/-- A property is found in a strict entity where it was. -/
theorem Entity.find?_strict (e : Entity) (name : String) :
    e.strict.find? name = (e.find? name).map Property.strict := by
  rw [find?, strict, List.find?_map]
  rfl

/-- A strict entity has the same columns. -/
theorem Entity.columns_strict (e : Entity) :
    e.strict.columns = e.columns.map Property.strict := by
  rw [columns, strict, List.filter_map]
  simp only [Function.comp_def, Property.strict, Declared.isNavigation_strict]
  rfl

/-! ## Paths -/

def Path.strict (p : Path) : Path :=
  ⟨p.root, p.navigation.map Property.strict, p.terminal.strict⟩

@[simp]
theorem Path.dotted_strict (p : Path) : p.strict.dotted = p.dotted := by
  simp [dotted, segments, strict, Property.strict, Function.comp_def]

/-- A selection of a strict path stands for the same columns, or fails with the same error. -/
@[simp]
theorem Path.selectedEntity_strict (p : Path) : p.strict.selectedEntity = p.selectedEntity := by
  cases h : p.terminal.declared.isNavigation with
  | true =>
    -- the end of the path is a relationship, which is declared as before
    have hterminal : p.terminal.strict.declared = p.terminal.declared :=
      Declared.strict_of_isNavigation h
    simp only [selectedEntity, dotted_strict]
    rw [show p.strict.terminal.declared = p.terminal.declared from hterminal]
  | false =>
    have hterminal : p.strict.terminal.declared.isNavigation = false :=
      (Declared.isNavigation_strict _).trans h
    simp [selectedEntity, h, hterminal]

namespace Schema

variable (s : Schema)

theorem entity_strict (name : String) : s.strict.entity name = Entity.strict <$> s.entity name := by
  have hfound : s.strict.entity? name = (s.entity? name).map Entity.strict := by
    rw [entity?, strict, List.find?_map]
    rfl
  rw [entity, entity, hfound]
  cases s.entity? name <;> rfl

theorem property_strict (entity name : String) :
    s.strict.property entity name = Property.strict <$> s.property entity name := by
  rw [property, property, entity_strict, bind_map_left, map_bind]
  congr
  funext e
  rw [Entity.find?_strict]
  cases e.find? name <;> rfl

theorem follow_strict (entity name : String) (rest : List String) :
    s.strict.follow entity name rest =
      Prod.map (List.map Property.strict) Property.strict <$> s.follow entity name rest := by
  induction rest generalizing entity name with
  | nil =>
    rw [follow, follow, property_strict, bind_map_left, map_bind]
    rfl
  | cons next rest ih =>
    rw [follow, follow, property_strict, bind_map_left, map_bind]
    congr
    funext p
    simp only [Property.strict, Declared.target?_strict]
    cases p.declared.target? with
    | none => rfl
    | some target =>
      simp only [ih, bind_map_left, map_bind]
      rfl

theorem path_strict (root : String) (a : Accessor) :
    s.strict.path root a = Path.strict <$> s.path root a := by
  rw [path, path, map_bind]
  congr
  funext names
  cases names with
  | nil => rfl
  | cons name rest =>
    simp only [follow_strict, bind_map_left, map_bind]
    rfl

/-- An accessor resolves to the strict forms of its paths. -/
theorem paths_strict (root : String) (a : Accessor) :
    s.strict.paths root a = List.map Path.strict <$> s.paths root a := by
  rw [paths, paths]
  cases a.bare with
  | tuple items =>
    have hitem : s.strict.path root = fun item => Path.strict <$> s.path root item :=
      funext (s.path_strict root)
    simp only [hitem]
    exact Except.mapM_map _ _ items
  | _ =>
    simp only [path_strict, bind_map_left, map_bind]
    rfl

end Schema

end PathQuery
