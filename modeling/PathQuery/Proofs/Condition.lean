import PathQuery.Compile
import PathQuery.Proofs.Chain
import PathQuery.Proofs.Except
import PathQuery.Proofs.Spec.Reachable

/-!
# What conditions stand for

A condition uses chains of relationships, refers to properties at the end of chains, has operands
that are converted or taken as they are, and becomes a term if it is a filter. All of this is said
here without regard to how conditions are carried out.
-/

namespace PathQuery

/-! ## Chains and references -/

namespace Condition

/-- Whether the relationship at the end of the path is joined as well. -/
def joinsEnd (c : Condition) (path : Path) : Bool :=
  c.kind == .fetch || (c.kind == .select && path.terminal.declared.isNavigation)

/-- The chains that a condition uses, in their order. -/
def chains (c : Condition) : List (List String) :=
  match c.path with
  | none => []
  | some path => chainsAlong path.way ++ if c.joinsEnd path then [path.names] else []

/-- The chain and the name of every property that a selection stands for: the end of the path
itself, or all columns of the related entity. -/
def selected (schema : Schema) (path : Path) : List (List String × String) :=
  if path.terminal.declared.isNavigation then
    match path.terminal.declared.target?.bind schema.entity? with
    | some entity => entity.columns.map fun p => (path.names, p.name)
    | none => []
  else
    [(path.way, path.terminal.name)]

/-- The chain and the name of every property that the plan refers to because of a condition. -/
def references (schema : Schema) (c : Condition) : List (List String × String) :=
  match c.path, c.kind with
  | none, _ => []
  | some _, .fetch => []
  | some path, .select => selected schema path
  | some path, _ => [(path.way, path.terminal.name)]

variable {c : Condition} {path : Path} {schema : Schema}

theorem chains_of_path (hpath : c.path = some path) :
    c.chains = chainsAlong path.way ++ if c.joinsEnd path then [path.names] else [] := by
  rw [chains, hpath]

theorem joinsEnd_of_fetch (hkind : c.kind = .fetch) : c.joinsEnd path = true := by
  rw [joinsEnd, hkind]
  rfl

theorem joinsEnd_of_select (hkind : c.kind = .select) :
    c.joinsEnd path = path.terminal.declared.isNavigation := by
  rw [joinsEnd, hkind]
  rfl

-- Only fetches and selections use more than the way.
theorem chains_of_ne (hpath : c.path = some path) (hfetch : c.kind ≠ .fetch)
    (hselect : c.kind ≠ .select) : c.chains = chainsAlong path.way := by
  have hend : c.joinsEnd path = false := by
    rw [joinsEnd, beq_eq_false_iff_ne.2 hfetch, beq_eq_false_iff_ne.2 hselect]
    rfl
  rw [chains_of_path hpath, hend, if_neg (by decide), List.append_nil]

theorem mem_chains_of_path (hpath : c.path = some path) :
    path.way = [] ∨ path.way ∈ c.chains := by
  by_cases h : path.way = []
  · exact .inl h
  · rw [chains_of_path hpath]
    exact .inr (List.mem_append_left _ (mem_chainsAlong_self h))

-- A condition refers to the ends of the chains that it uses.
theorem mem_chains_of_mem_references {r : List String × String} (h : r ∈ c.references schema) :
    r.1 = [] ∨ r.1 ∈ c.chains := by
  unfold references at h
  split at h
  · cases h
  · cases h
  next path hpath hkind =>
    unfold selected at h
    split at h
    next hnav =>
      have hend : path.names ∈ c.chains := by
        rw [chains_of_path hpath, joinsEnd_of_select hkind, if_pos hnav]
        exact List.mem_append_right _ List.mem_cons_self
      split at h
      · rcases List.mem_map.1 h with ⟨q, -, rfl⟩
        exact .inr hend
      · cases h
    next =>
      rw [List.mem_singleton.1 h]
      exact mem_chains_of_path hpath
  next path hpath _ _ =>
    rw [List.mem_singleton.1 h]
    exact mem_chains_of_path hpath

end Condition

/-! ## Operands -/

/-- An operand that is to be converted to the type of a path's end. -/
structure Check where
  path : Path
  target : Scalar
  operand : Value

namespace Check

/-- Whether the operand can be converted. -/
def passes (k : Check) : Bool :=
  (k.operand.convert k.target).isSome

/-- The error of an operand that cannot be converted: it names path, type and operand. -/
def error (k : Check) : Error :=
  .operandConversion k.path.dotted k.target.text s!"{k.operand.typeName} '{k.operand.text}'"

end Check

/-- The first operand that cannot be converted. -/
def firstRefused? (ks : List Check) : Option Check :=
  ks.find? fun k => !k.passes

/-- The error is that of the first operand that cannot be converted. -/
def FirstRefusal (ks : List Check) (e : Error) : Prop :=
  ∃ k, firstRefused? ks = some k ∧ e = k.error

section Refusals

variable {ks more : List Check} {k : Check} {e : Error}

theorem firstRefused?_eq_none : firstRefused? ks = none ↔ ∀ k ∈ ks, k.passes = true := by
  simp only [firstRefused?, List.find?_eq_none, Bool.not_eq_true', Bool.not_eq_false]

theorem firstRefused?_eq_some : firstRefused? ks = some k ↔
    ∃ before after, ks = before ++ k :: after ∧ (∀ j ∈ before, j.passes = true) ∧
      k.passes = false := by
  simp only [firstRefused?, List.find?_eq_some_iff_append, Bool.not_eq_true', Bool.not_not]
  tauto

theorem FirstRefusal.append_right (h : FirstRefusal ks e) : FirstRefusal (ks ++ more) e := by
  rcases h with ⟨k, hk, he⟩
  refine ⟨k, ?_, he⟩
  rw [firstRefused?] at hk ⊢
  rw [List.find?_append, hk, Option.some_or]

theorem FirstRefusal.append_left (h : FirstRefusal more e) (hks : ∀ k ∈ ks, k.passes = true) :
    FirstRefusal (ks ++ more) e := by
  rcases h with ⟨k, hk, he⟩
  have hnone := firstRefused?_eq_none.2 hks
  refine ⟨k, ?_, he⟩
  rw [firstRefused?] at hk hnone ⊢
  rw [List.find?_append, hnone, Option.none_or, hk]

end Refusals

namespace Condition

/-- The type that the operands are converted to, for the kinds that convert. -/
def target? (c : Condition) : Option Scalar :=
  if c.kind.converts then c.path.bind (·.terminal.declared.comparison?) else none

/-- The conversions of the operands in their order. -/
def checks (c : Condition) : List Check :=
  match c.path, c.target? with
  | some path, some t => c.operands.toList.map fun v => ⟨path, t, v⟩
  | _, _ => []

/-- How an operand arrives in the term: converted, or as it is. -/
def Arrives (c : Condition) (v w : Value) : Prop :=
  match c.target? with
  | some t => v.convert t = some w
  | none => w = v

/-- The term of a kind about a property, with its operands in their order. -/
inductive Shape (property : String) : Kind → List Value → Predicate → Prop where
  | equal (v : Value) : Shape property .equal [v] (.equal property v)
  | notEqual (v : Value) : Shape property .notEqual [v] (.not (.equal property v))
  | isIn (vs : List Value) : Shape property .isIn vs (.oneOf property vs)
  | isNotIn (vs : List Value) : Shape property .isNotIn vs (.not (.oneOf property vs))
  | between (low high : Value) :
    Shape property .between [low, high] (.between property low high)
  | isNull : Shape property .isNull [] (.isNull property)
  | isNotNull : Shape property .isNotNull [] (.isNotNull property)
  | like (v : Value) : Shape property .like [v] (.like property v)
  | notLike (v : Value) : Shape property .notLike [v] (.not (.like property v))
  | greaterThan (v : Value) : Shape property .greaterThan [v] (.compare property .gt v)
  | greaterOrEqual (v : Value) : Shape property .greaterOrEqual [v] (.compare property .ge v)
  | lessThan (v : Value) : Shape property .lessThan [v] (.compare property .lt v)
  | lessOrEqual (v : Value) : Shape property .lessOrEqual [v] (.compare property .le v)

/-- The term that stands for a filter: the shape of its kind with every operand as it arrives. -/
def Image (c : Condition) (property : String) (term : Predicate) : Prop :=
  ∃ vs, List.Forall₂ c.Arrives c.operands.toList vs ∧ Shape property c.kind vs term

variable {c : Condition} {path : Path} {schema : Schema} {v w : Value} {e : Error}

theorem operand_eq (hpath : c.path = some path) (v : Value) :
    c.operand path v =
      match c.target? with
      | none => .ok v
      | some t =>
        match v.convert t with
        | some w => .ok w
        | none => .error (Check.error ⟨path, t, v⟩) := by
  unfold operand target?
  rw [hpath, Option.bind_some]
  cases path.terminal.declared.comparison? with
  | none => cases c.kind.converts <;> rfl
  | some t => cases c.kind.converts <;> rfl

theorem arrives_of_operand (hpath : c.path = some path) (h : c.operand path v = .ok w) :
    c.Arrives v w := by
  rw [operand_eq hpath] at h
  unfold Arrives
  split at h
  next hnone =>
    rw [hnone]
    cases h
    rfl
  next t hsome =>
    rw [hsome]
    split at h
    next hconvert => cases h; exact hconvert
    next => cases h

/-! ## Terms -/

section Assembled

variable {f : Value → Except Error Value} {shape : List Value → Predicate → Prop}
  {g : Value → Predicate} {low high : Value}

/-- The answer is made from the operands as `f` gives them, and fails only where `f` does. -/
def Assembled (f : Value → Except Error Value) (vs : List Value)
    (shape : List Value → Predicate → Prop) (answer : Except Error Predicate) : Prop :=
  ∃ build : List Value → Predicate, (∀ ws, ws.length = vs.length → shape ws (build ws)) ∧
    answer = vs.mapM f >>= fun ws => .ok (build ws)

theorem assembled_none {p : Predicate} (h : shape [] p) : Assembled f [] shape (.ok p) :=
  ⟨fun _ => p, fun ws hws => by rw [List.length_eq_zero_iff.1 hws]; exact h, rfl⟩

theorem assembled_single (h : ∀ w, shape [w] (g w)) :
    Assembled f [v] shape (f v >>= fun w => .ok (g w)) := by
  refine ⟨fun ws => g (ws.headD .null), fun ws hws => ?_, ?_⟩
  · rcases List.length_eq_one_iff.1 hws with ⟨w, rfl⟩
    exact h w
  · rw [List.mapM_cons]
    cases f v <;> rfl

-- An operand that is taken as it is needs no run of `f`.
theorem assembled_verbatim (hf : f v = .ok v) (h : ∀ w, shape [w] (g w)) :
    Assembled f [v] shape (.ok (g v)) := by
  have hsingle := assembled_single (f := f) (v := v) h
  rw [hf] at hsingle
  exact hsingle

theorem assembled_pair {g : Value → Value → Predicate} (h : ∀ a b, shape [a, b] (g a b)) :
    Assembled f [low, high] shape (f low >>= fun a => f high >>= fun b => .ok (g a b)) := by
  refine ⟨fun ws => g (ws.headD .null) (ws.getLastD .null), fun ws hws => ?_, ?_⟩
  · rcases List.length_eq_two.1 hws with ⟨a, b, rfl⟩
    exact h a b
  · rw [List.mapM_cons, List.mapM_cons]
    cases f low with
    | error e => rfl
    | ok a => cases f high <;> rfl

theorem assembled_many {g : List Value → Predicate} {vs : List Value} (h : ∀ ws, shape ws (g ws)) :
    Assembled f vs shape (vs.mapM f >>= fun ws => .ok (g ws)) :=
  ⟨g, fun ws _ => h ws, rfl⟩

end Assembled

/-- The term of a filter has the shape of its kind, made from all of its operands. -/
theorem assembled_term (h : c.Usable schema) (hpath : c.path = some path)
    (hf : c.kind.isFilter = true) (property : String) :
    Assembled (c.operand path) c.operands.toList (Shape property c.kind)
      (c.term path property) := by
  -- kinds that do not convert take their operand without asking
  have hverbatim : c.kind.converts = false → ∀ v, c.operand path v = .ok v := by
    intro hkind v
    rw [operand_eq hpath, target?, hkind]
    rfl
  rcases c with ⟨p, kind, operands⟩
  -- by arity, each form of operands leaves the kinds that take it
  have harity : operands.arity = kind.arity := h.arity
  change kind.isFilter = true at hf
  cases operands with
  | none =>
    change Arity.none = kind.arity at harity
    cases kind
    case isNull => exact assembled_none .isNull
    case isNotNull => exact assembled_none .isNotNull
    all_goals first | exact absurd hf (by decide) | exact absurd harity (by decide)
  | single v =>
    change Arity.one = kind.arity at harity
    cases kind
    case equal => exact assembled_single .equal
    case notEqual => exact assembled_single .notEqual
    case like => exact assembled_verbatim (hverbatim rfl v) .like
    case notLike => exact assembled_verbatim (hverbatim rfl v) Shape.notLike
    case greaterThan => exact assembled_verbatim (hverbatim rfl v) .greaterThan
    case greaterOrEqual => exact assembled_verbatim (hverbatim rfl v) .greaterOrEqual
    case lessThan => exact assembled_verbatim (hverbatim rfl v) .lessThan
    case lessOrEqual => exact assembled_verbatim (hverbatim rfl v) .lessOrEqual
    all_goals first | exact absurd hf (by decide) | exact absurd harity (by decide)
  | pair low high =>
    change Arity.two = kind.arity at harity
    cases kind
    case between => exact assembled_pair .between
    all_goals first | exact absurd hf (by decide) | exact absurd harity (by decide)
  | many vs =>
    change Arity.many = kind.arity at harity
    cases kind
    case isIn => exact assembled_many .isIn
    case isNotIn => exact assembled_many .isNotIn
    all_goals first | exact absurd hf (by decide) | exact absurd harity (by decide)

theorem checks_of_target? {t : Scalar} (hpath : c.path = some path) (ht : c.target? = some t) :
    c.checks = c.operands.toList.map fun v => ⟨path, t, v⟩ := by
  rw [checks, hpath, ht]

-- Only filters convert operands.
theorem checks_eq_nil (hf : c.kind.isFilter = false) : c.checks = [] := by
  have hkind : c.kind.converts = false := by
    revert hf
    cases c.kind <;> decide
  rw [checks, target?, hkind]
  cases c.path <;> rfl

theorem of_mem_checks {k : Check} (h : k ∈ c.checks) :
    c.path = some k.path ∧ c.target? = some k.target ∧ k.operand ∈ c.operands.toList := by
  unfold checks at h
  split at h
  next path t hpath ht =>
    rcases List.mem_map.1 h with ⟨v, hv, rfl⟩
    exact ⟨hpath, ht, hv⟩
  next => cases h

theorem passes_of_operand {t : Scalar} (hpath : c.path = some path) (ht : c.target? = some t)
    (h : c.operand path v = .ok w) : Check.passes ⟨path, t, v⟩ = true := by
  have harrives := arrives_of_operand hpath h
  rw [Arrives, ht] at harrives
  exact Option.isSome_iff_exists.2 ⟨w, harrives⟩

theorem refused_of_operand (hpath : c.path = some path) (h : c.operand path v = .error e) :
    ∃ t, c.target? = some t ∧ Check.passes ⟨path, t, v⟩ = false ∧
      e = Check.error ⟨path, t, v⟩ := by
  rw [operand_eq hpath] at h
  split at h
  · cases h
  next t ht =>
    split at h
    · cases h
    next hnone =>
      cases h
      exact ⟨t, ht, by rw [Check.passes, hnone]; rfl, rfl⟩

/-- A term that is made is the image of its filter, and all operands could be converted. -/
theorem image_of_term {property : String} {term : Predicate} (h : c.Usable schema)
    (hpath : c.path = some path) (hf : c.kind.isFilter = true)
    (run : c.term path property = .ok term) :
    c.Image property term ∧ ∀ k ∈ c.checks, k.passes = true := by
  rcases assembled_term h hpath hf property with ⟨build, hshape, hbuild⟩
  rw [hbuild] at run
  rcases Except.bind_eq_ok_iff.1 run with ⟨ws, hws, run⟩
  cases run
  have hall := Except.mapM_eq_ok_iff.1 hws
  refine ⟨⟨ws, hall.imp fun _ _ => arrives_of_operand hpath, hshape ws hall.length_eq.symm⟩, ?_⟩
  intro k hk
  rcases of_mem_checks hk with ⟨hkpath, ht, hv⟩
  rcases Except.exists_answer_of_mem hws hv with ⟨w, hw⟩
  cases hkpath.symm.trans hpath
  exact passes_of_operand hpath ht hw

/-- A term that cannot be made fails with the first operand that cannot be converted. -/
theorem firstRefusal_of_term {property : String} (h : c.Usable schema) (hpath : c.path = some path)
    (hf : c.kind.isFilter = true) (run : c.term path property = .error e) :
    FirstRefusal c.checks e := by
  rcases assembled_term h hpath hf property with ⟨build, -, hbuild⟩
  rw [hbuild] at run
  rcases Except.bind_eq_error_iff.1 run with run | ⟨ws, -, run⟩
  · rcases Except.exists_of_mapM_eq_error run with ⟨before, v, after, hsplit, hbefore, hv⟩
    rcases refused_of_operand hpath hv with ⟨t, ht, hrefused, rfl⟩
    refine ⟨⟨path, t, v⟩, firstRefused?_eq_some.2 ?_, rfl⟩
    rw [checks_of_target? hpath ht, hsplit, List.map_append, List.map_cons]
    refine ⟨_, _, rfl, fun k hk => ?_, hrefused⟩
    rcases List.mem_map.1 hk with ⟨u, hu, rfl⟩
    rcases hbefore u hu with ⟨w, hw⟩
    exact passes_of_operand hpath ht hw
  · cases run

end Condition

end PathQuery
