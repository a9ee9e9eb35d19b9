import PathQuery.Proofs.Columns
import PathQuery.Proofs.Spec.Fluent

/-!
# The views of a specification

Pages, orderings and fetches of a specification are read off its conditions without compiling
anything. Its plan agrees with them: it has that page, one order for each ordering, and the joins
along every fetched path.
-/

namespace PathQuery

open Condition (Kind)

/-! ## Pages -/

/-- The number is the count of the last condition of a kind; there is none where no condition is of
that kind. -/
inductive LastCount (kind : Kind) (cs : List Condition) : Option Nat → Prop where
  | absent (h : ∀ c ∈ cs, c.kind ≠ kind) : LastCount kind cs none
  | last {front back : List Condition} {c : Condition} {n : Nat} (hcs : cs = front ++ c :: back)
    (hkind : c.kind = kind) (hback : ∀ d ∈ back, d.kind ≠ kind) (hcount : c.count = .ok n) :
    LastCount kind cs (some n)

namespace LastCount

variable {kind : Kind} {cs : List Condition} {c : Condition} {n : Nat} {count : Option Nat}

theorem concat (h : LastCount kind cs count) (hc : c.kind ≠ kind) :
    LastCount kind (cs ++ [c]) count := by
  cases h with
  | absent h =>
    refine .absent fun d hd => ?_
    rcases List.mem_append.1 hd with hd | hd
    · exact h d hd
    · rwa [List.mem_singleton.1 hd]
  | @last front back e _ hcs hkind hback hcount =>
    have hsplit : cs ++ [c] = front ++ e :: (back ++ [c]) := by simp [hcs]
    refine .last hsplit hkind (fun d hd => ?_) hcount
    rcases List.mem_append.1 hd with hd | hd
    · exact hback d hd
    · rwa [List.mem_singleton.1 hd]

theorem concat_self (hkind : c.kind = kind) (hcount : c.count = .ok n) :
    LastCount kind (cs ++ [c]) (some n) :=
  .last rfl hkind (List.forall_mem_nil _) hcount

end LastCount

namespace Spec

/-- The page that conditions leave when they start from another one. -/
def turnPages (page : Page) (cs : List Condition) : Page :=
  (cs.filter (·.kind.isPagination)).foldl turnPage page

theorem turnPages_concat (page : Page) (cs : List Condition) (c : Condition) :
    turnPages page (cs ++ [c]) =
      if c.kind.isPagination then turnPage (turnPages page cs) c else turnPages page cs := by
  rw [turnPages, List.filter_append, List.foldl_append, List.filter_singleton]
  cases c.kind.isPagination <;> rfl

/-- The number of a page that conditions of a kind set: its offset or its limit. -/
def numberOf : Kind → Page → Option Nat
  | .skip, page => page.offset
  | _, page => page.limit

variable {kind : Kind} {cs : List Condition}

-- A condition replaces the number of its own kind only.
theorem numberOf_turnPages_concat (hkind : kind.isPagination = true) (page : Page)
    (c : Condition) :
    numberOf kind (turnPages page (cs ++ [c])) =
      if c.kind = kind then c.count.toOption else numberOf kind (turnPages page cs) := by
  rw [turnPages_concat]
  rcases Kind.isPagination_iff.1 hkind with rfl | rfl
  · cases hc : c.kind <;> simp [Kind.isPagination, numberOf, turnPage, hc]
  · cases hc : c.kind <;> simp [Kind.isPagination, numberOf, turnPage, hc]

/-- The last condition of a kind decides. -/
theorem lastCount_turnPages (hkind : kind.isPagination = true)
    (h : ∀ c ∈ cs, c.kind.isPagination = true → ∃ n, c.count = .ok n) :
    LastCount kind cs (numberOf kind (turnPages .unset cs)) := by
  -- from the end, since a later condition replaces an earlier one
  induction cs using List.reverseRecOn with
  | nil =>
    rcases Kind.isPagination_iff.1 hkind with rfl | rfl <;> exact .absent (List.forall_mem_nil _)
  | append_singleton cs c ih =>
    obtain ⟨hcs, hc⟩ := List.forall_mem_append.1 h
    rw [numberOf_turnPages_concat hkind]
    split
    next hsame =>
      obtain ⟨n, hn⟩ := hc c List.mem_cons_self (by rw [hsame, hkind])
      rw [hn]
      exact .concat_self hsame hn
    next hother => exact (ih hcs).concat hother

-- Conditions of other kinds leave the number as it is.
theorem numberOf_turnPages_of_ne (hkind : kind.isPagination = true) (h : ∀ c ∈ cs, c.kind ≠ kind)
    (page : Page) : numberOf kind (turnPages page cs) = numberOf kind page := by
  induction cs using List.reverseRecOn with
  | nil => rfl
  | append_singleton cs c ih =>
    obtain ⟨hcs, hc⟩ := List.forall_mem_append.1 h
    rw [numberOf_turnPages_concat hkind, if_neg (hc c List.mem_cons_self), ih hcs]

/-! ## Orderings and fetches -/

end Spec

/-- The order that an ordering stands for, when it is known which alias the chains have: the end of
its path under the alias of the way to it, in the direction of the kind. -/
inductive Order.StandsFor (named : List String → String → Prop) : Path × Kind → Order → Prop where
  | ascending {p : Path} {a : String} (ha : named p.way a) :
    StandsFor named (p, .orderAsc) ⟨a ++ "." ++ p.terminal.name, .ascending⟩
  | descending {p : Path} {a : String} (ha : named p.way a) :
    StandsFor named (p, .orderDesc) ⟨a ++ "." ++ p.terminal.name, .descending⟩

namespace Spec

variable {settings : Settings} {spec : Spec} {plan : Plan} {t : JoinTree} {p : Path}
  {named : List String → String → Prop}

-- A condition brings one order if it is an ordering with a path, and none otherwise.
theorem standsFor_orders_singleton {c : Condition}
    (h : ∀ chain, chain = [] ∨ chain ∈ c.chains → named chain (t.aliasAt chain)) :
    List.Forall₂ (Order.StandsFor named)
      (([c].filter (·.kind.isOrdering)).filterMap fun c => c.path.map fun p => (p, c.kind))
      (c.orders t) := by
  rw [List.filter_singleton]
  cases hordering : c.kind.isOrdering with
  | false =>
    rw [Condition.orders_eq_nil hordering]
    exact .nil
  | true =>
    rw [cond_true, List.filterMap_cons, List.filterMap_nil]
    cases hpath : c.path with
    | none =>
      rw [Condition.orders, hpath]
      exact .nil
    | some p =>
      have hway := h p.way (Condition.mem_chains_of_path hpath)
      cases hkind : c.kind
      case orderAsc =>
        rw [Condition.orders, hpath, hkind]
        exact .cons (.ascending hway) .nil
      case orderDesc =>
        rw [Condition.orders, hpath, hkind]
        exact .cons (.descending hway) .nil
      all_goals
        rw [hkind] at hordering
        cases hordering

theorem standsFor_orders {cs : List Condition}
    (h : ∀ c ∈ cs, ∀ chain, chain = [] ∨ chain ∈ c.chains → named chain (t.aliasAt chain)) :
    List.Forall₂ (Order.StandsFor named)
      ((cs.filter (·.kind.isOrdering)).filterMap fun c => c.path.map fun p => (p, c.kind))
      (cs.flatMap (Condition.orders t)) := by
  induction cs with
  | nil => exact .nil
  | cons c cs ih =>
    obtain ⟨hc, hcs⟩ := List.forall_mem_cons.1 h
    rw [List.flatMap_cons, ← List.singleton_append, List.filter_append, List.filterMap_append]
    exact List.rel_append (standsFor_orders_singleton hc) (ih hcs)

-- A fetched relationship is used as a whole, and so is the way to it.
theorem mem_chains_of_mem_fetches (hp : p ∈ spec.fetches) :
    (p.way = [] ∨ p.way ∈ spec.chains) ∧ p.names ∈ spec.chains := by
  obtain ⟨c, hc, hkind, hpath⟩ := mem_pathsOf_iff.1 hp
  refine ⟨(Condition.mem_chains_of_path hpath).imp_right (mem_chains_of_mem hc),
    mem_chains_of_mem hc ?_⟩
  rw [Condition.chains_of_path hpath, if_pos (Condition.joinsEnd_of_fetch hkind)]
  exact List.mem_append_right _ List.mem_cons_self

/-- In a plan of the specification the alias is that of the chain, and the joins lead from it back
to the root along the chain. -/
def AliasIn (settings : Settings) (spec : Spec) (plan : Plan) (chain : List String) (a : String) :
    Prop :=
  a = aliasOf settings spec chain ∧ plan.trail? plan.joins.length a = some chain

theorem Compiled.aliasIn {c : Compilation} {clauses : List Predicate}
    (h : Compiled settings spec (.start spec.root settings.rootAlias) c clauses plan)
    {chain : List String} (hc : chain = [] ∨ chain ∈ spec.chains) :
    AliasIn settings spec plan chain (aliasOf settings spec chain) :=
  ⟨rfl, h.trail?_aliasOf hc⟩

-- The aliases in the tree of the compilation are those of the plan.
theorem Compiled.aliasIn_aliasAt {c : Compilation} {clauses : List Predicate}
    (h : Compiled settings spec (.start spec.root settings.rootAlias) c clauses plan)
    (chain : List String) (hc : chain = [] ∨ chain ∈ spec.chains) :
    AliasIn settings spec plan chain (c.tree.aliasAt chain) := by
  rw [h.aliasAt]
  exact h.aliasIn hc

theorem Compiled.page_eq {c : Compilation} {clauses : List Predicate}
    (h : Compiled settings spec (.start spec.root settings.rootAlias) c clauses plan) :
    plan.page = turnPages .unset spec.conditions := by
  rw [h.plan]
  rfl

-- The page has the counts of the last conditions that count.
theorem Compiled.lastCount {c : Compilation} {clauses : List Predicate} {kind : Kind}
    (h : Compiled settings spec (.start spec.root settings.rootAlias) c clauses plan)
    (hreachable : spec.Reachable) (hkind : kind.isPagination = true) :
    LastCount kind spec.conditions (numberOf kind plan.page) := by
  rw [h.page_eq]
  exact lastCount_turnPages hkind fun c hc => (hreachable.usable c hc).exists_count

/-- A plan has the page of its specification, where the last offset and the last limit count. It has
one order for each ordering, and for every fetched path the join of the relationship at its end,
from which the joins lead back along the whole path. -/
theorem toPlan_views (h : spec.Reachable) (run : spec.toPlan settings = .ok plan) :
    (plan.page = spec.page ∧ LastCount .skip spec.conditions plan.page.offset ∧
      LastCount .take spec.conditions plan.page.limit) ∧
    List.Forall₂ (Order.StandsFor (AliasIn settings spec plan)) spec.orderings plan.orders ∧
    ∀ p ∈ spec.fetches, ∃ j ∈ plan.joins, AliasIn settings spec plan p.way j.parent ∧
      j.property = p.terminal.name ∧ AliasIn settings spec plan p.names j.ownAlias ∧
      j.kind = spec.joinKind := by
  obtain ⟨c, clauses, hcompiled⟩ := (toPlan_outcomes settings h).1 plan run
  refine ⟨⟨hcompiled.page_eq, hcompiled.lastCount h rfl, hcompiled.lastCount h rfl⟩, ?_,
    fun p hp => ?_⟩
  · rw [hcompiled.orders_of_start]
    exact standsFor_orders fun d hd chain hchain =>
      hcompiled.aliasIn_aliasAt chain (hchain.imp_right (mem_chains_of_mem hd))
  · obtain ⟨hway, hnames⟩ := mem_chains_of_mem_fetches hp
    have hjoin : ⟨aliasOf settings spec p.way, p.terminal.name, aliasOf settings spec p.names,
        spec.joinKind⟩ ∈ plan.joins := by
      rw [hcompiled.joins_of_start]
      exact mem_chainJoins hnames
    exact ⟨_, hjoin, hcompiled.aliasIn hway, rfl, hcompiled.aliasIn (.inr hnames), rfl⟩

/-- Employees with their managers and the managers of these, in the order of two names. A first
limit is replaced later on. -/
def pagedStaff : Spec :=
  (chain
    [⟨.take 5, false⟩,
     ⟨.fetch (.chain ["manager", "manager"]), true⟩,
     ⟨.orderByAscending (.chain ["name"]), false⟩,
     ⟨.skip 3, true⟩,
     ⟨.orderByDescending (.chain ["manager", "name"]), false⟩,
     ⟨.take 10, false⟩]
    ⟨staffStart, []⟩).2.state

def pagedStaffPlan : Plan where
  entity := "Employee"
  rootAlias := "this"
  joins := [⟨"this", "manager", "alias_1", .inner⟩, ⟨"alias_1", "manager", "alias_2", .inner⟩]
  predicates := []
  orders := [⟨"this.name", .ascending⟩, ⟨"alias_1.name", .descending⟩]
  columns := []
  page := { limit := some 10, offset := some 3 }
  resultType := none

-- The second limit counts, and the fetched relationship is joined although nothing refers to it.
theorem toPlan_views_pagedStaff :
    pagedStaff.Reachable ∧ pagedStaff.toPlan .standard = .ok pagedStaffPlan ∧
      pagedStaffPlan.page = pagedStaff.page ∧
      LastCount .take pagedStaff.conditions (some 10) ∧
      List.Forall₂ (Order.StandsFor (AliasIn .standard pagedStaff pagedStaffPlan))
        pagedStaff.orderings pagedStaffPlan.orders ∧
      ∃ p ∈ pagedStaff.fetches, ∃ j ∈ pagedStaffPlan.joins,
        AliasIn .standard pagedStaff pagedStaffPlan p.way j.parent ∧
        j.property = p.terminal.name ∧
        AliasIn .standard pagedStaff pagedStaffPlan ["manager", "manager"] j.ownAlias := by
  have hreachable : pagedStaff.Reachable := Reachable.chain reachable_staffStart _
  have hrun : pagedStaff.toPlan .standard = .ok pagedStaffPlan := by cbv
  obtain ⟨⟨hpage, -, hlimit⟩, horders, hfetches⟩ := toPlan_views hreachable hrun
  obtain ⟨p, hp, hnames⟩ : ∃ p ∈ pagedStaff.fetches, p.names = ["manager", "manager"] :=
    ⟨_, List.mem_cons_self, rfl⟩
  obtain ⟨j, hj, hparent, hproperty, hown, -⟩ := hfetches p hp
  rw [hnames] at hown
  exact ⟨hreachable, hrun, hpage, hlimit, horders, p, hp, j, hj, hparent, hproperty, hown⟩

end Spec

end PathQuery
