import Mathlib.Data.List.Basic
import Mathlib.Data.List.Infix
import Mathlib.Data.List.Nodup
import PathQuery.Path
import PathQuery.Plan.Basic
import PathQuery.Proofs.Alias

/-!
# Chains — relationships in the order of their first use

A chain is a list of relationship names from the root. The chains that conditions need are joined in
the order of their first use; the place of a chain in that order is the number in its alias.
-/

namespace PathQuery

/-- The names of the relationships on the way to the end of a path. -/
def Path.way (p : Path) : List String :=
  p.navigation.map (·.name)

/-- The names of all segments of a path. -/
def Path.names (p : Path) : List String :=
  p.way ++ [p.terminal.name]

/-! ## First uses -/

section FirstUses

variable {α : Type} [BEq α] [LawfulBEq α] {x : α} {xs ys : List α}

theorem nodup_eraseDups (xs : List α) : xs.eraseDups.Nodup := by
  -- on the length, since the tail is filtered before its own repetitions are dropped
  induction h : xs.length using Nat.strong_induction_on generalizing xs with
  | h n ih =>
    cases xs with
    | nil => exact List.nodup_nil
    | cons x xs =>
      rw [List.eraseDups_cons, List.nodup_cons]
      refine ⟨?_, ih _ ?_ _ rfl⟩
      · simp only [List.mem_eraseDups, List.mem_filter, beq_self_eq_true, Bool.not_true,
          Bool.false_eq_true, and_false, not_false_eq_true]
      · have hle := List.length_filter_le (fun b => !b == x) xs
        rw [List.length_cons] at h
        omega

theorem eraseDups_of_nodup (h : xs.Nodup) : xs.eraseDups = xs := by
  induction xs with
  | nil => rfl
  | cons x xs ih =>
    rcases List.nodup_cons.1 h with ⟨hx, hxs⟩
    have hother : ∀ y ∈ xs, (!y == x) = true := by
      intro y hy
      rw [Bool.not_eq_true', beq_eq_false_iff_ne]
      intro heq
      subst heq
      exact hx hy
    rw [List.eraseDups_cons, List.filter_eq_self.2 hother, ih hxs]

-- What was used first stays first.
theorem eraseDups_append_eq (h : xs.Nodup) :
    (xs ++ ys).eraseDups = xs ++ (ys.removeAll xs).eraseDups := by
  rw [List.eraseDups_append, eraseDups_of_nodup h]

-- First uses can be taken step by step.
theorem eraseDups_eraseDups_append :
    (xs.eraseDups ++ ys).eraseDups = (xs ++ ys).eraseDups := by
  have hsame : ys.removeAll xs.eraseDups = ys.removeAll xs := by
    refine List.filter_congr fun y _ => ?_
    simp only [List.elem_eq_contains, List.contains_eq_mem, List.mem_eraseDups]
  rw [eraseDups_append_eq (nodup_eraseDups xs), List.eraseDups_append, hsame]

theorem eraseDups_concat_of_mem (h : xs.Nodup) (hx : x ∈ xs) : (xs ++ [x]).eraseDups = xs := by
  rw [eraseDups_append_eq h]
  simp [List.removeAll, hx]

theorem eraseDups_concat_of_notMem (h : xs.Nodup) (hx : x ∉ xs) :
    (xs ++ [x]).eraseDups = xs ++ [x] := by
  rw [eraseDups_append_eq h]
  simp [List.removeAll, hx, List.eraseDups_cons]

end FirstUses

/-! ## Aliases and joins of chains -/

/-- The chains that are used on the way along names, from the shortest to the longest. -/
def chainsAlong (names : List String) : List (List String) :=
  names.inits.tail

theorem chainsAlong_cons (name : String) (names : List String) :
    chainsAlong (name :: names) = [name] :: (chainsAlong names).map (name :: ·) := by
  cases names with
  | nil => rfl
  | cons next rest =>
    simp only [chainsAlong, List.inits_cons, List.tail_cons, List.map_cons]

theorem mem_chainsAlong_self {names : List String} (h : names ≠ []) :
    names ∈ chainsAlong names := by
  induction names with
  | nil => exact absurd rfl h
  | cons name names ih =>
    rw [chainsAlong_cons]
    by_cases hnil : names = []
    · rw [hnil]
      exact List.mem_cons_self
    · exact List.mem_cons_of_mem _ (List.mem_map_of_mem (ih hnil))

/-- The alias of a chain when chains are joined in an order. -/
def chainAlias (rootAlias stem : String) (joined : List (List String)) : List String → String
  | [] => rootAlias
  | chain => generatedAlias stem (joined.idxOf chain + 1)

/-- The joins of chains in an order: each relationship under the alias of the chain before it. -/
def chainJoins (rootAlias stem : String) (kind : JoinKind) (joined : List (List String)) :
    List Join :=
  joined.mapIdx fun i chain =>
    ⟨chainAlias rootAlias stem joined chain.dropLast, (chain.getLast?).getD "",
      generatedAlias stem (i + 1), kind⟩

/-- Chains without repetition, each of them behind the chain that it prolongs. -/
structure ClosedChains (joined : List (List String)) : Prop where
  nodup : joined.Nodup
  parents : ∀ i chain, joined[i]? = some chain →
    chain ≠ [] ∧ (chain.dropLast = [] ∨ joined.idxOf chain.dropLast < i)

variable {rootAlias stem : String} {kind : JoinKind} {joined more : List (List String)}
  {chain : List String}

theorem chainAlias_of_ne_nil (h : chain ≠ []) :
    chainAlias rootAlias stem joined chain = generatedAlias stem (joined.idxOf chain + 1) := by
  cases chain with
  | nil => exact absurd rfl h
  | cons name rest => rfl

-- The alias of a joined chain does not depend on the chains joined later.
theorem chainAlias_append (h : chain = [] ∨ chain ∈ joined) :
    chainAlias rootAlias stem (joined ++ more) chain = chainAlias rootAlias stem joined chain := by
  by_cases hnil : chain = []
  · rw [hnil]
    rfl
  · rw [chainAlias_of_ne_nil hnil, chainAlias_of_ne_nil hnil,
      List.idxOf_append_of_mem (h.resolve_left hnil)]

namespace ClosedChains

theorem ne_nil (h : ClosedChains joined) (hc : chain ∈ joined) : chain ≠ [] := by
  rcases List.mem_iff_getElem?.1 hc with ⟨i, hi⟩
  exact (h.parents i chain hi).1

theorem dropLast_mem (h : ClosedChains joined) (hc : chain ∈ joined) :
    chain.dropLast = [] ∨ chain.dropLast ∈ joined := by
  rcases List.mem_iff_getElem?.1 hc with ⟨i, hi⟩
  refine (h.parents i chain hi).2.imp_right fun hlt => ?_
  have hlen : i < joined.length := (List.getElem?_eq_some_iff.1 hi).1
  exact List.idxOf_lt_length_iff.1 (by omega)

-- Together with a chain every chain that it prolongs is joined.
theorem mem_of_prefix (h : ClosedChains joined) {shorter : List String}
    (hshorter : shorter <+: chain) (hc : chain = [] ∨ chain ∈ joined) :
    shorter = [] ∨ shorter ∈ joined := by
  induction chain using List.reverseRecOn with
  | nil => exact .inl (List.prefix_nil.1 hshorter)
  | append_singleton names name ih =>
    rcases List.prefix_concat_iff.1 hshorter with rfl | hfront
    · exact hc
    · have hmem := hc.resolve_left (List.concat_ne_nil name names)
      have hparent := h.dropLast_mem hmem
      rw [List.dropLast_concat] at hparent
      exact ih hfront hparent

end ClosedChains

theorem getElem?_chainJoins (rootAlias stem : String) (kind : JoinKind)
    (joined : List (List String)) (i : Nat) :
    (chainJoins rootAlias stem kind joined)[i]? = joined[i]?.map fun chain =>
      ⟨chainAlias rootAlias stem joined chain.dropLast, (chain.getLast?).getD "",
        generatedAlias stem (i + 1), kind⟩ :=
  List.getElem?_mapIdx

/-- The joins of chains, told without numbers. -/
theorem chainJoins_eq_map (h : ClosedChains joined) :
    chainJoins rootAlias stem kind joined = joined.map fun chain =>
      ⟨chainAlias rootAlias stem joined chain.dropLast, (chain.getLast?).getD "",
        chainAlias rootAlias stem joined chain, kind⟩ := by
  refine List.ext_getElem? fun i => ?_
  rw [getElem?_chainJoins, List.getElem?_map]
  cases hi : joined[i]? with
  | none => rfl
  | some chain =>
    -- a chain stands in one place
    obtain ⟨hlt, rfl⟩ := List.getElem?_eq_some_iff.1 hi
    rw [Option.map_some, Option.map_some, chainAlias_of_ne_nil (h.parents i _ hi).1,
      List.Nodup.idxOf_getElem h.nodup i hlt]

-- The join of a chain stands under the alias of an earlier chain, or under the root alias.
theorem ClosedChains.exists_join (h : ClosedChains joined) (rootAlias stem : String)
    (kind : JoinKind) {i : Nat} (hi : joined[i]? = some chain) :
    ∃ names name parent, chain = names ++ [name] ∧
      (chainJoins rootAlias stem kind joined)[i]? =
        some ⟨parent, name, generatedAlias stem (i + 1), kind⟩ ∧
      (names = [] ∧ parent = rootAlias ∨
        ∃ k < i, joined[k]? = some names ∧ parent = generatedAlias stem (k + 1)) := by
  rcases h.parents i chain hi with ⟨hne, hparent⟩
  refine ⟨chain.dropLast, chain.getLast hne, chainAlias rootAlias stem joined chain.dropLast,
    (List.dropLast_concat_getLast hne).symm, ?_, ?_⟩
  · rw [getElem?_chainJoins, hi, Option.map_some, List.getLast?_eq_some_getLast hne,
      Option.getD_some]
  · by_cases hnil : chain.dropLast = []
    · exact .inl ⟨hnil, by rw [hnil]; rfl⟩
    · have hlt := hparent.resolve_left hnil
      have hlen : i < joined.length := (List.getElem?_eq_some_iff.1 hi).1
      have hmem : chain.dropLast ∈ joined := List.idxOf_lt_length_iff.1 (by omega)
      exact .inr ⟨_, hlt, List.getElem?_idxOf hmem, chainAlias_of_ne_nil hnil⟩

-- The relationship at the end of a chain is joined under the alias of the chain before it.
theorem mem_chainJoins {name : String} (hc : chain ++ [name] ∈ joined) :
    ⟨chainAlias rootAlias stem joined chain, name,
      chainAlias rootAlias stem joined (chain ++ [name]), kind⟩ ∈
      chainJoins rootAlias stem kind joined := by
  have hget := getElem?_chainJoins rootAlias stem kind joined (joined.idxOf (chain ++ [name]))
  rw [List.getElem?_idxOf hc, Option.map_some, List.dropLast_concat, List.getLast?_concat,
    Option.getD_some, ← chainAlias_of_ne_nil (List.concat_ne_nil name chain)] at hget
  exact List.mem_of_getElem? hget

-- Every join of a chain has a generated alias.
theorem exists_number_of_mem_chainJoins {j : Join}
    (hj : j ∈ chainJoins rootAlias stem kind joined) :
    ∃ i < joined.length, j.ownAlias = generatedAlias stem (i + 1) := by
  rcases List.mem_mapIdx.1 hj with ⟨i, hi, rfl⟩
  exact ⟨i, hi, rfl⟩

/-- More chains bring more joins and leave the others as they are. -/
theorem chainJoins_append (h : ClosedChains joined) (more : List (List String)) :
    chainJoins rootAlias stem kind (joined ++ more) =
      chainJoins rootAlias stem kind joined ++ more.mapIdx fun i chain =>
        ⟨chainAlias rootAlias stem (joined ++ more) chain.dropLast, (chain.getLast?).getD "",
          generatedAlias stem (i + joined.length + 1), kind⟩ := by
  -- parents come before their chains, so chains at the end change no alias
  rw [chainJoins, List.mapIdx_append]
  congr 1
  refine List.mapIdx_eq_iff.2 fun i => ?_
  rw [chainJoins, List.getElem?_mapIdx]
  cases hi : joined[i]? with
  | none => rfl
  | some c =>
    have hc := h.dropLast_mem (List.mem_of_getElem? hi)
    rw [Option.map_some, Option.map_some, chainAlias_append hc]

theorem chainJoins_concat (h : ClosedChains joined)
    (hparent : chain.dropLast = [] ∨ chain.dropLast ∈ joined) :
    chainJoins rootAlias stem kind (joined ++ [chain]) =
      chainJoins rootAlias stem kind joined ++
        [⟨chainAlias rootAlias stem joined chain.dropLast, (chain.getLast?).getD "",
          generatedAlias stem (joined.length + 1), kind⟩] := by
  rw [chainJoins_append h, List.mapIdx_singleton, chainAlias_append hparent, Nat.zero_add]

/-! ## Different chains -/

-- Chains have different aliases unless a generated alias is the root alias.
theorem chainAlias_injective (hroot : ∀ i < joined.length, generatedAlias stem (i + 1) ≠ rootAlias)
    {other : List String} (hc : chain = [] ∨ chain ∈ joined) (ho : other = [] ∨ other ∈ joined)
    (h : chainAlias rootAlias stem joined chain = chainAlias rootAlias stem joined other) :
    chain = other := by
  have hgenerated : ∀ c ∈ joined, generatedAlias stem (joined.idxOf c + 1) ≠ rootAlias :=
    fun c hmem => hroot _ (List.idxOf_lt_length_iff.2 hmem)
  by_cases hcnil : chain = []
  · by_cases honil : other = []
    · rw [hcnil, honil]
    -- the root alias is not generated
    · rw [hcnil, chainAlias_of_ne_nil honil] at h
      exact absurd h.symm (hgenerated other (ho.resolve_left honil))
  · have hmem := hc.resolve_left hcnil
    by_cases honil : other = []
    · rw [honil, chainAlias_of_ne_nil hcnil] at h
      exact absurd h (hgenerated chain hmem)
    · rw [chainAlias_of_ne_nil hcnil, chainAlias_of_ne_nil honil] at h
      have hplace := generatedAlias_injective h
      exact (List.idxOf_inj hmem).1 (by omega)

-- No relationship of an aliased entity is joined twice.
theorem nodup_parent_property (h : ClosedChains joined)
    (hroot : ∀ i < joined.length, generatedAlias stem (i + 1) ≠ rootAlias) :
    ((chainJoins rootAlias stem kind joined).map fun j => (j.parent, j.property)).Nodup := by
  have hmap : (chainJoins rootAlias stem kind joined).map (fun j => (j.parent, j.property)) =
      joined.map fun chain =>
        (chainAlias rootAlias stem joined chain.dropLast, (chain.getLast?).getD "") := by
    refine List.ext_getElem? fun i => ?_
    rw [List.getElem?_map, getElem?_chainJoins, List.getElem?_map, Option.map_map]
    rfl
  rw [hmap]
  refine List.Nodup.map_on (fun c hc d hd heq => ?_) h.nodup
  rcases Prod.mk.inj heq with ⟨hparent, hlast⟩
  have hfront := chainAlias_injective hroot (h.dropLast_mem hc) (h.dropLast_mem hd) hparent
  -- equal fronts and equal last names make equal chains
  have hcne := h.ne_nil hc
  have hdne := h.ne_nil hd
  rw [List.getLast?_eq_some_getLast hcne, List.getLast?_eq_some_getLast hdne] at hlast
  rw [← List.dropLast_concat_getLast hcne, ← List.dropLast_concat_getLast hdne, hfront]
  exact congrArg (d.dropLast ++ [·]) hlast

-- The aliases of joins are the generated ones in their order.
theorem ownAliases_chainJoins :
    (chainJoins rootAlias stem kind joined).map (·.ownAlias) =
      (List.range joined.length).map fun i => generatedAlias stem (i + 1) := by
  refine List.ext_getElem? fun i => ?_
  rw [List.getElem?_map, getElem?_chainJoins, Option.map_map, List.getElem?_map]
  by_cases hi : i < joined.length
  · rw [List.getElem?_range hi, List.getElem?_eq_getElem hi]
    rfl
  · rw [List.getElem?_eq_none (by omega), List.getElem?_eq_none (by rw [List.length_range]; omega)]
    rfl

theorem nodup_ownAliases : ((chainJoins rootAlias stem kind joined).map (·.ownAlias)).Nodup := by
  rw [ownAliases_chainJoins]
  refine List.Nodup.map_on (fun i _ k _ heq => ?_) List.nodup_range
  exact Nat.succ_injective (generatedAlias_injective heq)

end PathQuery
