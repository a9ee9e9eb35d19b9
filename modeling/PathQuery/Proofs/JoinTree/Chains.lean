import PathQuery.Proofs.Chain
import PathQuery.Proofs.JoinTree

/-!
# Join trees as lists of chains

The chain of a node is read off the links to its parents. A sound tree is the list of the chains of
its nodes: following children along names finds the node of their chain, and the aliases and joins
that the nodes have stored are those of the chains. A tree grows by the chains that are used for the
first time.
-/

namespace PathQuery.JoinTree

/-- The relationships from the root to a node. -/
def chain (t : JoinTree) (id : Nat) : List String :=
  t.climb id []

/-- The chains of the nodes in their order. -/
def chains (t : JoinTree) : List (List String) :=
  (List.range t.joinCount).map fun i => t.chain (i + 1)

/-- The node that is reached from the root along names. -/
def id? (t : JoinTree) (chain : List String) : Option Nat :=
  chain.foldlM t.child? 0

/-- The alias of a chain. -/
def aliasAt (t : JoinTree) (chain : List String) : String :=
  chainAlias t.rootAlias t.stem t.chains chain

/-- A property of the entity at the end of a chain, qualified by its alias. -/
def reference (t : JoinTree) (chain : List String) (name : String) : String :=
  t.aliasAt chain ++ "." ++ name

variable {t u v : JoinTree} {chain : List String} {id parent : Nat} {segment : Segment}

/-! ## Climbing -/

theorem climb_of_root (h : t.parent? id = none) (names : List String) :
    t.climb id names = names := by
  rw [climb, h]

theorem climb_of_lt (h : t.parent? id = some parent) (hlt : parent < id) (names : List String) :
    t.climb id names = t.climb parent (t.property id :: names) := by
  rw [climb, h]
  exact if_pos hlt

theorem climb_of_le (h : t.parent? id = some parent) (hle : id ≤ parent) (names : List String) :
    t.climb id names = t.property id :: names := by
  rw [climb, h]
  exact if_neg (Nat.not_lt.2 hle)

-- What was put in front of names does not depend on them.
theorem climb_eq (id : Nat) (names : List String) : t.climb id names = t.chain id ++ names := by
  induction id using Nat.strong_induction_on generalizing names with
  | h id ih =>
    rw [JoinTree.chain]
    cases hp : t.parent? id with
    | none => rw [climb_of_root hp, climb_of_root hp, List.nil_append]
    | some parent =>
      rcases Nat.lt_or_ge parent id with hlt | hle
      · rw [climb_of_lt hp hlt, climb_of_lt hp hlt, ih parent hlt, ih parent hlt [t.property id],
          List.append_assoc]
        rfl
      · rw [climb_of_le hp hle, climb_of_le hp hle, List.singleton_append]

namespace Sound

theorem chain_root (h : t.Sound) : t.chain 0 = [] :=
  climb_of_root h.root []

/-- The chain of a node prolongs that of its parent by its property. -/
theorem chain_of_parent? (h : t.Sound) (hp : t.parent? id = some parent) :
    t.chain id = t.chain parent ++ [t.property id] := by
  rw [JoinTree.chain, climb_of_lt hp (h.parent?_lt hp), climb_eq]

-- A node that is not the root has a parent and prolongs its chain.
theorem exists_chain (h : t.Sound) (hpos : 0 < id) (hid : id < t.size) :
    ∃ parent < id, t.parent? id = some parent ∧
      t.chain id = t.chain parent ++ [t.property id] := by
  obtain ⟨parent, hlt, hp⟩ := h.parent id hpos hid
  exact ⟨parent, hlt, hp, h.chain_of_parent? hp⟩

end Sound

/-! ## Following children -/

theorem id?_concat (chain : List String) (name : String) :
    t.id? (chain ++ [name]) = (t.id? chain).bind (t.child? · name) := by
  rw [id?, List.foldlM_append, id?]
  exact congrArg (Option.bind _) (funext fun id => bind_pure _)

theorem child?_of_id? (hid : t.id? chain = some id) (name : String) :
    t.child? id name = t.id? (chain ++ [name]) := by
  rw [id?_concat, hid, Option.bind_some]

namespace Sound

/-- Following children along a chain leads to its node, and to no other. -/
theorem id?_eq_some_iff (h : t.Sound) :
    t.id? chain = some id ↔ id < t.size ∧ t.chain id = chain := by
  -- the last child is the one whose parent the names before it lead to
  induction chain using List.reverseRecOn generalizing id with
  | nil =>
    refine ⟨fun heq => ?_, fun ⟨hid, hchain⟩ => ?_⟩
    · cases heq
      exact ⟨h.size_pos, h.chain_root⟩
    · rcases Nat.eq_zero_or_pos id with rfl | hpos
      · rfl
      · obtain ⟨parent, -, -, hlonger⟩ := h.exists_chain hpos hid
        rw [hchain] at hlonger
        exact absurd hlonger.symm (List.concat_ne_nil _ _)
  | append_singleton names name ih =>
    simp only [id?_concat, Option.bind_eq_some_iff, ih, h.child]
    refine ⟨fun ⟨parent, ⟨_, hnames⟩, hp, hname⟩ => ?_, fun ⟨hid, hchain⟩ => ?_⟩
    · refine ⟨lt_size_of_parent? hp, ?_⟩
      rw [h.chain_of_parent? hp, hnames, hname]
    · rcases Nat.eq_zero_or_pos id with rfl | hpos
      · rw [h.chain_root] at hchain
        exact absurd hchain.symm (List.concat_ne_nil _ _)
      · obtain ⟨parent, hlt, hp, hlonger⟩ := h.exists_chain hpos hid
        obtain ⟨hnames, hname⟩ := List.append_inj' (hlonger.symm.trans hchain) rfl
        exact ⟨parent, ⟨Nat.lt_trans hlt hid, hnames⟩, hp, List.singleton_inj.1 hname⟩

theorem id?_chain (h : t.Sound) (hid : id < t.size) : t.id? (t.chain id) = some id :=
  h.id?_eq_some_iff.2 ⟨hid, rfl⟩

-- Different nodes have different chains.
theorem chain_injective (h : t.Sound) {other : Nat} (hid : id < t.size) (hother : other < t.size)
    (heq : t.chain id = t.chain other) : id = other := by
  have hsame := h.id?_chain hid
  rw [heq, h.id?_chain hother] at hsame
  exact (Option.some.inj hsame).symm

end Sound

/-! ## The list of chains -/

theorem length_chains : t.chains.length = t.joinCount := by
  rw [chains, List.length_map, List.length_range]

theorem getElem?_chains {i : Nat} (h : i + 1 < t.size) :
    t.chains[i]? = some (t.chain (i + 1)) := by
  have hi : i < t.joinCount := by
    rw [joinCount]
    omega
  rw [chains, List.getElem?_map, List.getElem?_range hi, Option.map_some]

-- Every place of the list is that of a node.
theorem lt_size_of_getElem?_chains {i : Nat} (h : t.chains[i]? = some chain) : i + 1 < t.size := by
  have hi := (List.getElem?_eq_some_iff.1 h).1
  rw [length_chains, joinCount] at hi
  omega

namespace Sound

theorem size_eq (h : t.Sound) : t.size = t.chains.length + 1 := by
  have hpos := h.size_pos
  rw [length_chains, joinCount]
  omega

theorem nodup_chains (h : t.Sound) : t.chains.Nodup := by
  refine List.Nodup.map_on (fun i hi k hk heq => ?_) List.nodup_range
  rw [List.mem_range, joinCount] at hi hk
  exact Nat.succ_injective (h.chain_injective (by omega) (by omega) heq)

theorem idxOf_chain (h : t.Sound) {i : Nat} (hi : i + 1 < t.size) :
    t.chains.idxOf (t.chain (i + 1)) = i := by
  obtain ⟨hlt, hget⟩ := List.getElem?_eq_some_iff.1 (getElem?_chains hi)
  rw [← hget]
  exact h.nodup_chains.idxOf_getElem i hlt

/-- The chains of a sound tree are closed: parents stand before their nodes. -/
theorem closed (h : t.Sound) : ClosedChains t.chains := by
  refine ⟨h.nodup_chains, fun i chain hi => ?_⟩
  have hid := lt_size_of_getElem?_chains hi
  rw [getElem?_chains hid] at hi
  cases hi
  obtain ⟨parent, hlt, -, hlonger⟩ := h.exists_chain (Nat.succ_pos i) hid
  rw [hlonger, List.dropLast_concat]
  refine ⟨List.concat_ne_nil _ _, ?_⟩
  cases parent with
  | zero => exact .inl h.chain_root
  | succ k =>
    rw [h.idxOf_chain (Nat.lt_trans hlt hid)]
    exact .inr (Nat.lt_of_succ_lt_succ hlt)

-- The chains of the list are those that lead to nodes.
theorem exists_id?_iff (h : t.Sound) :
    (∃ id, t.id? chain = some id) ↔ chain = [] ∨ chain ∈ t.chains := by
  simp only [h.id?_eq_some_iff]
  constructor
  · rintro ⟨id, hid, rfl⟩
    cases id with
    | zero => exact .inl h.chain_root
    | succ i => exact .inr (List.mem_of_getElem? (getElem?_chains hid))
  · rintro (rfl | hmem)
    · exact ⟨0, h.size_pos, h.chain_root⟩
    · obtain ⟨i, hi⟩ := List.mem_iff_getElem?.1 hmem
      have hid := lt_size_of_getElem?_chains hi
      exact ⟨i + 1, hid, Option.some.inj ((getElem?_chains hid).symm.trans hi)⟩

theorem exists_id? (h : t.Sound) (hc : chain = [] ∨ chain ∈ t.chains) :
    ∃ id, t.id? chain = some id :=
  h.exists_id?_iff.2 hc

theorem mem_of_id? (h : t.Sound) (hid : t.id? chain = some id) : chain = [] ∨ chain ∈ t.chains :=
  h.exists_id?_iff.1 ⟨id, hid⟩

theorem notMem_of_id? (h : t.Sound) (hnone : t.id? chain = none) : chain ∉ t.chains := by
  intro hmem
  obtain ⟨id, hid⟩ := h.exists_id? (.inr hmem)
  rw [hnone] at hid
  cases hid

/-! ## Aliases and joins of the nodes -/

/-- The alias that a node has stored is that of its chain. -/
theorem aliasOf_eq (h : t.Sound) (hid : id < t.size) : t.aliasOf id = t.aliasAt (t.chain id) := by
  cases id with
  | zero =>
    rw [h.chain_root]
    rfl
  | succ i =>
    have hne := (h.closed.parents i _ (getElem?_chains hid)).1
    rw [h.ownAlias _ (Nat.succ_pos i) hid, aliasAt, chainAlias_of_ne_nil hne, h.idxOf_chain hid]

theorem aliasOf_of_id? (h : t.Sound) (hid : t.id? chain = some id) :
    t.aliasOf id = t.aliasAt chain := by
  obtain ⟨hlt, rfl⟩ := h.id?_eq_some_iff.1 hid
  exact h.aliasOf_eq hlt

-- The next alias has the number of chains behind it, counted from one.
theorem nextAlias_eq (h : t.Sound) : t.nextAlias = generatedAlias t.stem (t.chains.length + 1) := by
  rw [h.nextAlias, h.size_eq]

/-- The joins of the nodes are the joins of the chains. -/
theorem joins_eq (h : t.Sound) : t.joins = chainJoins t.rootAlias t.stem t.kind t.chains := by
  refine List.ext_getElem? fun i => ?_
  rw [getElem?_chainJoins]
  rcases Nat.lt_or_ge (i + 1) t.size with hid | hge
  · obtain ⟨parent, hlt, hp, hlonger⟩ := h.exists_chain (Nat.succ_pos i) hid
    rw [getElem?_joins hp, getElem?_chains hid, Option.map_some, hlonger, List.dropLast_concat,
      List.getLast?_concat, Option.getD_some, h.aliasOf_eq (Nat.lt_trans hlt hid),
      h.ownAlias _ (Nat.succ_pos i) hid, h.kind _ hid]
    rfl
  · have hjoins : t.joins.length ≤ i := by
      rw [length_joins, joinCount]
      omega
    have hchains : t.chains.length ≤ i := by
      rw [length_chains, joinCount]
      omega
    rw [List.getElem?_eq_none hjoins, List.getElem?_eq_none hchains, Option.map_none]

end Sound

/-! ## Growing -/

theorem chain_grow_of_lt (h : id < t.size) : (t.grow parent segment).chain id = t.chain id := by
  induction id using Nat.strong_induction_on with
  | h id ih =>
    have hgrown : (t.grow parent segment).parent? id = t.parent? id := parent?_grow_of_lt h
    have hproperty : (t.grow parent segment).property id = t.property id := property_grow_of_lt h
    rw [JoinTree.chain, JoinTree.chain]
    cases hp : t.parent? id with
    | none => rw [climb_of_root (hgrown.trans hp), climb_of_root hp]
    | some q =>
      rcases Nat.lt_or_ge q id with hlt | hle
      · rw [climb_of_lt (hgrown.trans hp) hlt, climb_of_lt hp hlt, climb_eq, climb_eq, hproperty,
          ih q hlt (Nat.lt_trans hlt h)]
      · rw [climb_of_le (hgrown.trans hp) hle, climb_of_le hp hle, hproperty]

theorem chain_grow_size (h : parent < t.size) :
    (t.grow parent segment).chain t.size = t.chain parent ++ [segment.name] := by
  rw [JoinTree.chain, climb_of_lt (parent?_grow_size h) h, climb_eq, chain_grow_of_lt h,
    property_grow_size h]

-- A new node brings the chain of its parent, prolonged by its property.
theorem chains_grow (h : parent < t.size) :
    (t.grow parent segment).chains = t.chains ++ [t.chain parent ++ [segment.name]] := by
  have hcount : (t.grow parent segment).joinCount = t.joinCount + 1 := by
    rw [joinCount, joinCount, size_grow]
    omega
  have hlast : t.joinCount + 1 = t.size := by
    rw [joinCount]
    omega
  rw [chains, hcount, List.range_succ, List.map_append, List.map_singleton, hlast,
    chain_grow_size h]
  congr 1
  refine List.map_congr_left fun i hi => chain_grow_of_lt ?_
  rw [List.mem_range] at hi
  omega

/-- A new node brings its join, and the others stay as they are. -/
theorem Sound.joins_grow (h : t.Sound) (hparent : parent < t.size)
    (hnew : t.child? parent segment.name = none) :
    (t.grow parent segment).joins =
      t.joins ++ [⟨t.aliasOf parent, segment.name, t.nextAlias, t.kind⟩] := by
  have hroot : (t.grow parent segment).rootAlias = t.rootAlias := aliasOf_grow_of_lt h.size_pos
  have hknown := h.mem_of_id? (h.id?_chain hparent)
  rw [(h.grow hparent hnew).joins_eq, hroot, stem_grow, h.kind_grow, chains_grow hparent,
    chainJoins_concat h.closed (by rwa [List.dropLast_concat]), List.dropLast_concat,
    List.getLast?_concat, Option.getD_some, h.joins_eq, h.aliasOf_eq hparent, h.nextAlias_eq]
  rfl

/-- A tree has grown by the chains that were used for the first time. -/
structure Reaches (t : JoinTree) (used : List (List String)) (u : JoinTree) : Prop where
  root : u.root = t.root
  rootAlias : u.rootAlias = t.rootAlias
  kind : u.kind = t.kind
  stem : u.stem = t.stem
  chains : u.chains = (t.chains ++ used).eraseDups

namespace Reaches

variable {used more : List (List String)}

theorem refl (h : ClosedChains t.chains) : t.Reaches [] t :=
  ⟨rfl, rfl, rfl, rfl, by rw [List.append_nil, eraseDups_of_nodup h.nodup]⟩

theorem trans (h : t.Reaches used u) (h' : u.Reaches more v) : t.Reaches (used ++ more) v := by
  refine ⟨h'.root.trans h.root, h'.rootAlias.trans h.rootAlias, h'.kind.trans h.kind,
    h'.stem.trans h.stem, ?_⟩
  rw [h'.chains, h.chains, eraseDups_eraseDups_append, List.append_assoc]

theorem mem_chains (h : t.Reaches used u) : chain ∈ u.chains ↔ chain ∈ t.chains ∨ chain ∈ used := by
  rw [h.chains, List.mem_eraseDups, List.mem_append]

-- Growing does not change the alias of a chain that is joined already.
theorem aliasAt (h : t.Reaches used u) (ht : ClosedChains t.chains)
    (hc : chain = [] ∨ chain ∈ t.chains) : u.aliasAt chain = t.aliasAt chain := by
  rw [JoinTree.aliasAt, JoinTree.aliasAt, h.rootAlias, h.stem, h.chains,
    eraseDups_append_eq ht.nodup, chainAlias_append hc]

theorem reference (h : t.Reaches used u) (ht : ClosedChains t.chains)
    (hc : chain = [] ∨ chain ∈ t.chains) (name : String) :
    u.reference chain name = t.reference chain name := by
  rw [JoinTree.reference, JoinTree.reference, h.aliasAt ht hc]

-- Growing keeps the joins and adds others behind them.
theorem joins_isPrefix (h : t.Reaches used u) (ht : t.Sound) (hu : u.Sound) :
    t.joins <+: u.joins := by
  rw [ht.joins_eq, hu.joins_eq, h.rootAlias, h.stem, h.kind, h.chains,
    eraseDups_append_eq ht.closed.nodup, chainJoins_append ht.closed]
  exact List.prefix_append _ _

-- Using a chain that is joined already changes nothing.
theorem known (ht : ClosedChains t.chains) (hc : chain ∈ t.chains) : t.Reaches [chain] t :=
  ⟨rfl, rfl, rfl, rfl, (eraseDups_concat_of_mem ht.nodup hc).symm⟩

-- Using a new chain adds its node.
theorem grow (ht : t.Sound) (hparent : parent < t.size)
    (hnew : t.chain parent ++ [segment.name] ∉ t.chains) :
    t.Reaches [t.chain parent ++ [segment.name]] (t.grow parent segment) := by
  refine ⟨property_grow_of_lt ht.size_pos, aliasOf_grow_of_lt ht.size_pos, ht.kind_grow, rfl, ?_⟩
  rw [chains_grow hparent, eraseDups_concat_of_notMem ht.closed.nodup hnew]

end Reaches

end PathQuery.JoinTree
