import PathQuery.JoinTree
import PathQuery.Proofs.Alias

/-!
# Links between the nodes of join trees

Nodes are linked twice: a node remembers its parent, and its parent remembers it among its children.
A tree is sound when both links agree, parents stand before their nodes, and aliases and the counter
follow the places of the nodes. A tree that begins with its root stays sound as it grows.
-/

namespace PathQuery

/-! ## Children by name -/

namespace JoinNode

variable {n : JoinNode} {name other : String} {id : Nat}

theorem child?_adopt :
    (n.adopt name id).child? other = if other = name then some id else n.child? other := by
  unfold child? adopt
  split
  next h => rw [h, Fields.get?_insert_self]
  next h => exact Fields.get?_insert_of_ne id n.children h

end JoinNode

namespace JoinTree

variable {t : JoinTree} {id parent : Nat} {name : String} {segment : Segment}

/-! ## Nodes of a grown tree -/

theorem node_of_size_le (h : t.size ≤ id) : t.node id = default := by
  unfold node
  rw [List.getD_eq_getElem?_getD, List.getElem?_eq_none h, Option.getD_none]

theorem getElem?_nodes (h : id < t.size) : t.nodes[id]? = some (t.node id) := by
  rw [node, List.getD_eq_getElem?_getD, List.getElem?_eq_getElem h, Option.getD_some]

-- Only nodes that are there have a parent.
theorem lt_size_of_parent? (h : t.parent? id = some parent) : id < t.size := by
  refine Nat.lt_of_not_le fun hle => ?_
  rw [parent?, node_of_size_le hle] at h
  cases h

@[simp]
theorem size_grow : (t.grow parent segment).size = t.size + 1 := by
  simp [grow, size]

@[simp]
theorem stem_grow : (t.grow parent segment).stem = t.stem :=
  rfl

@[simp]
theorem next_grow : (t.grow parent segment).next = t.next + 1 :=
  rfl

-- A node stays as it is, unless it is the parent of the new one.
theorem node_grow_of_lt (h : id < t.size) :
    (t.grow parent segment).node id =
      if id = parent then (t.node id).adopt segment.name t.size else t.node id := by
  rw [node, grow, List.getD_eq_getElem?_getD, List.getElem?_modify, List.getElem?_append_left h,
    getElem?_nodes h, Option.map_eq_map, Option.map_some, Option.getD_some]
  simp only [eq_comm]

theorem node_grow_size (hparent : parent < t.size) :
    (t.grow parent segment).node t.size =
      ⟨segment.name, segment.declared, t.kind, t.nextAlias, some parent, []⟩ := by
  rw [node, grow, List.getD_eq_getElem?_getD, List.getElem?_modify, size,
    List.getElem?_concat_length, Option.map_eq_map, Option.map_some, Option.getD_some]
  exact if_neg (Nat.ne_of_lt hparent)

section Frame

variable (h : id < t.size)

include h

theorem parent?_grow_of_lt : (t.grow parent segment).parent? id = t.parent? id := by
  rw [parent?, node_grow_of_lt h]
  split <;> rfl

theorem property_grow_of_lt : (t.grow parent segment).property id = t.property id := by
  rw [property, node_grow_of_lt h]
  split <;> rfl

theorem aliasOf_grow_of_lt : (t.grow parent segment).aliasOf id = t.aliasOf id := by
  rw [aliasOf, node_grow_of_lt h]
  split <;> rfl

theorem kind_node_grow_of_lt : ((t.grow parent segment).node id).kind = (t.node id).kind := by
  rw [node_grow_of_lt h]
  split <;> rfl

end Frame

section New

variable (h : parent < t.size)

include h

theorem parent?_grow_size : (t.grow parent segment).parent? t.size = some parent := by
  rw [parent?, node_grow_size h]

theorem property_grow_size : (t.grow parent segment).property t.size = segment.name := by
  rw [property, node_grow_size h]

theorem aliasOf_grow_size : (t.grow parent segment).aliasOf t.size = t.nextAlias := by
  rw [aliasOf, node_grow_size h]

end New

-- The parent gets to know the new node, which has no children yet.
theorem child?_grow (hparent : parent < t.size) (id : Nat) (name : String) :
    (t.grow parent segment).child? id name =
      if id = parent ∧ name = segment.name then some t.size else t.child? id name := by
  rw [child?, child?]
  rcases Nat.lt_trichotomy id t.size with hlt | rfl | hgt
  · rw [node_grow_of_lt hlt]
    by_cases hid : id = parent
    · rw [if_pos hid, JoinNode.child?_adopt]
      simp only [hid, true_and]
    · rw [if_neg hid, if_neg fun h => hid h.1]
  · rw [node_grow_size hparent, node_of_size_le (Nat.le_refl _),
      if_neg fun h => Nat.ne_of_gt hparent h.1]
    rfl
  · have hgrown : (t.grow parent segment).size ≤ id := by
      rw [size_grow]
      exact hgt
    rw [node_of_size_le hgrown, node_of_size_le (Nat.le_of_lt hgt),
      if_neg fun h => Nat.ne_of_gt (Nat.lt_trans hparent hgt) h.1]

/-! ## Sound trees -/

/-- Node zero has no parent. Every other node has an earlier one, which knows it by its property and
knows no other nodes; the number of a node is in its alias, and its kind is that of the root. The
counter has the number of the next node. -/
structure Sound (t : JoinTree) : Prop where
  size_pos : 0 < t.size
  root : t.parent? 0 = none
  parent : ∀ id, 0 < id → id < t.size → ∃ parent < id, t.parent? id = some parent
  child : ∀ parent name id,
    t.child? parent name = some id ↔ t.parent? id = some parent ∧ t.property id = name
  ownAlias : ∀ id, 0 < id → id < t.size → t.aliasOf id = generatedAlias t.stem id
  kind : ∀ id < t.size, (t.node id).kind = t.kind
  next : t.next = t.size

theorem sound_start (root rootAlias stem : String) (kind : JoinKind) :
    (start root rootAlias stem kind).Sound := by
  have hone : (start root rootAlias stem kind).size = 1 := rfl
  have hnode : ∀ id, (start root rootAlias stem kind).parent? id = none := by
    intro id
    cases id with
    | zero => rfl
    | succ id => rfl
  refine ⟨Nat.one_pos, rfl, fun id hpos hid => ?_, fun parent name id => ?_,
    fun id hpos hid => ?_, fun id hid => ?_, rfl⟩
  · omega
  · rw [hnode id]
    refine iff_of_false ?_ nofun
    cases parent <;> exact nofun
  · omega
  · obtain rfl : id = 0 := by omega
    rfl

namespace Sound

theorem parent?_lt (h : t.Sound) (hp : t.parent? id = some parent) : parent < id := by
  have hpos : 0 < id := by
    rcases Nat.eq_zero_or_pos id with rfl | hpos
    · rw [h.root] at hp
      cases hp
    · exact hpos
  obtain ⟨earlier, hlt, hearlier⟩ := h.parent id hpos (lt_size_of_parent? hp)
  cases hp.symm.trans hearlier
  exact hlt

theorem nextAlias (h : t.Sound) : t.nextAlias = generatedAlias t.stem t.size := by
  rw [JoinTree.nextAlias, h.next]
  rfl

-- The root has no other kind than before.
theorem kind_grow (h : t.Sound) : (t.grow parent segment).kind = t.kind :=
  kind_node_grow_of_lt h.size_pos

/-- The links of a grown tree are the old ones and those between the new node and its parent, which
did not know the relationship. -/
theorem child_grow (h : t.Sound) (hparent : parent < t.size)
    (hnew : t.child? parent segment.name = none) (q : Nat) (name : String) (id : Nat) :
    (t.grow parent segment).child? q name = some id ↔
      (t.grow parent segment).parent? id = some q ∧
        (t.grow parent segment).property id = name := by
  have hold : t.child? q name = some id → id < t.size :=
    fun heq => lt_size_of_parent? ((h.child q name id).1 heq).1
  rw [child?_grow hparent]
  rcases Nat.lt_trichotomy id t.size with hlt | rfl | hgt
  · -- an old node
    rw [parent?_grow_of_lt hlt, property_grow_of_lt hlt, ← h.child]
    split
    next hboth =>
      rw [hboth.1, hboth.2, hnew]
      exact iff_of_false (fun heq => Nat.ne_of_gt hlt (Option.some.inj heq)) nofun
    next => rfl
  · -- the new node
    rw [parent?_grow_size hparent, property_grow_size hparent, Option.some.injEq]
    split
    next hboth => exact iff_of_true rfl ⟨hboth.1.symm, hboth.2.symm⟩
    next hother =>
      exact iff_of_false (fun heq => Nat.lt_irrefl _ (hold heq))
        fun hboth => hother ⟨hboth.1.symm, hboth.2.symm⟩
  · -- no node at all
    have hgrown : (t.grow parent segment).size ≤ id := by
      rw [size_grow]
      exact hgt
    refine iff_of_false ?_ fun hp => Nat.not_lt.2 hgrown (lt_size_of_parent? hp.1)
    split
    next => exact fun heq => Nat.ne_of_lt hgt (Option.some.inj heq)
    next => exact fun heq => Nat.lt_asymm hgt (hold heq)

/-- A tree stays sound when a relationship that a node does not know is joined to it. -/
theorem grow (h : t.Sound) (hparent : parent < t.size)
    (hnew : t.child? parent segment.name = none) : (t.grow parent segment).Sound := by
  have hcases : ∀ {id}, id < (t.grow parent segment).size → id < t.size ∨ id = t.size := by
    intro id hid
    rw [size_grow] at hid
    omega
  refine ⟨?_, ?_, fun id hpos hid => ?_, h.child_grow hparent hnew, fun id hpos hid => ?_,
    fun id hid => ?_, ?_⟩
  · rw [size_grow]
    exact Nat.succ_pos _
  · rw [parent?_grow_of_lt h.size_pos, h.root]
  · rcases hcases hid with hlt | rfl
    · rw [parent?_grow_of_lt hlt]
      exact h.parent id hpos hlt
    · exact ⟨parent, hparent, parent?_grow_size hparent⟩
  · rcases hcases hid with hlt | rfl
    · rw [aliasOf_grow_of_lt hlt, stem_grow]
      exact h.ownAlias id hpos hlt
    · rw [aliasOf_grow_size hparent, stem_grow, h.nextAlias]
  · rw [h.kind_grow]
    rcases hcases hid with hlt | rfl
    · rw [kind_node_grow_of_lt hlt, h.kind id hlt]
    · rw [node_grow_size hparent]
  · rw [next_grow, size_grow, h.next]

end Sound

/-! ## Joins of the nodes -/

/-- The joins that the nodes behind the root stand for, in their order. -/
def joins (t : JoinTree) : List Join :=
  t.nodes.tail.map fun n => ⟨(n.parent.map t.aliasOf).getD "", n.property, n.ownAlias, n.kind⟩

theorem length_joins (t : JoinTree) : t.joins.length = t.joinCount := by
  rw [joins, List.length_map, List.length_tail]
  rfl

theorem getElem?_joins {i : Nat} (h : t.parent? (i + 1) = some parent) :
    t.joins[i]? = some ⟨t.aliasOf parent, t.property (i + 1), t.aliasOf (i + 1),
      (t.node (i + 1)).kind⟩ := by
  rw [joins, List.getElem?_map, List.getElem?_tail, getElem?_nodes (lt_size_of_parent? h),
    Option.map_some]
  have hp : (t.node (i + 1)).parent = some parent := h
  rw [hp]
  rfl

end JoinTree

end PathQuery
