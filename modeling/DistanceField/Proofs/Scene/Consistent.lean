import DistanceField.Proofs.Scene.Forest

/-! # Consistent scenes: what holds of a forest in which nothing is loose -/

namespace DistanceField.Scene
open Relation (TransGen)

variable {scene : Scene} {id parent child : NodeId} {node : Node}

/-- The identifier that so many parent links lead to. -/
def climb (scene : Scene) : Nat → NodeId → Option NodeId
  | 0, id => some id
  | steps + 1, id => ((scene.node? id).bind Node.parent).bind (scene.climb steps)

/-- The arena, the counter and the links of a scene make up a tree below the root, and the nodes are
as their operators demand. -/
structure Consistent (scene : Scene) : Prop where
  id_eq : ∀ {index node}, scene.nodeAt? index = some node → node.id = ⟨scene.tag, index⟩
  live_eq : scene.live = scene.nodes.toList.countP Option.isSome
  root_live : ∃ node, scene.nodeAt? 0 = some node
  kind_iff : ∀ {index node}, scene.nodeAt? index = some node → (node.kind = .root ↔ index = 0)
  parent_iff : ∀ {index node}, scene.nodeAt? index = some node → (node.parent = none ↔ index = 0)
  length_inputs : ∀ {index node}, scene.nodeAt? index = some node →
    node.inputs.length = node.operator.inputs.length
  holds_iff : ∀ {parent slot child}, scene.Holds parent slot child ↔
    ∃ below, scene.node? child = some below ∧ below.parent = some parent ∧ below.slot = slot
  place_unique : ∀ {id}, scene.Live id → id ≠ scene.root →
    ∃! place : NodeId × Nat, scene.Holds place.1 place.2 id
  climb_root : ∀ {id}, scene.Live id → ∃ steps, scene.climb steps id = some scene.root
  child_type : ∀ {parent child above below} {slot : Nat}, scene.node? parent = some above →
    scene.node? child = some below → above.inputs[slot]? = some (.child child) →
      above.operator.inputs[slot]? = some below.operator.output
  literal_type : ∀ {id node} {slot : Nat} {literal : Literal}, scene.node? id = some node →
    node.inputs[slot]? = some (.literal literal) →
      node.operator.inputs[slot]? = some literal.type ∧ literal.isFinite
  validName : ∀ {id node}, scene.node? id = some node → id ≠ scene.root → validName node.name
  siblings : ∀ {parent slot place child other below beside}, scene.Holds parent slot child →
    scene.Holds parent place other → slot ≠ place → scene.node? child = some below →
      scene.node? other = some beside → below.name ≠ beside.name

namespace Forest

theorem holds_iff_links (h : scene.Forest []) {slot : Nat} : scene.Holds parent slot child ↔
    ∃ below, scene.node? child = some below ∧ below.parent = some parent ∧ below.slot = slot := by
  constructor
  · intro held
    obtain ⟨-, -, below, -, found, up, here, -⟩ := h.held held
    exact ⟨below, found, up, here⟩
  · rintro ⟨below, found, up, rfl⟩
    have notRoot : child ≠ scene.root := by
      intro root
      rw [(h.fits found).parent_iff.mpr root] at up
      cases up
    obtain ⟨parent', up', held⟩ := h.hung found notRoot (by simp)
    obtain rfl := Option.some.inj (up'.symm.trans up)
    exact held

theorem parentOf_iff_parent (h : scene.Forest []) :
    scene.ParentOf parent child ↔ (scene.node? child).bind Node.parent = some parent := by
  simp only [ParentOf, h.holds_iff_links, Option.bind_eq_some_iff]
  constructor
  · rintro ⟨slot, below, found, up, -⟩
    exact ⟨below, found, up⟩
  · rintro ⟨below, found, up⟩
    exact ⟨below.slot, below, found, up, rfl⟩

theorem reaches_iff_climb (h : scene.Forest []) :
    scene.Reaches parent id ↔ ∃ steps, scene.climb steps id = some parent := by
  constructor
  · intro path
    induction path with
    | refl => exact ⟨0, rfl⟩
    | @tail above below _ edge ih =>
      obtain ⟨steps, eq⟩ := ih
      exact ⟨steps + 1, by simp [climb, h.parentOf_iff_parent.mp edge, eq]⟩
  · rintro ⟨steps, eq⟩
    induction steps generalizing id with
    | zero =>
      cases eq
      exact .refl
    | succ steps ih =>
      obtain ⟨above, up, onward⟩ := Option.bind_eq_some_iff.mp eq
      exact (ih onward).tail (h.parentOf_iff_parent.mpr up)

theorem transGen_iff_climb (h : scene.Forest []) :
    TransGen scene.ParentOf parent id ↔ ∃ steps, scene.climb (steps + 1) id = some parent := by
  simp only [TransGen.tail'_iff, h.reaches_iff_climb, h.parentOf_iff_parent, climb,
    Option.bind_eq_some_iff]
  constructor
  · rintro ⟨above, ⟨steps, onward⟩, up⟩
    exact ⟨steps, above, up, onward⟩
  · rintro ⟨steps, above, up, onward⟩
    exact ⟨above, ⟨steps, onward⟩, up⟩

theorem climb_root (h : scene.Forest []) (live : scene.Live id) :
    ∃ steps, scene.climb steps id = some scene.root := by
  obtain ⟨top, isTop, path⟩ := h.anchored live
  obtain rfl : top = scene.root := by simpa using isTop
  exact h.reaches_iff_climb.mp path

theorem consistent (h : scene.Forest []) : scene.Consistent := by
  have root : ∀ {index : Nat}, (⟨scene.tag, index⟩ : NodeId) = scene.root ↔ index = 0 := by
    simp [Scene.root]
  have fits : ∀ {index node}, scene.nodeAt? index = some node →
      Fits scene.root ⟨scene.tag, index⟩ node := by
    intro index node found
    rw [nodeAt?_eq_node?] at found
    exact h.fits found
  refine
    { id_eq := fun found => (fits found).id_eq
      live_eq := ?_
      root_live := ?_
      kind_iff := fun found => (fits found).kind_iff.trans root
      parent_iff := fun found => (fits found).parent_iff.trans root
      length_inputs := fun found => (fits found).length_inputs
      holds_iff := h.holds_iff_links
      place_unique := ?_
      climb_root := h.climb_root
      child_type := ?_
      literal_type := fun found entry => (h.fits found).literal entry
      validName := fun found notRoot => (h.fits found).validName notRoot
      siblings := ?_ }
  · rw [← length_liveNodes]
    exact h.counted
  · obtain ⟨node, found⟩ := h.root_live
    exact ⟨node, by rw [nodeAt?_eq_node?]; exact found⟩
  · rintro id ⟨node, found⟩ notRoot
    obtain ⟨parent, -, held⟩ := h.hung found notRoot (by simp)
    refine ⟨(parent, node.slot), held, fun place held' => ?_⟩
    obtain ⟨up, here⟩ := h.holder_unique held' held
    exact Prod.ext up here
  · intro parent child above below slot found found' entry
    obtain ⟨-, above', below', was, was', -, -, suits⟩ := h.held ⟨above, found, entry⟩
    obtain rfl := Option.some.inj (found.symm.trans was)
    obtain rfl := Option.some.inj (found'.symm.trans was')
    exact suits
  · intro parent slot place child other below beside held held' ne found found' same
    refine ne (h.siblings held held' ?_)
    simp [name?, found, found', same]

end Forest

end DistanceField.Scene
