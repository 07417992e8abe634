import DistanceField.Proofs.Scene.Forest

/-!
# Scenes as trees

What hangs in a list of inputs is unfolded into a tree, which is plain data: walks over a scene are
recursions on it. In a forest every list of inputs unfolds in exactly one way, and no node occurs
twice.
-/

namespace DistanceField

/-- The contents of some inputs in their order, with all that hangs below. -/
inductive Branches where
  | nil
  | empty (rest : Branches)
  | literal (value : Literal) (rest : Branches)
  | child (node : Node) (below rest : Branches)

namespace Branches

/-- The nodes of a tree, each before those below it. -/
def nodes : Branches → List Node
  | nil => []
  | empty rest => rest.nodes
  | literal _ rest => rest.nodes
  | child node below rest => node :: (below.nodes ++ rest.nodes)

def ids (branches : Branches) : List NodeId := branches.nodes.map Node.id

@[simp] theorem ids_nil : nil.ids = [] := rfl

@[simp] theorem ids_empty (rest : Branches) : (empty rest).ids = rest.ids := rfl

@[simp] theorem ids_literal (value : Literal) (rest : Branches) :
    (literal value rest).ids = rest.ids := rfl

@[simp] theorem ids_child (node : Node) (below rest : Branches) :
    (child node below rest).ids = node.id :: (below.ids ++ rest.ids) := by simp [ids, nodes]

end Branches

namespace Scene
open Relation (ReflTransGen TransGen)

/-- A list of inputs unfolds to a tree. -/
inductive Unfolds (scene : Scene) : List Slot → Branches → Prop where
  | nil : Unfolds scene [] .nil
  | empty {slots rest} : Unfolds scene slots rest → Unfolds scene (.empty :: slots) (.empty rest)
  | literal {value slots rest} :
      Unfolds scene slots rest → Unfolds scene (.literal value :: slots) (.literal value rest)
  | child {node slots below rest} (found : scene.node? node.id = some node) :
      Unfolds scene node.inputs below → Unfolds scene slots rest →
      Unfolds scene (.child node.id :: slots) (.child node below rest)

variable {scene other : Scene} {loose : List NodeId} {id top parent : NodeId} {slot : Nat}
  {node : Node} {value : Slot} {slots : List Slot} {branches rest : Branches}

namespace Unfolds

theorem unique {branches branches' : Branches} (h : scene.Unfolds slots branches)
    (h' : scene.Unfolds slots branches') : branches = branches' := by
  induction h generalizing branches' with
  | nil => cases h'; rfl
  | empty _ ih => cases h' with | empty h' => rw [ih h']
  | literal _ ih => cases h' with | literal h' => rw [ih h']
  | child found _ _ ihBelow ihRest =>
    generalize eq : Slot.child _ :: _ = all at h'
    cases h' with
    | child found' below' rest' =>
      simp only [List.cons.injEq, Slot.child.injEq] at eq
      obtain ⟨same, rfl⟩ := eq
      obtain rfl := Option.some.inj (found.symm.trans (same ▸ found'))
      rw [ihBelow below', ihRest rest']
    | _ => simp at eq

/-- Only the nodes that occur in a tree matter for it. -/
theorem congr (h : scene.Unfolds slots branches)
    (same : ∀ id ∈ branches.ids, other.node? id = scene.node? id) :
    other.Unfolds slots branches := by
  induction h with
  | nil => exact .nil
  | empty _ ih => exact .empty (ih same)
  | literal _ ih => exact .literal (ih same)
  | child found _ _ ihBelow ihRest =>
    simp only [Branches.ids_child, List.mem_cons, List.mem_append] at same
    refine .child ((same _ (.inl rfl)).trans found) (ihBelow ?_) (ihRest ?_)
    · exact fun id mem => same id (.inr (.inl mem))
    · exact fun id mem => same id (.inr (.inr mem))

theorem found_of_mem (h : scene.Unfolds slots branches) (mem : node ∈ branches.nodes) :
    scene.node? node.id = some node := by
  induction h with
  | nil => simp [Branches.nodes] at mem
  | empty _ ih => exact ih mem
  | literal _ ih => exact ih mem
  | child found _ _ ihBelow ihRest =>
    simp only [Branches.nodes, List.mem_cons, List.mem_append] at mem
    rcases mem with rfl | mem | mem
    · exact found
    · exact ihBelow mem
    · exact ihRest mem

theorem live_of_mem (h : scene.Unfolds slots branches) (mem : id ∈ branches.ids) :
    scene.Live id := by
  obtain ⟨node, here, rfl⟩ := List.mem_map.mp mem
  exact ⟨node, h.found_of_mem here⟩

theorem tag_of_mem (h : scene.Unfolds slots branches) (mem : id ∈ branches.ids) :
    id.tag = scene.tag := by
  obtain ⟨node, found⟩ := h.live_of_mem mem
  exact (node?_eq_some_iff.mp found).1

theorem mem_ids_iff (h : scene.Unfolds slots branches) :
    id ∈ branches.ids ↔ ∃ top, Slot.child top ∈ slots ∧ scene.Reaches top id := by
  induction h generalizing id with
  | nil => simp
  | empty _ ih => simp [ih]
  | literal _ ih => simp [ih]
  | @child node slots below rest found _ _ ihBelow ihRest =>
    have down : (∃ top, Slot.child top ∈ node.inputs ∧ scene.Reaches top id) ↔
        TransGen scene.ParentOf node.id id := by
      rw [TransGen.head'_iff]
      simp only [parentOf_iff found, mem_children, ← List.mem_iff_getElem?]
    have self : scene.Reaches node.id id ↔ id = node.id ∨ TransGen scene.ParentOf node.id id :=
      Relation.reflTransGen_iff_eq_or_transGen
    simp only [Branches.ids_child, List.mem_cons, List.mem_append, ihBelow, ihRest, down,
      Slot.child.injEq, or_and_right, exists_or, exists_eq_left, self, or_assoc]

/-- In what hangs in the inputs of a node occurs what is below the node. -/
theorem mem_ids_iff_below (h : scene.Unfolds node.inputs branches)
    (found : scene.node? parent = some node) :
    id ∈ branches.ids ↔ TransGen scene.ParentOf parent id := by
  rw [h.mem_ids_iff, TransGen.head'_iff]
  simp only [parentOf_iff found, mem_children, ← List.mem_iff_getElem?]

end Unfolds

theorem exists_unfolds_of_children
    (each : ∀ child, Slot.child child ∈ slots → ∃ node, node.id = child ∧
      scene.node? child = some node ∧ ∃ below, scene.Unfolds node.inputs below) :
    ∃ branches, scene.Unfolds slots branches := by
  induction slots with
  | nil => exact ⟨.nil, .nil⟩
  | cons value slots ih =>
    obtain ⟨rest, unfolds⟩ := ih fun child mem => each child (List.mem_cons_of_mem _ mem)
    cases value with
    | empty => exact ⟨_, .empty unfolds⟩
    | literal value => exact ⟨_, .literal unfolds⟩
    | child child =>
      obtain ⟨node, rfl, found, below, unfolds'⟩ := each child List.mem_cons_self
      exact ⟨_, .child found unfolds' unfolds⟩

namespace Forest

theorem exists_unfolds (h : scene.Forest loose) (found : scene.node? id = some node) :
    ∃ below, scene.Unfolds node.inputs below := by
  induction id using h.wellFounded.induction generalizing node with
  | _ id ih =>
    apply exists_unfolds_of_children
    intro child mem
    obtain ⟨slot, entry⟩ := List.mem_iff_getElem?.mp mem
    have held : scene.Holds id slot child := ⟨node, found, entry⟩
    obtain ⟨node', found'⟩ := h.live_of_holds held
    exact ⟨node', (h.fits found').id_eq, found', ih child held.parentOf found'⟩

theorem exists_unfolds_slot (h : scene.Forest loose) (found : scene.node? id = some node)
    (entry : node.inputs[slot]? = some value) : ∃ branches, scene.Unfolds [value] branches := by
  apply exists_unfolds_of_children
  intro child mem
  obtain rfl := List.mem_singleton.mp mem
  obtain ⟨node', found'⟩ := h.live_of_holds ⟨node, found, entry⟩
  exact ⟨node', (h.fits found').id_eq, found', h.exists_unfolds found'⟩

/-- No node occurs twice in a tree whose topmost nodes have nothing below them in common. -/
theorem nodup_ids (h : scene.Forest loose) (unfolds : scene.Unfolds slots branches)
    (disjoint : slots.Pairwise fun value value' => ∀ {top top' id}, value = .child top →
      value' = .child top' → scene.Reaches top id → ¬ scene.Reaches top' id) :
    branches.ids.Nodup := by
  induction unfolds with
  | nil => simp
  | empty _ ih => exact ih (List.pairwise_cons.mp disjoint).2
  | literal _ ih => exact ih (List.pairwise_cons.mp disjoint).2
  | @child node slots below rest found unfoldsBelow unfoldsRest ihBelow ihRest =>
    obtain ⟨apart, disjoint⟩ := List.pairwise_cons.mp disjoint
    have down : ∀ {id}, id ∈ below.ids → TransGen scene.ParentOf node.id id :=
      (unfoldsBelow.mem_ids_iff_below found).mp
    have up : ∀ {id}, id ∈ rest.ids → ¬ scene.Reaches node.id id := by
      intro id mem path
      obtain ⟨top, mem, path'⟩ := unfoldsRest.mem_ids_iff.mp mem
      exact apart _ mem rfl rfl path path'
    rw [Branches.ids_child, List.nodup_cons, List.nodup_append]
    refine ⟨?_, ihBelow ?_, ihRest disjoint, ?_⟩
    · rw [List.mem_append]
      rintro (mem | mem)
      · exact h.acyclic _ (down mem)
      · exact up mem .refl
    · rw [List.pairwise_iff_getElem]
      intro i j hi hj lt top top' id eq eq'
      have held : scene.Holds node.id i top :=
        (holds_iff found).mpr (List.getElem?_eq_some_iff.mpr ⟨hi, eq⟩)
      have held' : scene.Holds node.id j top' :=
        (holds_iff found).mpr (List.getElem?_eq_some_iff.mpr ⟨hj, eq'⟩)
      exact h.disjoint_below held held' lt.ne
    · rintro id mem _ mem' rfl
      exact up mem' (down mem).to_reflTransGen

/-- What hangs in the inputs of a node makes up a tree together with it. -/
theorem unfolds_self (h : scene.Forest loose) (found : scene.node? id = some node)
    (unfolds : scene.Unfolds node.inputs branches) :
    scene.Unfolds [.child node.id] (.child node branches .nil) :=
  .child ((h.fits found).id_eq.symm ▸ found) unfolds .nil

theorem nodup_ids_slot (h : scene.Forest loose) (unfolds : scene.Unfolds [value] branches) :
    branches.ids.Nodup := h.nodup_ids unfolds (List.pairwise_singleton ..)

end Forest

theorem Unfolds.length_ids_le (h : scene.Unfolds slots branches) : branches.ids.length ≤
    slots.length + (branches.nodes.flatMap Node.inputs).length := by
  induction h with
  | nil => simp
  | empty _ ih =>
    simp only [Branches.ids_empty, Branches.nodes, List.length_cons]
    omega
  | literal _ ih =>
    simp only [Branches.ids_literal, Branches.nodes, List.length_cons]
    omega
  | child _ _ _ ihBelow ihRest =>
    simp only [Branches.ids_child, Branches.nodes, List.flatMap_cons, List.flatMap_append,
      List.length_cons, List.length_append] at *
    omega

theorem Unfolds.subperm (h : scene.Unfolds slots branches) (nodup : branches.ids.Nodup) :
    branches.nodes.Subperm scene.liveNodes := by
  apply List.subperm_of_subset (List.Nodup.of_map _ nodup)
  intro node mem
  obtain ⟨tag, entry⟩ := node?_eq_some_iff.mp (h.found_of_mem mem)
  exact mem_liveNodes.mpr ⟨node.id.index, by simp [nodeAt?, entry]⟩

end Scene

end DistanceField
