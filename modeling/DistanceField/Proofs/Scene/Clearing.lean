import DistanceField.Proofs.Scene.Checks
import DistanceField.Proofs.Scene.Walks

/-!
# Cleared inputs

Four of the six edits first clear an input: it is emptied, and what had hung there is destroyed. On
a forest this always succeeds and leaves a forest, and nothing else changes.
-/

namespace DistanceField.Scene

variable {scene other third : Scene} {loose : List NodeId} {id target child parent : NodeId}
  {slot place : Nat} {node : Node} {value : Slot} {branches : Branches}

/-- The scene with an empty input, and without what had hung there. -/
def cleared (scene : Scene) (id : NodeId) (slot : Nat) (branches : Branches) : Scene :=
  (scene.put id slot .empty).without branches.ids

@[simp] theorem tag_cleared : (scene.cleared id slot branches).tag = scene.tag := by simp [cleared]

@[simp] theorem root_cleared : (scene.cleared id slot branches).root = scene.root := by simp [root]

@[simp] theorem nextId_cleared : (scene.cleared id slot branches).nextId = scene.nextId := by
  simp [nextId, cleared]

theorem run_writeSlot (value : Slot) (found : scene.node? id = some node)
    (lt : slot < node.inputs.length) :
    (Edit.writeSlot id slot value).run scene = .ok () (scene.put id slot value) := by
  simp [Edit.writeSlot, node_eq_ok_iff.mpr found, lt, put, update, found]

theorem run_modifyNode {change : Node → Node} (found : scene.node? id = some node) :
    (Edit.modifyNode id change).run scene = .ok () (scene.update id change) := by
  simp [Edit.modifyNode, node_eq_ok_iff.mpr found, update, found]

theorem run_discard_child (found : scene.node? id = some node)
    (entry : node.inputs[slot]? = some (.child child)) : (Edit.discard id slot).run scene =
      (Edit.destroy child).run (scene.put id slot .empty) := by
  have lt : slot < node.inputs.length := (List.getElem?_eq_some_iff.mp entry).1
  simp only [Edit.discard, EStateM.run_bind, Edit.run_get, node_eq_ok_iff.mpr found,
    Edit.run_check_ok, run_writeSlot _ found lt, entry]

theorem run_discard (found : scene.node? id = some node) (entry : node.inputs[slot]? = some value)
    (noChild : ∀ child, value ≠ .child child) :
    (Edit.discard id slot).run scene = .ok () (scene.put id slot .empty) := by
  have lt : slot < node.inputs.length := (List.getElem?_eq_some_iff.mp entry).1
  simp only [Edit.discard, EStateM.run_bind, Edit.run_get, node_eq_ok_iff.mpr found,
    Edit.run_check_ok, run_writeSlot _ found lt, entry]
  cases value with
  | empty => rfl
  | literal => rfl
  | child child => exact absurd rfl (noChild child)

theorem Forest.notMem_ids (h : scene.Forest loose) (found : scene.node? id = some node)
    (entry : node.inputs[slot]? = some value) (unfolds : scene.Unfolds [value] branches) :
    id ∉ branches.ids := by
  rw [unfolds.mem_ids_iff]
  rintro ⟨child, mem, path⟩
  obtain rfl := List.mem_singleton.mp mem
  exact h.not_reaches_parent ⟨slot, node, found, entry⟩ path

theorem Forest.unfolds_put (h : scene.Forest loose) (found : scene.node? id = some node)
    (entry : node.inputs[slot]? = some value) (unfolds : scene.Unfolds [value] branches)
    (value' : Slot) : (scene.put id slot value').Unfolds [value] branches := by
  apply unfolds.congr
  intro other mem
  have ne : other ≠ id := fun eq => h.notMem_ids found entry unfolds (eq ▸ mem)
  rw [node?_put, if_neg ne]

theorem Forest.node?_cleared (h : scene.Forest loose) (found : scene.node? id = some node)
    (entry : node.inputs[slot]? = some value) (unfolds : scene.Unfolds [value] branches)
    (target : NodeId) : (scene.cleared id slot branches).node? target =
      if target ∈ branches.ids then none
      else if target = id then some { node with inputs := node.inputs.set slot .empty }
      else scene.node? target := by
  have tags : ∀ other ∈ branches.ids, other.tag = (scene.put id slot .empty).tag :=
    fun other mem => (h.unfolds_put found entry unfolds .empty).tag_of_mem mem
  rw [cleared, node?_without tags, node?_put, found, Option.map_some]

/-- Clearing an input of a forest succeeds and leaves a forest. -/
theorem Forest.clear (h : scene.Forest loose) (found : scene.node? id = some node)
    (entry : node.inputs[slot]? = some value) (unfolds : scene.Unfolds [value] branches) :
    (Edit.discard id slot).run scene = .ok () (scene.cleared id slot branches) ∧
      (scene.cleared id slot branches).Forest loose := by
  have lt : slot < node.inputs.length := (List.getElem?_eq_some_iff.mp entry).1
  have keep : (∀ child, value ≠ .child child) → (scene.put id slot .empty).Forest loose := by
    intro noChild
    refine h.fill found lt (fun child held => ?_) (by simp) (fun literal eq => by cases eq)
    rw [holds_iff found, entry] at held
    exact noChild child (Option.some.inj held)
  cases value with
  | empty =>
    obtain rfl : branches = .empty .nil := unfolds.unique (.empty .nil)
    exact ⟨run_discard found entry (by simp), keep (by simp)⟩
  | literal literal =>
    obtain rfl : branches = .literal literal .nil := unfolds.unique (.literal .nil)
    exact ⟨run_discard found entry (by simp), keep (by simp)⟩
  | child child =>
    have detached := h.detach ⟨node, found, entry⟩
    have unfolds' := h.unfolds_put found entry unfolds .empty
    rw [run_discard_child found entry]
    exact ⟨run_destroy unfolds' (detached.nodup_ids_slot unfolds') detached.counted,
      detached.prune unfolds'⟩

/-- Nodes and links of `scene` are those of `other`, or fewer. -/
structure Within (scene other : Scene) : Prop where
  tag : scene.tag = other.tag
  node : ∀ {id node}, scene.node? id = some node →
    ∃ inputs, other.node? id = some { node with inputs }
  holds : ∀ {parent slot child}, scene.Holds parent slot child → other.Holds parent slot child

namespace Within

theorem trans (h : scene.Within other) (h' : other.Within third) : scene.Within third where
  tag := h.tag.trans h'.tag
  node found := by
    obtain ⟨inputs, was⟩ := h.node found
    obtain ⟨inputs', was'⟩ := h'.node was
    exact ⟨inputs', was'⟩
  holds held := h'.holds (h.holds held)

theorem reaches (h : scene.Within other) (path : scene.Reaches parent child) :
    other.Reaches parent child := path.mono fun ⟨slot, held⟩ => ⟨slot, h.holds held⟩

theorem name? (h : scene.Within other) (live : scene.Live id) : scene.name? id = other.name? id := by
  obtain ⟨node, found⟩ := live
  obtain ⟨inputs, found'⟩ := h.node found
  simp [Scene.name?, found, found']

end Within

theorem within_put_empty (scene : Scene) (id : NodeId) (slot : Nat) :
    (scene.put id slot .empty).Within scene where
  tag := tag_put ..
  node found := exists_of_node?_put found
  holds held := (holds_of_put held).resolve_left (by simp)

theorem within_without {ids : List NodeId} (tags : ∀ id ∈ ids, id.tag = scene.tag) :
    (scene.without ids).Within scene := by
  have old : ∀ {id node}, (scene.without ids).node? id = some node → scene.node? id = some node := by
    intro id node found
    rw [node?_without tags] at found
    split at found
    · cases found
    · exact found
  exact ⟨tag_without .., fun found => ⟨_, old found⟩,
    fun ⟨node, found, entry⟩ => ⟨node, old found, entry⟩⟩

theorem Forest.within_cleared (h : scene.Forest loose) (found : scene.node? id = some node)
    (entry : node.inputs[slot]? = some value) (unfolds : scene.Unfolds [value] branches) :
    (scene.cleared id slot branches).Within scene :=
  (within_without fun _ mem => (h.unfolds_put found entry unfolds .empty).tag_of_mem mem).trans
    (within_put_empty scene id slot)

end DistanceField.Scene
