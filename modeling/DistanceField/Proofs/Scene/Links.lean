import DistanceField.Proofs.Scene.Arena
import Mathlib.Logic.Relation

/-!
# Links between nodes

The inputs of the nodes are the edges of a graph. Every write of an edit adds or removes few edges,
so it is known what can be reached afterwards.
-/

namespace DistanceField.Scene
open Relation (ReflTransGen TransGen)

variable {scene other : Scene} {id parent child top low : NodeId} {slot place : Nat} {value : Slot}
  {node : Node}

/-- A child hangs in an input of a node. -/
def Holds (scene : Scene) (parent : NodeId) (slot : Nat) (child : NodeId) : Prop :=
  ∃ node, scene.node? parent = some node ∧ node.inputs[slot]? = some (.child child)

def ParentOf (scene : Scene) (parent child : NodeId) : Prop := ∃ slot, scene.Holds parent slot child

/-- A node is another one or hangs somewhere below it. -/
abbrev Reaches (scene : Scene) : NodeId → NodeId → Prop := ReflTransGen scene.ParentOf

theorem Holds.parentOf (h : scene.Holds parent slot child) : scene.ParentOf parent child := ⟨slot, h⟩

theorem holds_iff (found : scene.node? parent = some node) :
    scene.Holds parent slot child ↔ node.inputs[slot]? = some (.child child) := by
  simp [Holds, found]

@[simp] theorem child?_eq_some_iff : value.child? = some child ↔ value = .child child := by
  cases value <;> simp [Slot.child?]

theorem mem_children {child : NodeId} :
    child ∈ node.children ↔ ∃ slot : Nat, node.inputs[slot]? = some (.child child) := by
  rw [← List.mem_iff_getElem?]
  simp [Node.children]

theorem parentOf_iff (found : scene.node? parent = some node) :
    scene.ParentOf parent child ↔ child ∈ node.children := by
  simp only [ParentOf, holds_iff found, mem_children]

theorem holds_congr (same : scene.node? parent = other.node? parent) :
    scene.Holds parent slot child ↔ other.Holds parent slot child := by rw [Holds, Holds, same]

theorem Reaches.mono (h : scene.Reaches top id)
    (kept : ∀ {parent child}, scene.ParentOf parent child → other.ParentOf parent child) :
    other.Reaches top id := ReflTransGen.mono (fun _ _ edge => kept edge) top id h

theorem holds_put_ne (ne : ¬ (parent = id ∧ place = slot)) :
    (scene.put id slot value).Holds parent place child ↔ scene.Holds parent place child := by
  rw [Holds, Holds, node?_put]
  by_cases eq : parent = id
  · have apart : slot ≠ place := fun same => ne ⟨eq, same.symm⟩
    simp only [eq, if_true]
    cases scene.node? id with
    | none => simp
    | some node => simp [List.getElem?_set_ne apart]
  · simp [eq]

theorem holds_put_self (found : scene.node? id = some node) (lt : slot < node.inputs.length) :
    (scene.put id slot value).Holds id slot child ↔ value = .child child := by
  have found' : (scene.put id slot value).node? id =
      some { node with inputs := node.inputs.set slot value } := by simp [node?_put, found]
  rw [holds_iff found']
  simp [List.getElem?_set_self lt]

/-- Whatever is written into an input, no other link arises than the one written. -/
theorem holds_of_put (h : (scene.put id slot value).Holds parent place child) :
    (parent = id ∧ value = .child child) ∨ scene.Holds parent place child := by
  obtain ⟨node, found, entry⟩ := h
  rw [node?_put] at found
  by_cases same : parent = id
  · rw [if_pos same] at found
    obtain ⟨old, was, rfl⟩ := Option.map_eq_some_iff.mp found
    rw [List.getElem?_set] at entry
    split at entry
    · split at entry
      · exact .inl ⟨same, Option.some.inj entry⟩
      · cases entry
    · exact .inr ⟨old, same ▸ was, entry⟩
  · rw [if_neg same] at found
    exact .inr ⟨node, found, entry⟩

theorem not_holds_emptied
    (found : scene.node? id = some { node with inputs := node.inputs.set slot .empty }) :
    ¬ scene.Holds id slot child := by
  rw [holds_iff found]
  simp [List.getElem?_set]

theorem holds_put_iff (found : scene.node? id = some node) (lt : slot < node.inputs.length) :
    (scene.put id slot value).Holds parent place child ↔
      if parent = id ∧ place = slot then value = .child child
      else scene.Holds parent place child := by
  by_cases here : parent = id ∧ place = slot
  · rw [if_pos here, here.1, here.2, holds_put_self found lt]
  · rw [if_neg here, holds_put_ne here]

theorem holds_update {change : Node → Node} (found : scene.node? id = some node)
    (inputs : (change node).inputs = node.inputs) :
    (scene.update id change).Holds parent place child ↔ scene.Holds parent place child := by
  rw [Holds, Holds, node?_update]
  by_cases same : parent = id
  · simp [same, found, inputs]
  · simp [same]

/-- If an input is emptied, what was reached still is, or it is below the child that hung there. -/
theorem reaches_put_empty (held : scene.Holds parent slot child) (h : scene.Reaches top id) :
    (scene.put parent slot .empty).Reaches top id ∨
      (scene.put parent slot .empty).Reaches child id := by
  induction h with
  | refl => exact .inl .refl
  | @tail a b _ edge ih =>
    obtain ⟨place, here⟩ := edge
    by_cases gone : a = parent ∧ place = slot
    · obtain ⟨rfl, rfl⟩ := gone
      obtain ⟨node, found, entry⟩ := held
      rw [holds_iff found, entry] at here
      cases here
      exact .inr .refl
    · have kept : (scene.put parent slot .empty).ParentOf a b :=
        ((holds_put_ne gone).mpr here).parentOf
      exact ih.imp (fun up => up.tail kept) (fun up => up.tail kept)

/-- Erasing all that is below a node leaves the ways to all other nodes. -/
theorem reaches_of_erased (gone : ∀ id, ¬ scene.Reaches low id → other.node? id = scene.node? id)
    (h : scene.Reaches top id) (apart : ¬ scene.Reaches low id) : other.Reaches top id := by
  induction h with
  | refl => exact .refl
  | @tail a b _ edge ih =>
    have apart' : ¬ scene.Reaches low a := fun up => apart (up.tail edge)
    obtain ⟨place, here⟩ := edge
    exact (ih apart').tail ((holds_congr (gone a apart')).mpr here).parentOf

end DistanceField.Scene
