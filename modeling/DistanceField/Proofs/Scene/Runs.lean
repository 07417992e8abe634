import DistanceField.Proofs.Scene.Consistent
import DistanceField.Proofs.Scene.Move

/-!
# Runs of edits

Every scene that any edits of a new scene lead to is a tree whose links fit together, and an edit of
such a scene that fails has changed nothing.
-/

namespace DistanceField

inductive Command where
  | attach (name : String) (operator : Operator) (parent : NodeId) (slot : Nat)
  | move (id target : NodeId) (slot : Nat)
  | delete (id : NodeId)
  | setLiteral (id : NodeId) (slot : Nat) (literal : Literal)
  | clear (id : NodeId) (slot : Nat)
  | rename (id : NodeId) (name : String)

namespace Command

def edit : Command → Edit Unit
  | attach name operator parent slot => do
    let _ ← Edit.attach name operator parent slot
  | move id target slot => Edit.move id target slot
  | delete id => Edit.delete id
  | setLiteral id slot literal => Edit.setLiteral id slot literal
  | clear id slot => Edit.clear id slot
  | rename id name => Edit.rename id name

/-- The scene after a command, whether the edit went through or failed. -/
def after (command : Command) (scene : Scene) : Scene :=
  match command.edit.run scene with
  | .ok _ after => after
  | .error _ after => after

/-- Operators exist only as the scene root's own and as those that passed the check. -/
def Allowed : Command → Prop
  | attach _ operator _ _ => operator.Accepted ∨ operator = .sceneRoot
  | _ => True

end Command

namespace Scene
open Relation (ReflTransGen)

variable {scene : Scene} {id parent child : NodeId} {slot : Nat} {node : Node} {command : Command}

/-- Commands lead from a new scene to this one. -/
inductive Reachable : Scene → Prop
  | new (tag : Nat) : Reachable (Scene.new tag)
  | step {scene : Scene} {command : Command} :
    Reachable scene → command.Allowed → Reachable (command.after scene)

/-- No input takes what the operator of the scene root yields. -/
theorem Forest.not_takes_root (h : scene.Forest []) (takes : scene.Takes parent slot .root) :
    False := by
  obtain ⟨node, found, entry⟩ := takes
  have mem : ValueType.root ∈ node.operator.inputs := List.mem_of_getElem? entry
  by_cases root : parent = scene.root
  · rw [(h.fits found).operator_root root] at mem
    simp [Operator.sceneRoot] at mem
  · exact ((h.fits found).accepted root).checked.root_notMem_inputs mem

theorem Forest.exists_above (h : scene.Forest []) (found : scene.node? id = some node)
    (notRoot : id ≠ scene.root) : ∃ parent above, node.parent = some parent ∧
      scene.node? parent = some above ∧ above.inputs[node.slot]? = some (.child id) := by
  obtain ⟨parent, up, above, foundAbove, entry⟩ := h.hung found notRoot (by simp)
  exact ⟨parent, above, up, foundAbove, entry⟩

theorem Forest.attach_outcome (h : scene.Forest []) (name : String) (operator : Operator)
    (parent : NodeId) (slot : Nat) : Refused scene (Edit.attach name operator parent slot) ∨
      ∃ new after, (Edit.attach name operator parent slot).run scene = .ok new after ∧
        (operator.Accepted ∨ operator = .sceneRoot → after.Forest []) := by
  rcases h.attach_cases with refused | ⟨valid, ⟨node, found, takes⟩, unused⟩
  · exact .inl refused
  obtain ⟨value, branches, entry, unfolds⟩ := h.exists_site found takes
  refine .inr ⟨_, _, h.run_attach valid found takes unused entry unfolds, ?_⟩
  rintro (accepted | rfl)
  · exact h.attached accepted valid found takes unused entry unfolds
  · exact (h.not_takes_root ⟨node, found, takes⟩).elim

theorem Forest.move_outcome (h : scene.Forest []) (id target : NodeId) (slot : Nat) :
    Refused scene (Edit.move id target slot) ∨
      ∃ after, (Edit.move id target slot).run scene = .ok () after ∧ after.Forest [] := by
  rcases h.move_cases with refused | ⟨-, same⟩ | ⟨node, movable⟩
  · exact .inl refused
  · exact .inr ⟨scene, same, h⟩
  obtain ⟨parent, above, up, foundAbove, entry⟩ := h.exists_above movable.found movable.notRoot
  obtain ⟨goal, found, takes⟩ := movable.takes
  obtain ⟨inputs, foundGoal⟩ := exists_node?_put parent node.slot .empty found
  have detached := h.detach ⟨above, foundAbove, entry⟩
  obtain ⟨value, branches, entryGoal, unfolds⟩ := detached.exists_site foundGoal takes
  exact .inr ⟨_, h.run_move movable up foundAbove entry foundGoal entryGoal unfolds,
    h.moved movable foundAbove entry foundGoal entryGoal unfolds⟩

theorem Forest.delete_outcome (h : scene.Forest []) (id : NodeId) :
    Refused scene (Edit.delete id) ∨
      ∃ after, (Edit.delete id).run scene = .ok () after ∧ after.Forest [] := by
  rcases h.delete_cases with refused | ⟨⟨node, found⟩, notRoot⟩
  · exact .inl refused
  obtain ⟨parent, above, up, foundAbove, entry⟩ := h.exists_above found notRoot
  obtain ⟨branches, unfolds⟩ := h.exists_unfolds_slot foundAbove entry
  exact .inr ⟨_, h.run_delete found notRoot up foundAbove entry unfolds,
    (h.clear foundAbove entry unfolds).2⟩

theorem Forest.setLiteral_outcome (h : scene.Forest []) (id : NodeId) (slot : Nat)
    (literal : Literal) : Refused scene (Edit.setLiteral id slot literal) ∨
      ∃ after, (Edit.setLiteral id slot literal).run scene = .ok () after ∧ after.Forest [] := by
  rcases setLiteral_cases with refused | ⟨⟨node, found, takes⟩, finite⟩
  · exact .inl refused
  obtain ⟨value, branches, entry, unfolds⟩ := h.exists_site found takes
  exact .inr ⟨_, h.run_setLiteral found takes finite entry unfolds,
    h.setLiteral found takes finite entry unfolds⟩

theorem Forest.clear_outcome (h : scene.Forest []) (id : NodeId) (slot : Nat) :
    Refused scene (Edit.clear id slot) ∨
      ∃ after, (Edit.clear id slot).run scene = .ok () after ∧ after.Forest [] := by
  rcases clear_cases with refused | ⟨node, found, lt⟩
  · exact .inl refused
  have entry := List.getElem?_eq_getElem lt
  obtain ⟨branches, unfolds⟩ := h.exists_unfolds_slot found entry
  exact .inr ⟨_, h.run_clear found entry unfolds, (h.clear found entry unfolds).2⟩

theorem Forest.rename_outcome (h : scene.Forest []) (id : NodeId) (name : String) :
    Refused scene (Edit.rename id name) ∨
      ∃ after, (Edit.rename id name).run scene = .ok () after ∧ after.Forest [] := by
  rcases rename_cases with refused | ⟨valid, node, found, unused⟩
  · exact .inl refused
  · exact .inr ⟨_, run_rename valid found unused, h.rename valid found unused⟩

/-- A command is refused by a check, or it goes through and leaves a tree. -/
theorem Forest.command_outcome (h : scene.Forest []) (command : Command) :
    Refused scene command.edit ∨
      ∃ after, command.edit.run scene = .ok () after ∧ (command.Allowed → after.Forest []) := by
  have always : ∀ {edit : Edit Unit} {allowed : Prop}, (Refused scene edit ∨
      ∃ after, edit.run scene = .ok () after ∧ after.Forest []) → Refused scene edit ∨
        ∃ after, edit.run scene = .ok () after ∧ (allowed → after.Forest []) := by
    rintro edit allowed (refused | ⟨after, run, keeps⟩)
    · exact .inl refused
    · exact .inr ⟨after, run, fun _ => keeps⟩
  cases command with
  | attach name operator parent slot =>
    rcases h.attach_outcome name operator parent slot with refused | ⟨new, after, run, keeps⟩
    · obtain ⟨error, fine, run⟩ := refused
      exact .inl ⟨error, fine, by simp only [Command.edit, EStateM.run_bind, run]⟩
    · exact .inr ⟨after, by simp only [Command.edit, EStateM.run_bind, run, Edit.run_pure], keeps⟩
  | move id target slot => exact always (h.move_outcome id target slot)
  | delete id => exact always (h.delete_outcome id)
  | setLiteral id slot literal => exact always (h.setLiteral_outcome id slot literal)
  | clear id slot => exact always (h.clear_outcome id slot)
  | rename id name => exact always (h.rename_outcome id name)

theorem Forest.after (h : scene.Forest []) (allowed : command.Allowed) :
    (command.after scene).Forest [] := by
  rcases h.command_outcome command with ⟨error, -, run⟩ | ⟨after, run, keeps⟩
  · simpa only [Command.after, run] using h
  · simpa only [Command.after, run] using keeps allowed

theorem node?_new_eq_some_iff {tag : Nat} : (Scene.new tag).node? id = some node ↔
    id = ⟨tag, 0⟩ ∧ node = ⟨⟨tag, 0⟩, "root", .root, .sceneRoot, none, 0, [.empty]⟩ := by
  obtain ⟨number, index⟩ := id
  cases index <;> simp [node?, nodeAt?, Scene.new, eq_comm (a := node)]

theorem forest_new (tag : Nat) : (Scene.new tag).Forest [] := by
  have noLink : ∀ {parent slot child}, ¬ (Scene.new tag).Holds parent slot child := by
    rintro parent slot child ⟨node, found, entry⟩
    obtain ⟨-, rfl⟩ := node?_new_eq_some_iff.mp found
    cases slot <;> simp at entry
  have live : (Scene.new tag).Live (Scene.new tag).root := ⟨_, node?_new_eq_some_iff.mpr ⟨rfl, rfl⟩⟩
  refine
    { counted := rfl
      nodup := .nil
      root_live := live
      loose_live := by simp
      fits := ?_
      held := fun held => absurd held noLink
      hung := ?_
      anchored := ?_
      siblings := fun held => absurd held noLink }
  · intro id node found
    obtain ⟨rfl, rfl⟩ := node?_new_eq_some_iff.mp found
    refine
      { id_eq := rfl
        kind_iff := iff_of_true rfl rfl
        parent_iff := iff_of_true rfl rfl
        operator_root := fun _ => rfl
        accepted := fun notRoot => absurd rfl notRoot
        validName := fun notRoot => absurd rfl notRoot
        length_inputs := rfl
        literal := ?_ }
    rintro (_ | slot) value entry <;> simp at entry
  · intro id node found notRoot
    exact absurd (node?_new_eq_some_iff.mp found).1 notRoot
  · rintro id ⟨node, found⟩
    obtain ⟨rfl, -⟩ := node?_new_eq_some_iff.mp found
    exact ⟨_, .inl rfl, .refl⟩

theorem Reachable.forest (h : Reachable scene) : scene.Forest [] := by
  induction h with
  | new tag => exact forest_new tag
  | step _ allowed ih => exact ih.after allowed

def ball : Scene :=
  Command.after (.attach "p" (Builtin.samplePoint.named "sample_point") ⟨7, 1⟩ 0)
    (Command.after (.attach "ball" (Builtin.sphere.named "sdf_sphere") ⟨7, 0⟩ 0) (Scene.new 7))

theorem reachable_ball : Reachable ball := by
  have sphere : Command.Allowed (.attach "ball" (Builtin.sphere.named "sdf_sphere") ⟨7, 0⟩ 0) :=
    .inl Operator.accepted_sphere
  have point : Command.Allowed (.attach "p" (Builtin.samplePoint.named "sample_point") ⟨7, 1⟩ 0) :=
    .inl Operator.accepted_samplePoint
  exact ((Reachable.new 7).step sphere).step point

/-- Whatever edits are made of a new scene, failing ones among them, lead to a tree. -/
theorem consistent_of_reachable (h : Reachable scene) : scene.Consistent := h.forest.consistent

theorem consistent_ball : ball.Consistent ∧ ball.live = 3 :=
  ⟨consistent_of_reachable reachable_ball, by decide +kernel⟩

/-- An edit that fails has changed nothing. It also never finds the scene inconsistent: no input is
written that the node does not have, and no more nodes are destroyed than were counted. -/
theorem unchanged_of_failed (h : Reachable scene) (command : Command) {error : SceneError}
    {after : Scene} (failed : command.edit.run scene = .error error after) :
    after = scene ∧ error ≠ .inconsistent := by
  rcases h.forest.command_outcome command with ⟨error', fine, run⟩ | ⟨after', run, -⟩
  · rw [run] at failed
    cases failed
    exact ⟨rfl, fine⟩
  · rw [run] at failed
    cases failed

theorem unchanged_ball_of_duplicateName : ∃ after,
    (Command.attach "p" (Builtin.sphere.named "sdf_sphere") ⟨7, 1⟩ 1).edit.run ball =
      .error (.duplicateName "p") after ∧ after = ball ∧
        SceneError.duplicateName "p" ≠ .inconsistent :=
  ⟨_, rfl, unchanged_of_failed reachable_ball
    (.attach "p" (Builtin.sphere.named "sdf_sphere") ⟨7, 1⟩ 1) rfl⟩

end Scene

end DistanceField
