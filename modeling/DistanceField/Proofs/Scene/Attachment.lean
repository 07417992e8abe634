import DistanceField.Proofs.Program.Variables
import DistanceField.Proofs.Scene.Lifetimes
import DistanceField.Proofs.Scene.Removal

/-!
# What an attachment changes

A new node takes the next place of the arena, and its identifier tells how many were given out
before. What had hung in its input is destroyed, just as if the input had been cleared first, and of
what is left only this input changes.
-/

namespace DistanceField.Scene

variable {scene between after : Scene} {loose : List NodeId} {id new parent low : NodeId}
  {slot : Nat} {name : String} {operator : Operator} {node : Node} {value : Slot}
  {branches : Branches} {commands : List Command}

/-- A node may be attached: its name is made of letters and digits and no child in another input
bears it, and the input takes what the operator yields. -/
def CanAttach (scene : Scene) (name : String) (operator : Operator) (parent : NodeId)
    (slot : Nat) : Prop :=
  (name.toList ≠ [] ∧ ∀ c ∈ name.toList, c.isAlphanum) ∧
    ∃ owner, scene.node? parent = some owner ∧
      owner.operator.inputs[slot]? = some operator.output ∧
        ∀ {place child below}, scene.Holds parent place child → place ≠ slot →
          scene.node? child = some below → below.name ≠ name

/-- What becomes of a scene to which a node was attached. -/
structure Attachment (scene after : Scene) (new : NodeId) (name : String) (operator : Operator)
    (parent : NodeId) (slot : Nat) : Prop where
  unused : ¬ scene.Live new
  /-- What hung in the input is destroyed, and nothing else. -/
  live_iff : ∀ {low}, after.Live low ↔ low = new ∨ scene.Live low ∧ ¬ scene.Under parent slot low
  made : after.node? new = some (freshNode new name operator parent slot)
  holds_iff : ∀ {above place}, after.Holds above place new ↔ above = parent ∧ place = slot
  childless : ∀ {place child}, ¬ after.Holds new place child
  /-- The parent is left, and only the one input of it changes. -/
  owner : ∃ node, scene.node? parent = some node ∧ slot < node.inputs.length ∧
    after.node? parent = some { node with inputs := node.inputs.set slot (.child new) }
  others : ∀ {low}, after.Live low → low ≠ new → low ≠ parent → after.node? low = scene.node? low
  tag : after.tag = scene.tag
  places : after.nodes.size = scene.nodes.size + 1
  size : ∃ gone : List NodeId, gone.Nodup ∧ (∀ {low}, low ∈ gone ↔ scene.Under parent slot low) ∧
    after.size + gone.length = scene.size + 1

theorem Forest.canAttach_iff (h : scene.Forest loose) :
    scene.CanAttach name operator parent slot ↔ validName name ∧
      scene.Takes parent slot operator.output ∧ scene.Unused parent slot name none := by
  rw [CanAttach, validName_iff]
  refine and_congr_right fun _ => ?_
  constructor
  · rintro ⟨owner, found, takes, distinct⟩
    refine ⟨⟨owner, found, takes⟩, fun {place child} held ne _ same => ?_⟩
    obtain ⟨below, there⟩ := h.live_of_holds held
    rw [name?, there, Option.map_some, Option.some.injEq] at same
    exact distinct held ne there same
  · rintro ⟨⟨owner, found, takes⟩, unused⟩
    refine ⟨owner, found, takes, fun {place child below} held ne there same => ?_⟩
    exact unused held ne (by simp) (by rw [name?, there, Option.map_some, same])

/-- Clearing the input frees no name: the child in it did not count. -/
theorem Forest.unused_cleared_iff (h : scene.Forest loose) (found : scene.node? parent = some node)
    (entry : node.inputs[slot]? = some value) (unfolds : scene.Unfolds [value] branches) :
    (scene.cleared parent slot branches).Unused parent slot name none ↔
      scene.Unused parent slot name none := by
  have within := h.within_cleared found entry unfolds
  have cleared := (h.clear found entry unfolds).2
  have owner := h.node?_cleared_self found entry unfolds
  constructor
  · intro unused place child held ne other
    have kept : (scene.cleared parent slot branches).Holds parent place child := by
      rw [holds_iff found] at held
      rw [holds_iff owner, List.getElem?_set_ne (Ne.symm ne), held]
    rw [← within.name? (cleared.live_of_holds kept)]
    exact unused kept ne other
  · intro unused place child held ne other
    rw [within.name? (cleared.live_of_holds held)]
    exact unused (within.holds held) ne other

theorem live_push_iff : (scene.push node).Live low ↔ low = scene.nextId ∨ scene.Live low := by
  rw [Live, Live, node?_push]
  by_cases same : low = scene.nextId <;> simp [same]

/-- In the new scene the input was cleared and filled, and the new node added. -/
theorem Forest.attached_eq (h : scene.Forest loose) (found : scene.node? parent = some node)
    (entry : node.inputs[slot]? = some value) (unfolds : scene.Unfolds [value] branches) :
    scene.attached name operator parent slot branches =
      ((scene.cleared parent slot branches).put parent slot (.child scene.nextId)).push
        (freshNode scene.nextId name operator parent slot) := by
  have live : (scene.cleared parent slot branches).Live parent :=
    ⟨_, h.node?_cleared_self found entry unfolds⟩
  exact put_push live.ne_nextId _

theorem Refilled.attachment (refilled : scene.Refilled between parent slot (.child scene.nextId))
    (h : scene.Forest loose) (name : String) (operator : Operator) :
    scene.Attachment (between.push (freshNode scene.nextId name operator parent slot))
      scene.nextId name operator parent slot := by
  have next : between.nextId = scene.nextId := by
    rw [nextId, refilled.tag, refilled.places, nextId]
  have unused : ¬ scene.Live scene.nextId := fun live => live.ne_nextId rfl
  obtain ⟨node, found, lt, owner⟩ := refilled.owner
  have ne : parent ≠ scene.nextId := Live.ne_nextId ⟨node, found⟩
  have here : (between.push (freshNode scene.nextId name operator parent slot)).node? scene.nextId =
      some (freshNode scene.nextId name operator parent slot) := by
    rw [node?_push, next, if_pos rfl]
  have there : ∀ {low}, low ≠ scene.nextId →
      (between.push (freshNode scene.nextId name operator parent slot)).node? low =
        between.node? low :=
    fun other => by rw [node?_push, next, if_neg other]
  have childless : ∀ {place child},
      ¬ (between.push (freshNode scene.nextId name operator parent slot)).Holds
        scene.nextId place child := by
    intro place child held
    exact freshNode_child_free child place ((holds_iff here).mp held)
  refine
    { unused
      live_iff := ?live_iff
      made := here
      holds_iff := ?holds_iff
      childless
      owner := ⟨node, found, lt, (there ne).trans owner⟩
      others := ?others
      tag := refilled.tag
      places := by simp [push, refilled.places]
      size := ?size }
  case live_iff =>
    intro low
    rw [live_push_iff, next, refilled.live_iff]
  case holds_iff =>
    intro above place
    constructor
    · rintro ⟨holder, at_, entry⟩
      by_cases self : above = scene.nextId
      · exact absurd ⟨holder, self ▸ at_, entry⟩ childless
      rw [there self] at at_
      -- nobody held the new node when it did not exist yet
      have old : ∀ {above place}, ¬ scene.Holds above place scene.nextId :=
        fun held => unused (h.live_of_holds held)
      by_cases same : above = parent
      · subst same
        obtain rfl := Option.some.inj (owner.symm.trans at_)
        by_contra elsewhere
        have apart : slot ≠ place := fun eq => elsewhere ⟨rfl, eq.symm⟩
        rw [List.getElem?_set_ne apart] at entry
        exact old ⟨node, found, entry⟩
      · rw [refilled.others ⟨holder, at_⟩ same] at at_
        exact absurd ⟨holder, at_, entry⟩ old
    · rintro ⟨rfl, rfl⟩
      exact ⟨_, (there ne).trans owner, by simp [lt]⟩
  case others =>
    intro low live notNew notParent
    have left := (live_push_iff.mp live).resolve_left (next ▸ notNew)
    rw [there notNew, refilled.others left notParent]
  case size =>
    obtain ⟨gone, nodup, under, count⟩ := refilled.size
    refine ⟨gone, nodup, under, ?_⟩
    simp only [Scene.size, push] at count ⊢
    omega

/-- An attachment that passes the checks goes through. Clearing the input before makes no
difference. -/
theorem Forest.attach_attaches (h : scene.Forest loose)
    (may : scene.CanAttach name operator parent slot) : ∃ after,
      (Edit.attach name operator parent slot).run scene = .ok scene.nextId after ∧
        (do Edit.clear parent slot; Edit.attach name operator parent slot : Edit NodeId).run scene =
          .ok scene.nextId after ∧
            scene.Attachment after scene.nextId name operator parent slot := by
  obtain ⟨valid, ⟨node, found, takes⟩, unused⟩ := h.canAttach_iff.mp may
  obtain ⟨value, branches, entry, unfolds⟩ := h.exists_site found takes
  have lt := (List.getElem?_eq_some_iff.mp entry).1
  have again : (scene.cleared parent slot branches).attached name operator parent slot
      (.empty .nil) = scene.attached name operator parent slot branches := by
    rw [Scene.attached, Scene.attached, h.cleared_cleared found entry unfolds, nextId_cleared]
  have onward := (h.clear found entry unfolds).2.run_attach valid
    (h.node?_cleared_self found entry unfolds) takes
    ((h.unused_cleared_iff found entry unfolds).mpr unused)
    (show (node.inputs.set slot .empty)[slot]? = some .empty by simp [lt]) (.empty .nil)
  refine ⟨_, h.run_attach valid found takes unused entry unfolds, ?_, ?_⟩
  · rw [EStateM.run_bind, h.run_clear found entry unfolds]
    exact onward.trans (by rw [again, nextId_cleared])
  · rw [h.attached_eq found entry unfolds]
    exact (h.refilled found entry unfolds _).attachment h name operator

theorem Forest.canAttach_of_run (h : scene.Forest loose)
    (run : (Edit.attach name operator parent slot).run scene = .ok new after) :
    scene.CanAttach name operator parent slot := by
  rcases h.attach_cases with ⟨error, -, failed⟩ | passed
  · rw [failed] at run
    cases run
  · exact h.canAttach_iff.mpr passed

/-- What may be attached after the input was cleared may be attached without that. -/
theorem Forest.canAttach_of_run_clear (h : scene.Forest loose)
    (run : (do Edit.clear parent slot; Edit.attach name operator parent slot : Edit NodeId).run
      scene = .ok new after) : scene.CanAttach name operator parent slot := by
  rcases clear_cases with ⟨error, -, failed⟩ | ⟨node, found, lt⟩
  · rw [EStateM.run_bind, failed] at run
    cases run
  have entry := List.getElem?_eq_getElem lt
  obtain ⟨branches, unfolds⟩ := h.exists_unfolds_slot found entry
  rw [EStateM.run_bind, h.run_clear found entry unfolds] at run
  have cleared := (h.clear found entry unfolds).2
  obtain ⟨valid, ⟨owner, here, takes⟩, unused⟩ :=
    cleared.canAttach_iff.mp (cleared.canAttach_of_run run)
  rw [h.node?_cleared_self found entry unfolds] at here
  cases here
  exact h.canAttach_iff.mpr
    ⟨valid, ⟨node, found, takes⟩, (h.unused_cleared_iff found entry unfolds).mp unused⟩

theorem Forest.size_nodes_after (h : scene.Forest []) (command : Command) :
    (command.after scene).nodes.size =
      scene.nodes.size + (command.returned? scene).toList.length := by
  -- only an attachment returns an identifier, and all other edits keep the places
  have kept : ∀ {edit : Edit Unit}, (Refused scene edit ∨
      ∃ after, edit.run scene = .ok () after ∧ after.nodes.size = scene.nodes.size) →
        (remains (edit.run scene)).nodes.size = scene.nodes.size := by
    rintro edit (⟨error, -, run⟩ | ⟨after, run, places⟩)
    · rw [run, remains]
    · rw [run, remains, places]
  rw [command.after_eq_remains]
  cases command with
  | attach name operator parent slot =>
    simp only [Command.edit, Command.returned?, EStateM.run_bind]
    rcases h.attach_outcome name operator parent slot with ⟨error, -, run⟩ | ⟨new, after, run, -⟩
    · simp [run, remains]
    · simp [run, remains, (h.made_of_attach run).2.1]
  | move id target slot =>
    refine kept ?_
    rcases h.move_cases with refused | ⟨-, run⟩ | ⟨node, movable⟩
    · exact .inl refused
    · exact .inr ⟨scene, run, rfl⟩
    · obtain ⟨after, parent, gone, run, -, -, -, -, places, -⟩ := h.exists_rewires movable
      exact .inr ⟨after, run, places⟩
  | delete id =>
    refine kept ?_
    rcases h.delete_cases with refused | ⟨⟨node, found⟩, notRoot⟩
    · exact .inl refused
    · obtain ⟨parent, above, up, foundAbove, entry⟩ := h.exists_above found notRoot
      obtain ⟨after, run, refilled⟩ :=
        h.clear_refills foundAbove (List.getElem?_eq_some_iff.mp entry).1
      rw [← h.run_delete_eq found notRoot up ⟨above, foundAbove, entry⟩] at run
      exact .inr ⟨after, run, refilled.places⟩
  | setLiteral id slot literal =>
    refine kept ?_
    rcases setLiteral_cases with refused | ⟨⟨node, found, takes⟩, finite⟩
    · exact .inl refused
    · obtain ⟨after, run, refilled⟩ := h.setLiteral_refills found takes finite
      exact .inr ⟨after, run, refilled.places⟩
  | clear id slot =>
    refine kept ?_
    rcases clear_cases with refused | ⟨node, found, lt⟩
    · exact .inl refused
    · obtain ⟨after, run, refilled⟩ := h.clear_refills found lt
      exact .inr ⟨after, run, refilled.places⟩
  | rename id name =>
    refine kept ?_
    rcases rename_cases with refused | ⟨valid, node, found, unused⟩
    · exact .inl refused
    · exact .inr ⟨_, run_rename valid found unused, size_nodes_update ..⟩

theorem Reachable.size_nodes_afterAll (h : Reachable scene)
    (allowed : ∀ command ∈ commands, command.Allowed) :
    (scene.afterAll commands).nodes.size =
      scene.nodes.size + (scene.returned commands).length := by
  induction commands generalizing scene with
  | nil => rfl
  | cons command commands ih =>
    obtain ⟨first, onward⟩ := List.forall_mem_cons.mp allowed
    rw [afterAll_cons, ih (h.step first) onward, h.forest.size_nodes_after command, returned,
      List.length_append, Nat.add_assoc]

/-- An attachment goes through exactly if the node may be attached, and then it does what is said
here. The identifier of the new node counts those that were given out before it. -/
theorem attach_iff_canAttach {tag : Nat} (allowed : ∀ command ∈ commands, command.Allowed)
    (led : (Scene.new tag).afterAll commands = scene) (name : String) (operator : Operator)
    (parent : NodeId) (slot : Nat) :
    ((∃ new after, (Edit.attach name operator parent slot).run scene = .ok new after) ↔
      scene.CanAttach name operator parent slot) ∧
    (∀ new after, (Edit.attach name operator parent slot).run scene = .ok new after →
      new.index = ((Scene.new tag).root :: (Scene.new tag).returned commands).length ∧
        scene.Attachment after new name operator parent slot) ∧
    ∀ new after, (Edit.attach name operator parent slot).run scene = .ok new after ↔
      (do Edit.clear parent slot; Edit.attach name operator parent slot : Edit NodeId).run scene =
        .ok new after := by
  have reachable : Reachable scene := led ▸ (Reachable.new tag).afterAll allowed
  have h := reachable.forest
  -- every place was given out once: the first to the root, and the others by attachments
  have given : scene.nextId.index =
      ((Scene.new tag).root :: (Scene.new tag).returned commands).length := by
    have places := (Reachable.new tag).size_nodes_afterAll allowed
    rw [led] at places
    rw [nextId, places, List.length_cons, Nat.add_comm]
    rfl
  refine ⟨⟨?_, fun may => ?_⟩, ?_, ?_⟩
  · rintro ⟨new, after, run⟩
    exact h.canAttach_of_run run
  · obtain ⟨after, run, -⟩ := h.attach_attaches may
    exact ⟨_, after, run⟩
  · intro new after run
    obtain ⟨after', run', -, attachment⟩ := h.attach_attaches (h.canAttach_of_run run)
    rw [run] at run'
    cases run'
    exact ⟨given, attachment⟩
  · intro new after
    constructor
    · intro run
      obtain ⟨after', run', cleared, -⟩ := h.attach_attaches (h.canAttach_of_run run)
      exact cleared.trans (run'.symm.trans run)
    · intro cleared
      obtain ⟨after', run, cleared', -⟩ := h.attach_attaches (h.canAttach_of_run_clear cleared)
      exact run.trans (cleared'.symm.trans cleared)

def deepening : List Command :=
  [.attach "outer" (Builtin.union.named "op_union") ⟨7, 0⟩ 0,
    .attach "inner" (Builtin.union.named "op_union") ⟨7, 1⟩ 0,
    .attach "ball" (Builtin.sphere.named "sdf_sphere") ⟨7, 2⟩ 1]

theorem canAttach_replacement : (∀ command ∈ deepening, command.Allowed) ∧
    (Scene.new 7).afterAll deepening = deepBall ∧
      deepBall.CanAttach "inner" (Builtin.sphere.named "sdf_sphere") ⟨7, 1⟩ 0 ∧
        ∃ after, (Edit.attach "inner" (Builtin.sphere.named "sdf_sphere") ⟨7, 1⟩ 0).run deepBall =
            .ok ⟨7, 4⟩ after ∧
          deepBall.Attachment after ⟨7, 4⟩ "inner" (Builtin.sphere.named "sdf_sphere") ⟨7, 1⟩ 0 ∧
            deepBall.size = 4 ∧ after.size = 3 := by
  have allowed : ∀ command ∈ deepening, command.Allowed := by
    have union := Operator.accepted_union
    have sphere := Operator.accepted_sphere
    simp [deepening, Command.Allowed, union, sphere]
  have led : (Scene.new 7).afterAll deepening = deepBall := rfl
  obtain ⟨goes, effect, -⟩ := attach_iff_canAttach allowed led "inner"
    (Builtin.sphere.named "sdf_sphere") ⟨7, 1⟩ 0
  have run : (Edit.attach "inner" (Builtin.sphere.named "sdf_sphere") ⟨7, 1⟩ 0).run deepBall =
      .ok ⟨7, 4⟩ (Command.after
        (.attach "inner" (Builtin.sphere.named "sdf_sphere") ⟨7, 1⟩ 0) deepBall) := rfl
  exact ⟨allowed, led, goes.mp ⟨_, _, run⟩, _, run, (effect _ _ run).2, by decide +kernel,
    by decide +kernel⟩

end DistanceField.Scene
