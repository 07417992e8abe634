import DistanceField.Proofs.Scene.Aging
import DistanceField.Proofs.Scene.Runs

/-!
# Identifiers over time

A new node gets an identifier that no node had before. As long as an identifier names a node, that
is the node it was given to, and once this node is destroyed it names nothing any more, whatever is
done to the scene afterwards.
-/

namespace DistanceField

namespace Command

def Names (id : NodeId) : Command → Prop
  | attach _ _ parent _ => parent = id
  | move node target _ => node = id ∨ target = id
  | delete node => node = id
  | setLiteral node _ _ => node = id
  | clear node _ => node = id
  | rename node _ => node = id

theorem after_eq_remains (command : Command) (scene : Scene) :
    command.after scene = remains (command.edit.run scene) := by
  rw [after]
  cases command.edit.run scene <;> rfl

/-- The identifier that a command returns: that of the new node, if it attaches one. -/
def returned? (scene : Scene) : Command → Option NodeId
  | attach name operator parent slot =>
    match (Edit.attach name operator parent slot).run scene with
    | .ok id _ => some id
    | .error .. => none
  | _ => none

end Command

namespace Scene

/-- The scene after some commands, failing ones among them. -/
def afterAll (scene : Scene) (commands : List Command) : Scene :=
  commands.foldl (fun scene command => command.after scene) scene

def returned (scene : Scene) : List Command → List NodeId
  | [] => []
  | command :: commands =>
    (command.returned? scene).toList ++ (command.after scene).returned commands

/-- An identifier names nothing: it is not found by itself, below any node or as a place to start
from, and every edit that takes it as the node or the parent is refused. -/
structure Unknown (scene : Scene) (id : NodeId) : Prop where
  node : scene.node id = .error (.notFound id)
  find : ∀ {start}, scene.Live start → scene.find start id = .error (.notFound id)
  findFrom : ∀ target, scene.find id target = .error (.notFound id)
  refused : ∀ command : Command, command.Names id → Refused scene command.edit

variable {scene later made : Scene} {id parent : NodeId} {slot : Nat} {name : String}
  {operator : Operator} {command : Command} {commands : List Command}

theorem not_live_iff : ¬ scene.Live id ↔ scene.node? id = none := by
  rw [Live, not_exists, Option.eq_none_iff_forall_ne_some]

theorem refused_of_names (gone : scene.node? id = none) (names : command.Names id) :
    Refused scene command.edit := by
  have missing : scene.node id = .error (.notFound id) := by simp [Scene.node, gone]
  have unfit : ∀ slot type, scene.checkSlot id slot type = .error (.notFound id) := by
    intro slot type
    rw [checkSlot_eq, gone]
  cases command with
  | attach name operator parent slot =>
    obtain rfl : parent = id := names
    cases valid : checkName name with
    | error error =>
      exact refused_of_check (local_of_checkName valid)
        (by simp [Command.edit, Edit.attach, valid])
    | ok => exact ⟨.notFound parent, by simp, by simp [Command.edit, Edit.attach, valid, unfit]⟩
  -- the checks of the moved node come first and may fail before the target is missed
  | move node target slot =>
    rcases names with rfl | rfl
    · exact ⟨.notFound node, by simp, by simp [Command.edit, Edit.move, missing]⟩
    · cases found : scene.node? node with
      | none =>
        exact ⟨.notFound node, by simp, by simp [Command.edit, Edit.move, Scene.node, found]⟩
      | some mover =>
        by_cases root : mover.isRoot
        · exact ⟨.rootIsImmovable, by simp,
            by simp [Command.edit, Edit.move, node_eq_ok_iff.mpr found, root]⟩
        · exact ⟨.notFound target, by simp,
            by simp [Command.edit, Edit.move, node_eq_ok_iff.mpr found, root, unfit]⟩
  | delete node =>
    obtain rfl : node = id := names
    exact ⟨.notFound node, by simp, by simp [Command.edit, Edit.delete, missing]⟩
  | setLiteral node slot literal =>
    obtain rfl : node = id := names
    exact ⟨.notFound node, by simp, by simp [Command.edit, Edit.setLiteral, unfit]⟩
  | clear node slot =>
    obtain rfl : node = id := names
    exact ⟨.notFound node, by simp, by simp [Command.edit, Edit.clear, missing]⟩
  | rename node name =>
    obtain rfl : node = id := names
    cases valid : checkName name with
    | error error =>
      exact refused_of_check (local_of_checkName valid)
        (by simp [Command.edit, Edit.rename, valid])
    | ok => exact ⟨.notFound node, by simp, by simp [Command.edit, Edit.rename, valid, missing]⟩

theorem Forest.unknown (h : scene.Forest []) (gone : ¬ scene.Live id) : scene.Unknown id := by
  have none := not_live_iff.mp gone
  have missing : scene.node id = .error (.notFound id) := by simp [Scene.node, none]
  refine ⟨missing, ?_, ?_, fun command => refused_of_names none⟩
  · intro start live
    obtain ⟨tree, unfolds, nodup, -⟩ := h.exists_tree live
    exact find_of_notMem unfolds nodup fun mem => gone (unfolds.live_of_mem mem)
  · intro target
    have stops : scene.findStep target [id] = .done (.error (.notFound id)) := by
      simp [findStep, missing]
    rw [Scene.find, Turn.run, stops]

theorem later_after (command : Command) (scene : Scene) : scene.Later (command.after scene) := by
  have kept : Keeps Later command.edit := by
    cases command with
    | attach name operator parent slot => exact .bind (Edit.keeps_attach _ _ _ _) fun _ => .pure _
    | move id target slot => exact Edit.keeps_move id target slot
    | delete id => exact Edit.keeps_delete id
    | setLiteral id slot literal => exact Edit.keeps_setLiteral id slot literal
    | clear id slot => exact Edit.keeps_clear id slot
    | rename id name => exact Edit.keeps_rename id name
  rw [command.after_eq_remains]
  exact kept scene

theorem later_afterAll (commands : List Command) (scene : Scene) :
    scene.Later (scene.afterAll commands) := by
  induction commands generalizing scene with
  | nil => exact .refl scene
  | cons command commands ih => exact (later_after command scene).trans (ih _)

@[simp] theorem afterAll_nil : scene.afterAll [] = scene := rfl

@[simp] theorem afterAll_cons :
    scene.afterAll (command :: commands) = (command.after scene).afterAll commands := rfl

theorem afterAll_append (commands more : List Command) :
    scene.afterAll (commands ++ more) = (scene.afterAll commands).afterAll more := List.foldl_append

theorem Reachable.afterAll (h : Reachable scene)
    (allowed : ∀ command ∈ commands, command.Allowed) : Reachable (scene.afterAll commands) := by
  induction commands generalizing scene with
  | nil => exact h
  | cons command commands ih =>
    obtain ⟨first, onward⟩ := List.forall_mem_cons.mp allowed
    exact ih (h.step first) onward

theorem Forest.made_of_attach (h : scene.Forest [])
    (run : (Edit.attach name operator parent slot).run scene = .ok id made) :
    id = scene.nextId ∧ made.nodes.size = scene.nodes.size + 1 ∧
      made.node? id = some (freshNode id name operator parent slot) := by
  rcases h.attach_cases with ⟨error, -, refused⟩ | ⟨valid, ⟨node, found, takes⟩, unused⟩
  · rw [refused] at run
    cases run
  obtain ⟨value, branches, entry, unfolds⟩ := h.exists_site found takes
  rw [h.run_attach valid found takes unused entry unfolds] at run
  cases run
  have ne : scene.nextId ≠ parent := (Live.ne_nextId ⟨node, found⟩).symm
  refine ⟨rfl, by simp [Scene.attached, Scene.cleared, Scene.push], ?_⟩
  rw [Scene.attached, node?_put, if_neg ne, node?_push, nextId_cleared, if_pos rfl]

theorem returned?_eq_some_iff : command.returned? scene = some id ↔
    ∃ name operator parent slot made, command = .attach name operator parent slot ∧
      (Edit.attach name operator parent slot).run scene = .ok id made := by
  cases command with
  | attach name operator parent slot =>
    cases run : (Edit.attach name operator parent slot).run scene <;>
      simp [Command.returned?, run, eq_comm]
  | _ => simp [Command.returned?]

theorem after_attach (run : (Edit.attach name operator parent slot).run scene = .ok id made) :
    (Command.attach name operator parent slot).after scene = made := by
  simp only [Command.after, Command.edit, EStateM.run_bind, run, Edit.run_pure]

/-- A returned identifier belongs to a place that there was not before. -/
theorem Forest.returned?_index (h : scene.Forest [])
    (returned : command.returned? scene = some id) :
    id = scene.nextId ∧ (command.after scene).nodes.size = scene.nodes.size + 1 := by
  obtain ⟨name, operator, parent, slot, made, rfl, run⟩ := returned?_eq_some_iff.mp returned
  obtain ⟨next, size, -⟩ := h.made_of_attach run
  exact ⟨next, by rw [after_attach run, size]⟩

/-- What some commands return are identifiers of the scene for places that they have added. -/
theorem Reachable.mem_returned (h : Reachable scene)
    (allowed : ∀ command ∈ commands, command.Allowed) (mem : id ∈ scene.returned commands) :
    id.tag = scene.tag ∧ scene.nodes.size ≤ id.index ∧
      id.index < (scene.afterAll commands).nodes.size := by
  induction commands generalizing scene with
  | nil => cases mem
  | cons command commands ih =>
    obtain ⟨first, onward⟩ := List.forall_mem_cons.mp allowed
    have now := later_after command scene
    have then' := later_afterAll commands (command.after scene)
    rw [returned, List.mem_append, Option.mem_toList] at mem
    rcases mem with mem | mem
    · obtain ⟨rfl, size⟩ := h.forest.returned?_index mem
      refine ⟨rfl, Nat.le_refl _, Nat.lt_of_lt_of_le ?_ then'.size⟩
      rw [size]
      exact Nat.lt_succ_self _
    · obtain ⟨tag, ge, lt⟩ := ih (h.step first) onward mem
      exact ⟨tag.trans now.tag, Nat.le_trans now.size ge, lt⟩

theorem Reachable.pairwise_returned (h : Reachable scene)
    (allowed : ∀ command ∈ commands, command.Allowed) :
    (scene.returned commands).Pairwise fun id next => id.index < next.index := by
  induction commands generalizing scene with
  | nil => exact .nil
  | cons command commands ih =>
    obtain ⟨first, onward⟩ := List.forall_mem_cons.mp allowed
    rw [returned, List.pairwise_append]
    refine ⟨?_, ih (h.step first) onward, ?_⟩
    · cases command.returned? scene <;> simp
    · intro id mem next mem'
      obtain ⟨rfl, size⟩ := h.forest.returned?_index (Option.mem_toList.mp mem)
      obtain ⟨-, ge, -⟩ := (h.step first).mem_returned onward mem'
      rw [size] at ge
      exact ge

/-- What is promised of the identifiers that a scene gives out in the course of some commands. -/
structure Lifetimes (scene : Scene) (commands : List Command) : Prop where
  increasing :
    (scene.root :: scene.returned commands).Pairwise fun id next => id.index < next.index
  nodup : (scene.root :: scene.returned commands).Nodup
  /-- The node of an identifier that was given out is gone at some moment. -/
  lost : ∀ {earlier later : List Command} {id}, commands = earlier ++ later →
    id ∈ scene.root :: scene.returned earlier → ¬ (scene.afterAll earlier).Live id →
      (scene.afterAll commands).Unknown id
  /-- An attachment goes through at some moment. -/
  made : ∀ {earlier later : List Command} {name operator parent slot id after},
    commands = earlier ++ .attach name operator parent slot :: later →
      (Edit.attach name operator parent slot).run (scene.afterAll earlier) = .ok id after →
        (∃ node, after.node? id = some node ∧ node.id = id ∧ node.operator = operator) ∧
          ∀ {node}, (scene.afterAll commands).node? id = some node →
            node.id = id ∧ node.operator = operator
  root : ∃ node, (scene.afterAll commands).node? scene.root = some node ∧
    node.id = scene.root ∧ node.operator = .sceneRoot

/-- A place of the arena that is empty stays so. -/
theorem Later.not_live (h : scene.Later later) (gone : ¬ scene.Live id)
    (lt : id.index < scene.nodes.size) : ¬ later.Live id := by
  rintro ⟨node, found⟩
  obtain ⟨old, was, -⟩ := h.node found lt
  exact gone ⟨old, was⟩

/-- Identifiers are given out once, in the order of the arena, and each belongs to one node for
ever. -/
theorem lifetimes_of_allowed (tag : Nat) (allowed : ∀ command ∈ commands, command.Allowed) :
    (Scene.new tag).Lifetimes commands := by
  have fresh := Reachable.new tag
  have ordered : ((Scene.new tag).root :: (Scene.new tag).returned commands).Pairwise
      fun id next => id.index < next.index := by
    refine List.pairwise_cons.mpr ⟨fun id mem => ?_, fresh.pairwise_returned allowed⟩
    exact (fresh.mem_returned allowed mem).2.1
  have apart : ∀ {id next : NodeId}, id.index < next.index → id ≠ next := by
    rintro id next lt rfl
    exact Nat.lt_irrefl _ lt
  refine
    { increasing := ordered
      nodup := ordered.imp apart
      lost := ?_
      made := ?_
      root := ?_ }
  -- the place was there before the node was gone, and an empty place stays empty
  · rintro earlier later id rfl mem gone
    obtain ⟨before, onward⟩ := List.forall_mem_append.mp allowed
    have lt : id.index < ((Scene.new tag).afterAll earlier).nodes.size := by
      rcases List.mem_cons.mp mem with rfl | mem
      · exact (later_afterAll earlier (Scene.new tag)).size
      · exact (fresh.mem_returned before mem).2.2
    rw [afterAll_append]
    exact ((fresh.afterAll before).afterAll onward).forest.unknown
      ((later_afterAll later _).not_live gone lt)
  -- later commands leave the identifier and the operator of a node that is still there
  · rintro earlier later name operator parent slot id after rfl run
    obtain ⟨before, onward⟩ := List.forall_mem_append.mp allowed
    obtain ⟨rfl, size, here⟩ := (fresh.afterAll before).forest.made_of_attach run
    refine ⟨⟨_, here, rfl, rfl⟩, fun {node} found => ?_⟩
    rw [afterAll_append, afterAll_cons, after_attach run] at found
    have lt : ((Scene.new tag).afterAll earlier).nextId.index < after.nodes.size := by
      rw [size]
      exact Nat.lt_succ_self _
    obtain ⟨old, was, id_eq, operator_eq⟩ := (later_afterAll later after).node found lt
    obtain rfl := Option.some.inj (was.symm.trans here)
    exact ⟨id_eq, operator_eq⟩
  · have forest := (fresh.afterAll allowed).forest
    have same : ((Scene.new tag).afterAll commands).root = (Scene.new tag).root := by
      rw [Scene.root, Scene.root, (later_afterAll commands _).tag]
    obtain ⟨node, found⟩ := same ▸ forest.root_live
    have fits := forest.fits found
    exact ⟨node, found, fits.id_eq, fits.operator_root same.symm⟩

def reattachment : List Command :=
  [.attach "ball" (Builtin.sphere.named "sdf_sphere") ⟨7, 0⟩ 0,
    .attach "p" (Builtin.samplePoint.named "sample_point") ⟨7, 1⟩ 0,
    .delete ⟨7, 1⟩,
    .attach "ball" (Builtin.sphere.named "sdf_sphere") ⟨7, 0⟩ 0]

theorem lifetimes_reattachment : (∀ command ∈ reattachment, command.Allowed) ∧
    (Scene.new 7).Lifetimes reattachment ∧
      (Scene.new 7).returned reattachment = [⟨7, 1⟩, ⟨7, 2⟩, ⟨7, 3⟩] ∧
        ((Scene.new 7).afterAll reattachment).Unknown ⟨7, 2⟩ := by
  have allowed : ∀ command ∈ reattachment, command.Allowed := by
    have sphere := Operator.accepted_sphere
    have point := Operator.accepted_samplePoint
    simp [reattachment, Command.Allowed, sphere, point]
  have lifetimes := lifetimes_of_allowed 7 allowed
  have cut : reattachment = reattachment.take 3 ++ reattachment.drop 3 := rfl
  have given : (⟨7, 2⟩ : NodeId) ∈
      (Scene.new 7).root :: (Scene.new 7).returned (reattachment.take 3) := by decide +kernel
  have gone : ((Scene.new 7).afterAll (reattachment.take 3)).node? ⟨7, 2⟩ = none := by
    decide +kernel
  exact ⟨allowed, lifetimes, by decide +kernel, lifetimes.lost cut given (not_live_iff.mpr gone)⟩

end Scene

end DistanceField
