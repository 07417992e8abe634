import DistanceField.Program.Compile
import DistanceField.Proofs.Scene.Runs

/-!
# Compilation as a recursion on the tree

The walk with its own stack makes the same assignments, in the same order, as the recursion that
compiles what hangs below a node before it goes on to the next input.
-/

namespace DistanceField

namespace Branches

/-- The variable of a child of the node whose variable is `name`. -/
def variableBelow (name : String) (node : Node) : String := name ++ "_" ++ node.name

/-- The first empty input; the tree hangs in the inputs of `id`, the first of them number `slot`. -/
def missing (id : NodeId) (slot : Nat) : Branches → Option CompileError
  | nil => none
  | empty _ => some (.missingInput id slot)
  | literal _ rest => rest.missing id (slot + 1)
  | child node below rest => (below.missing node.id 0).or (rest.missing id (slot + 1))

def arguments (name : String) : Branches → List Argument
  | nil => []
  | empty rest => rest.arguments name
  | literal value rest => .literal value :: rest.arguments name
  | child node _ rest => .var (variableBelow name node) :: rest.arguments name

def code (name : String) : Branches → List Assignment
  | nil => []
  | empty rest => rest.code name
  | literal _ rest => rest.code name
  | child node below rest =>
    below.code (variableBelow name node) ++
      ⟨node.operator.output, variableBelow name node, node.operator.symbol,
        below.arguments (variableBelow name node)⟩ :: rest.code name

/-- The turns that the walk takes: one for each input and one to leave each node. -/
def turns : Branches → Nat
  | nil => 0
  | empty rest => rest.turns + 1
  | literal _ rest => rest.turns + 1
  | child _ below rest => 1 + below.turns + 1 + rest.turns

end Branches

namespace Scene
open Turn (Course Leads)

variable {scene : Scene} {loose : List NodeId} {slots : List Slot} {branches : Branches}
  {node root : Node} {error : CompileError}

variable {id : NodeId} {name : String} {place : Nat} {gathered : List Argument} {stack : List Frame}
  {code : Array Assignment}

theorem compileStep_literal {value : Literal} (found : scene.node? id = some node)
    (here : node.inputs[place]? = some (.literal value)) :
    scene.compileStep (code, ⟨id, name, place, gathered⟩ :: stack) =
      .next (code, ⟨id, name, place + 1, gathered ++ [.literal value]⟩ :: stack) := by
  simp [compileStep, node_eq_ok_iff.mpr found, here, Frame.give, Frame.advance]

theorem compileStep_empty (found : scene.node? id = some node)
    (here : node.inputs[place]? = some .empty) :
    scene.compileStep (code, ⟨id, name, place, gathered⟩ :: stack) =
      .done (.error (.missingInput id place)) := by
  simp [compileStep, node_eq_ok_iff.mpr found, here]

theorem compileStep_child {child : NodeId} {below : Node} (found : scene.node? id = some node)
    (here : node.inputs[place]? = some (.child child)) (there : scene.node? child = some below) :
    scene.compileStep (code, ⟨id, name, place, gathered⟩ :: stack) =
      .next (code, ⟨child, Branches.variableBelow name below, 0, []⟩ ::
        ⟨id, name, place + 1, gathered⟩ :: stack) := by
  simp [compileStep, node_eq_ok_iff.mpr found, here, node_eq_ok_iff.mpr there, Frame.enter,
    Frame.advance, Branches.variableBelow]

theorem compileStep_leave {frame : Frame} (found : scene.node? id = some node)
    (ends : node.inputs.length ≤ place) :
    scene.compileStep (code, ⟨id, name, place, gathered⟩ :: frame :: stack) =
      .next (code.push ⟨node.operator.output, name, node.operator.symbol, gathered⟩,
        frame.give (.var name) :: stack) := by
  simp [compileStep, node_eq_ok_iff.mpr found, List.getElem?_eq_none ends, leave]

/-- What is left of the inputs begins with the next one. -/
theorem next_of_drop {value : Slot} (left : node.inputs.drop place = value :: slots) :
    node.inputs[place]? = some value ∧ node.inputs.drop (place + 1) = slots := by
  constructor
  · rw [← List.head?_drop, left, List.head?_cons]
  · rw [← List.tail_drop, left, List.tail_cons]

/-- From a frame that has come to some inputs the walk gets past them, with their arguments gathered
and their assignments made. -/
theorem leads_compile (h : scene.Unfolds slots branches) (found : scene.node? id = some node)
    (left : node.inputs.drop place = slots) (complete : branches.missing id place = none) :
    Leads scene.compileStep branches.turns (code, ⟨id, name, place, gathered⟩ :: stack)
      (code ++ branches.code name,
        ⟨id, name, place + slots.length, gathered ++ branches.arguments name⟩ :: stack) := by
  induction h generalizing id name place gathered stack code node with
  | nil => simpa [Branches.turns, Branches.code, Branches.arguments] using Leads.refl _
  | empty => simp [Branches.missing] at complete
  | @literal value slots rest _ ih =>
    obtain ⟨here, left⟩ := next_of_drop left
    have turn : scene.compileStep (code, ⟨id, name, place, gathered⟩ :: stack) = .next _ :=
      compileStep_literal found here
    have path := Leads.head turn (ih found left complete)
    simpa [Branches.turns, Branches.code, Branches.arguments, Nat.add_assoc, Nat.add_comm 1]
      using path
  | @child below slots tree rest there unfolds _ ihBelow ihRest =>
    obtain ⟨here, left⟩ := next_of_drop left
    obtain ⟨completeBelow, completeRest⟩ := Option.or_eq_none_iff.mp complete
    have enter : scene.compileStep (code, ⟨id, name, place, gathered⟩ :: stack) = .next _ :=
      compileStep_child found here there
    -- down to the child, up again with its assignment, and on to the inputs that are left
    have descend := Leads.head enter (ihBelow there List.drop_zero completeBelow)
    have leaves : scene.compileStep (code ++ tree.code (Branches.variableBelow name below),
        ⟨below.id, Branches.variableBelow name below, 0 + below.inputs.length,
          [] ++ tree.arguments (Branches.variableBelow name below)⟩ ::
            ⟨id, name, place + 1, gathered⟩ :: stack) = .next _ :=
      compileStep_leave there (by simp)
    have path := descend.trans (.head leaves (ihRest found left completeRest))
    have turns : (Branches.child below tree rest).turns = tree.turns + 1 + (rest.turns + 1) := by
      simp only [Branches.turns]
      omega
    have made : code ++ (Branches.child below tree rest).code name =
        (code ++ tree.code (Branches.variableBelow name below)).push
          ⟨below.operator.output, Branches.variableBelow name below, below.operator.symbol,
            [] ++ tree.arguments (Branches.variableBelow name below)⟩ ++ rest.code name := by
      apply Array.ext'
      simp [Branches.code]
    rw [turns, made]
    simpa [Branches.arguments, Frame.give, Nat.add_assoc, Nat.add_comm 1] using path

/-- From a frame that has come to some inputs, one of them empty at some depth, the walk gets to the
first empty one. -/
theorem leads_missing (h : scene.Unfolds slots branches) (found : scene.node? id = some node)
    (left : node.inputs.drop place = slots) (missing : branches.missing id place = some error) :
    ∃ turns state, turns < branches.turns ∧
      Leads scene.compileStep turns (code, ⟨id, name, place, gathered⟩ :: stack) state ∧
        scene.compileStep state = .done (.error error) := by
  induction h generalizing id name place gathered stack code node with
  | nil => simp [Branches.missing] at missing
  | empty _ _ =>
    obtain ⟨here, -⟩ := next_of_drop left
    obtain rfl := Option.some.inj missing
    exact ⟨0, _, by simp [Branches.turns], .refl _, compileStep_empty found here⟩
  | literal _ ih =>
    obtain ⟨here, left⟩ := next_of_drop left
    obtain ⟨turns, state, lt, path, done⟩ := ih found left missing
    exact ⟨turns + 1, state, Nat.succ_lt_succ lt, .head (compileStep_literal found here) path, done⟩
  | @child below slots tree rest there unfolds _ ihBelow ihRest =>
    obtain ⟨here, left⟩ := next_of_drop left
    have enter : scene.compileStep (code, ⟨id, name, place, gathered⟩ :: stack) = .next _ :=
      compileStep_child found here there
    cases inside : tree.missing below.id 0 with
    | some first =>
      obtain rfl : first = error := by simpa [Branches.missing, inside] using missing
      obtain ⟨turns, state, lt, path, done⟩ := ihBelow there List.drop_zero inside
      exact ⟨turns + 1, state, by simp only [Branches.turns]; omega, .head enter path, done⟩
    | none =>
      -- all that hangs below the child is compiled before the walk comes to the empty input
      have later : rest.missing id (place + 1) = some error := by
        simpa [Branches.missing, inside] using missing
      have descend := Leads.head enter (leads_compile unfolds there List.drop_zero inside)
      have path := descend.trans (.single (compileStep_leave there (by simp)))
      obtain ⟨turns, state, lt, path', done⟩ := ihRest found left later
      exact ⟨_, state, by simp only [Branches.turns]; omega, path.trans path', done⟩

theorem Unfolds.turns_eq (h : scene.Unfolds slots branches) : branches.turns = slots.length +
    branches.ids.length + (branches.nodes.flatMap Node.inputs).length := by
  induction h with
  | nil => rfl
  | empty _ ih =>
    simp only [Branches.turns, Branches.ids_empty, Branches.nodes, List.length_cons]
    omega
  | literal _ ih =>
    simp only [Branches.turns, Branches.ids_literal, Branches.nodes, List.length_cons]
    omega
  | child _ _ _ ihBelow ihRest =>
    simp only [Branches.turns, Branches.ids_child, Branches.nodes, List.flatMap_cons,
      List.flatMap_append, List.length_cons, List.length_append] at *
    omega

theorem Unfolds.length_arguments (h : scene.Unfolds slots branches)
    (complete : branches.missing id place = none) :
    (branches.arguments name).length = slots.length := by
  induction h generalizing place with
  | nil => rfl
  | empty => simp [Branches.missing] at complete
  | literal _ ih => simp [Branches.arguments, ih complete]
  | child _ _ _ _ ih => simp [Branches.arguments, ih (Option.or_eq_none_iff.mp complete).2]

theorem Forest.turns_lt (h : scene.Forest loose) (found : scene.node? scene.root = some root)
    (unfolds : scene.Unfolds root.inputs branches) :
    branches.turns < scene.liveNodes.length + scene.slotCount := by
  have tree := h.unfolds_self found unfolds
  have nodup := h.nodup_ids_slot tree
  have nodes := tree.length_le_live nodup
  have inputs := tree.length_inputs_le_slotCount nodup
  have turns := unfolds.turns_eq
  simp only [Branches.ids_child, Branches.nodes, List.flatMap_cons, List.flatMap_append,
    List.length_cons, List.length_append] at nodes inputs
  omega

theorem course_of_missing (found : scene.node? scene.root = some root)
    (unfolds : scene.Unfolds root.inputs branches)
    (missing : branches.missing scene.root 0 = some error) : ∃ states,
      Course scene.compileStep (#[], [.enter scene.root "node"]) states (.error error) ∧
        states.length ≤ branches.turns := by
  obtain ⟨turns, state, lt, path, done⟩ := leads_missing unfolds found List.drop_zero missing
  obtain ⟨states, course, length⟩ := path.exists_course done
  exact ⟨states, course, by omega⟩

/-- The walk over a scene without an empty input comes to all inputs, and then leaves the root. -/
theorem Forest.course_of_complete (h : scene.Forest loose)
    (found : scene.node? scene.root = some root) (unfolds : scene.Unfolds root.inputs branches)
    (complete : branches.missing scene.root 0 = none) : ∃ states result,
      branches.arguments "node" = [result] ∧
        Course scene.compileStep (#[], [.enter scene.root "node"]) states
          (.ok ⟨branches.code "node", result⟩) ∧ states.length = branches.turns + 1 := by
  have fits := h.fits found
  have length : (branches.arguments "node").length = root.inputs.length :=
    unfolds.length_arguments complete
  rw [fits.length_inputs, fits.operator_root rfl] at length
  obtain ⟨result, eq⟩ := List.length_eq_one_iff.mp length
  have path : Leads scene.compileStep branches.turns (#[], [⟨scene.root, "node", 0, []⟩])
      (#[] ++ branches.code "node",
        [⟨scene.root, "node", 0 + root.inputs.length, [] ++ branches.arguments "node"⟩]) :=
    leads_compile unfolds found List.drop_zero complete
  have done : scene.compileStep ((#[] : Array Assignment) ++ branches.code "node",
      [⟨scene.root, "node", 0 + root.inputs.length, [] ++ branches.arguments "node"⟩]) =
        .done (.ok ⟨branches.code "node", result⟩) := by
    have isRoot : root.isRoot := by simpa [Node.isRoot] using fits.kind_iff.mpr rfl
    simp [compileStep, node_eq_ok_iff.mpr found, leave, isRoot, eq]
  obtain ⟨states, course, turns⟩ := path.exists_course done
  exact ⟨states, result, eq, course, turns⟩

theorem Forest.compile_eq_error (h : scene.Forest loose)
    (found : scene.node? scene.root = some root) (unfolds : scene.Unfolds root.inputs branches)
    (missing : branches.missing scene.root 0 = some error) : scene.compile = .error error := by
  obtain ⟨states, course, le⟩ := course_of_missing found unfolds missing
  rw [compile, course.run_eq (le.trans (h.turns_lt found unfolds).le)]

theorem Forest.compile_eq_ok (h : scene.Forest loose) (found : scene.node? scene.root = some root)
    (unfolds : scene.Unfolds root.inputs branches)
    (complete : branches.missing scene.root 0 = none) :
    ∃ result, branches.arguments "node" = [result] ∧
      scene.compile = .ok ⟨branches.code "node", result⟩ := by
  obtain ⟨states, result, eq, course, turns⟩ := h.course_of_complete found unfolds complete
  refine ⟨result, eq, ?_⟩
  rw [compile, course.run_eq (turns ▸ h.turns_lt found unfolds)]

/-- A program is what the tree below the root is compiled to. -/
structure Compiles (scene : Scene) (root : Node) (branches : Branches) (program : Program) :
    Prop where
  found : scene.node? scene.root = some root
  unfolds : scene.Unfolds root.inputs branches
  complete : branches.missing scene.root 0 = none
  result : branches.arguments "node" = [program.result]
  assignments : program.assignments = branches.code "node"

theorem Forest.exists_compiles (h : scene.Forest loose) {program : Program}
    (compiled : scene.compile = .ok program) :
    ∃ root branches, scene.Compiles root branches program := by
  obtain ⟨root, found⟩ := h.root_live
  obtain ⟨branches, unfolds⟩ := h.exists_unfolds found
  cases missing : branches.missing scene.root 0 with
  | some error =>
    rw [h.compile_eq_error found unfolds missing] at compiled
    cases compiled
  | none =>
    obtain ⟨result, eq, run⟩ := h.compile_eq_ok found unfolds missing
    rw [run] at compiled
    cases compiled
    exact ⟨root, branches, found, unfolds, missing, eq, rfl⟩

def ballProgram : Program where
  assignments :=
    [⟨.vec3, "node_ball_p", "sample_point", []⟩,
      ⟨.scalar, "node_ball", "sdf_sphere", [.var "node_ball_p", .literal (.scalar 1)]⟩]
  result := .var "node_ball"

theorem compile_ball : ball.compile = .ok ballProgram := by decide +kernel

end Scene

end DistanceField
