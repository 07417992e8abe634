import DistanceField.Proofs.Program.Variables

/-!
# Emission by plain recursion

The text of a scene is written down once more by a recursion that goes from node to node with no
stack of its own and asks for the local name of each child after the child has been compiled. It is
cut off below some depth, but as many levels as there are nodes suffice: on every scene that can be
reached it then ends with the text or the error of the walk. Every frame of the walk bears the local
name of its node.
-/

namespace DistanceField

/-- The result of a recursion that may be cut off, or end with an error. -/
abbrev Emission := ExceptT CompileError Option

namespace Emission

variable {α : Type}

def ofScene (answer : Except SceneError α) : Emission α := ExceptT.mk (some (answer.mapError .scene))

def cutOff : Emission α := ExceptT.mk none

@[simp] theorem ofScene_ok (value : α) : ofScene (.ok value) = pure value := rfl

end Emission

namespace Scene
open Emission

/-- The lines for all that hangs in some inputs of a node, the first of which is number `slot`, and
the arguments that these inputs hold. Nodes more than `depth` levels below are not visited. -/
def emit (scene : Scene) : Nat → NodeId → Nat → List Slot → Emission (List String × List String)
  | _, _, _, [] => return ([], [])
  | _, id, slot, .empty :: _ => throw (.missingInput id slot)
  | depth, id, slot, .literal value :: slots => do
    let (lines, arguments) ← emit scene depth id (slot + 1) slots
    return (lines, value.expression :: arguments)
  | 0, _, _, .child _ :: _ => cutOff
  | depth + 1, id, slot, .child child :: slots => do
    let node ← ofScene (scene.node child)
    let (below, passed) ← emit scene depth child 0 node.inputs
    let name ← ofScene (scene.localName child)
    let line := "    " ++ node.operator.output.text ++ " " ++ name ++ " = " ++
      node.operator.symbol ++ "(" ++ ", ".intercalate passed ++ ");\n"
    let (lines, arguments) ← emit scene (depth + 1) id (slot + 1) slots
    return (below ++ line :: lines, name :: arguments)
termination_by depth _ _ slots => (depth, slots)

def emitBody (scene : Scene) (depth : Nat) : Emission (String × Nat) := do
  let root ← ofScene (scene.node scene.root)
  let (lines, arguments) ← emit scene depth scene.root 0 root.inputs
  return (String.join lines ++ "    return " ++ ", ".intercalate arguments ++ ";\n", lines.length)

end Scene

namespace Branches

def depth : Branches → Nat
  | nil => 0
  | empty rest => rest.depth
  | literal _ rest => rest.depth
  | child _ below rest => max (below.depth + 1) rest.depth

theorem depth_le_length_ids (branches : Branches) : branches.depth ≤ branches.ids.length := by
  induction branches with
  | nil => exact Nat.le_refl _
  | empty rest ih => exact ih
  | literal value rest ih => exact ih
  | child node below rest ihBelow ihRest =>
    rw [depth, ids_child, List.length_cons, List.length_append]
    omega

/-- What the recursion makes of a tree in which no input is empty. -/
def emitted (name : String) (branches : Branches) : List String × List String :=
  ((branches.code name).map Assignment.text, (branches.arguments name).map Argument.text)

end Branches

namespace Scene
open Emission
open Turn (Leads)

variable {scene : Scene} {loose : List NodeId} {slots : List Slot} {branches : Branches}
  {node root : Node} {error : CompileError} {id : NodeId} {place turns depth : Nat} {name : String}
  {code : Array Assignment} {stack : List Frame} {frame : Frame}

theorem emit_child {child : NodeId} {below : List String × List String}
    (found : scene.node? child = some node) (localName : scene.localName child = .ok name)
    (inner : scene.emit depth child 0 node.inputs = pure below) :
    scene.emit (depth + 1) id place (.child child :: slots) = (do
      let rest ← scene.emit (depth + 1) id (place + 1) slots
      let line := "    " ++ node.operator.output.text ++ " " ++ name ++ " = " ++
        node.operator.symbol ++ "(" ++ ", ".intercalate below.2 ++ ");\n"
      return (below.1 ++ line :: rest.1, name :: rest.2)) := by
  rw [emit, node_eq_ok_iff.mpr found, ofScene_ok, pure_bind, inner, pure_bind, localName]
  rfl

theorem exists_depth_of_child {below rest : Branches}
    (enough : (Branches.child node below rest).depth ≤ depth) :
    ∃ less, depth = less + 1 ∧ below.depth ≤ less ∧ rest.depth ≤ less + 1 := by
  rw [Branches.depth] at enough
  exact ⟨depth - 1, by omega, by omega, by omega⟩

/-- Where no input is empty the recursion makes the assignments of the tree. -/
theorem Unfolds.emit_complete (h : scene.Unfolds slots branches) (named : branches.Named scene name)
    (enough : branches.depth ≤ depth) (complete : branches.missing id place = none) :
    scene.emit depth id place slots = pure (branches.emitted name) := by
  induction h generalizing id place name depth with
  | nil =>
    rw [emit]
    rfl
  | empty => simp [Branches.missing] at complete
  | literal _ ih =>
    have onward := ih named enough complete
    rw [emit, onward]
    rfl
  | @child below slots tree rest found _ _ ihBelow ihRest =>
    obtain ⟨localName, namedBelow, namedRest⟩ := named
    obtain ⟨completeBelow, completeRest⟩ := Option.or_eq_none_iff.mp complete
    obtain ⟨less, rfl, enoughBelow, enoughRest⟩ := exists_depth_of_child enough
    have inner := ihBelow namedBelow enoughBelow completeBelow
    have onward := ihRest namedRest enoughRest completeRest
    rw [emit_child found localName inner, onward, pure_bind]
    simp [Branches.emitted, Branches.code, Branches.arguments, Assignment.text_eq, Argument.text]

/-- Where an input is empty the recursion fails at the first one. -/
theorem Unfolds.emit_missing (h : scene.Unfolds slots branches) (named : branches.Named scene name)
    (enough : branches.depth ≤ depth) (missing : branches.missing id place = some error) :
    scene.emit depth id place slots = throw error := by
  induction h generalizing id place name depth with
  | nil => simp [Branches.missing] at missing
  | empty _ _ =>
    obtain rfl := Option.some.inj missing
    rw [emit]
  | literal _ ih =>
    have onward := ih named enough missing
    rw [emit, onward]
    rfl
  | @child below slots tree rest found unfolds _ ihBelow ihRest =>
    obtain ⟨localName, namedBelow, namedRest⟩ := named
    obtain ⟨less, rfl, enoughBelow, enoughRest⟩ := exists_depth_of_child enough
    cases inside : tree.missing below.id 0 with
    | some first =>
      obtain rfl : first = error := by simpa [Branches.missing, inside] using missing
      rw [emit, node_eq_ok_iff.mpr found, ofScene_ok, pure_bind,
        ihBelow namedBelow enoughBelow inside]
      rfl
    | none =>
      have later : rest.missing id (place + 1) = some error := by
        simpa [Branches.missing, inside] using missing
      rw [emit_child found localName (unfolds.emit_complete namedBelow enoughBelow inside),
        ihRest namedRest enoughRest later]
      rfl

/-- A frame bears the local name of its node, and so will the frames below it. -/
def Follows (scene : Scene) (frame : Frame) : Prop :=
  scene.localName frame.id = .ok frame.name ∧ ∃ node branches, scene.node? frame.id = some node ∧
    scene.Unfolds node.inputs branches ∧ branches.Named scene frame.name

theorem Unfolds.follows_child {child : NodeId} (h : scene.Unfolds slots branches)
    (named : branches.Named scene name) (mem : Slot.child child ∈ slots)
    (found : scene.node? child = some node) :
    scene.Follows (.enter child (Branches.variableBelow name node)) := by
  induction h with
  | nil => cases mem
  | empty _ ih =>
    cases mem with
    | tail _ mem => exact ih named mem
  | literal _ ih =>
    cases mem with
    | tail _ mem => exact ih named mem
  | @child below slots tree rest there unfolds _ _ ih =>
    obtain ⟨localName, namedBelow, namedRest⟩ := named
    rcases List.mem_cons.mp mem with eq | mem
    · cases eq
      obtain rfl := Option.some.inj (there.symm.trans found)
      exact ⟨localName, below, tree, there, unfolds, namedBelow⟩
    · exact ih namedRest mem

theorem follows_of_compileStep {code' : Array Assignment} {stack' : List Frame}
    (follows : ∀ frame ∈ stack, scene.Follows frame)
    (turn : scene.compileStep (code, stack) = .next (code', stack')) :
    ∀ frame ∈ stack', scene.Follows frame := by
  cases stack with
  | nil => simp [compileStep] at turn
  | cons top stack =>
    obtain ⟨followsTop, followsRest⟩ := List.forall_mem_cons.mp follows
    obtain ⟨localName, node, branches, found, unfolds, named⟩ := id followsTop
    simp only [compileStep, node_eq_ok_iff.mpr found] at turn
    cases entry : node.inputs[top.slot]? with
    | none =>
      rw [entry] at turn
      cases stack with
      | nil =>
        simp only [leave] at turn
        split at turn <;> cases turn
      | cons parent stack =>
        cases turn
        obtain ⟨followsParent, followsRest⟩ := List.forall_mem_cons.mp followsRest
        exact List.forall_mem_cons.mpr ⟨followsParent, followsRest⟩
    | some value =>
      rw [entry] at turn
      cases value with
      | empty => cases turn
      | literal value =>
        cases turn
        exact List.forall_mem_cons.mpr ⟨followsTop, followsRest⟩
      | child child =>
        have mem : Slot.child child ∈ node.inputs := List.mem_of_getElem? entry
        cases there : scene.node child with
        | error error =>
          simp only [there] at turn
          cases turn
        | ok below =>
          simp only [there] at turn
          cases turn
          have followsChild := unfolds.follows_child named mem (node_eq_ok_iff.mp there)
          exact List.forall_mem_cons.mpr
            ⟨followsChild, List.forall_mem_cons.mpr ⟨followsTop, followsRest⟩⟩

theorem follows_of_leads {state : Array Assignment × List Frame}
    (follows : ∀ frame ∈ stack, scene.Follows frame)
    (path : Leads scene.compileStep turns (code, stack) state) :
    ∀ frame ∈ state.2, scene.Follows frame := by
  generalize start : (code, stack) = first at path
  induction path generalizing code stack with
  | refl =>
    subst start
    exact follows
  | head turn _ ih =>
    subst start
    exact ih (follows_of_compileStep follows turn) rfl

/-- The walk gives the text and the number of variables, or the error, that the recursion gives; and
on every frame that the walk ever holds stands the local name of its node. -/
theorem emitBody_eq_compile (h : Reachable scene) :
    (∀ depth ≥ scene.liveNodes.length, (scene.emitBody depth).run =
      some (scene.compile.map fun program => (program.body, program.assignments.length))) ∧
    ∀ turns code stack, Leads scene.compileStep turns (#[], [.enter scene.root "node"]) (code, stack) →
      ∀ frame ∈ stack, scene.localName frame.id = .ok frame.name := by
  obtain ⟨root, found⟩ := h.forest.root_live
  obtain ⟨branches, unfolds⟩ := h.forest.exists_unfolds found
  obtain ⟨localName, named⟩ := h.forest.named_root found unfolds
  constructor
  · intro depth levels
    have enough : branches.depth ≤ depth := by
      have tree := h.forest.unfolds_self found unfolds
      have nodes := tree.length_le_live (h.forest.nodup_ids_slot tree)
      have inner := branches.depth_le_length_ids
      simp only [Branches.ids_child, List.length_cons, List.length_append] at nodes
      omega
    cases missing : branches.missing scene.root 0 with
    | some error =>
      rw [h.forest.compile_eq_error found unfolds missing, emitBody, node_eq_ok_iff.mpr found,
        ofScene_ok, pure_bind, unfolds.emit_missing named enough missing]
      rfl
    | none =>
      obtain ⟨result, eq, compiled⟩ := h.forest.compile_eq_ok found unfolds missing
      rw [compiled, emitBody, node_eq_ok_iff.mpr found, ofScene_ok, pure_bind,
        unfolds.emit_complete named enough missing, pure_bind]
      simp [Branches.emitted, eq, Except.map, Program.body_eq_append, String.append_assoc]
  · intro turns code stack path
    have start : ∀ frame ∈ [Frame.enter scene.root "node"], scene.Follows frame :=
      List.forall_mem_singleton.mpr ⟨localName, root, branches, found, unfolds, named⟩
    exact fun frame mem => (follows_of_leads start path frame mem).1

theorem emitBody_ball : (ball.emitBody 3).run = some (.ok
    ("    vec3 node_ball_p = sample_point();\n" ++
      "    float node_ball = sdf_sphere(node_ball_p, 1.0);\n    return node_ball;\n", 2)) := by
  have levels : 3 ≥ ball.liveNodes.length := by decide +kernel
  rw [(emitBody_eq_compile reachable_ball).1 3 levels, compile_ball]
  decide +kernel

end Scene

end DistanceField
