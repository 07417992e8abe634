import DistanceField.Program.Basic
import DistanceField.Scene.Search

/-!
# Compilation of scenes

The tree is walked with the inputs of each node in their order, and a node is assigned after all
its inputs, so every variable is assigned before its one use. The walk keeps its own stack, and the
names of the variables grow on the way down. It takes one turn for each input and one for each node.
-/

namespace DistanceField

inductive CompileError where
  /-- An input holds neither a child nor a literal. -/
  | missingInput (node : NodeId) (slot : Nat)
  | scene (error : SceneError)
  deriving DecidableEq

def CompileError.message : CompileError → String
  | missingInput node slot => s!"node {node.text} has nothing in input slot {slot}"
  | scene error => error.message

/-- A node whose inputs are being visited: the next input and the arguments gathered so far. -/
structure Frame where
  id : NodeId
  name : String
  slot : Nat
  arguments : List Argument

namespace Frame

def enter (id : NodeId) (name : String) : Frame := ⟨id, name, 0, []⟩

def give (frame : Frame) (argument : Argument) : Frame :=
  { frame with arguments := frame.arguments ++ [argument] }

def advance (frame : Frame) : Frame := { frame with slot := frame.slot + 1 }

end Frame

namespace Scene

/-- The end of the visit of a node: the root yields the program, any other node an assignment whose
variable is an argument of the node below it on the stack. -/
def leave (code : Array Assignment) (node : Node) (top : Frame) :
    List Frame → Turn (Array Assignment × List Frame) (Except CompileError Program)
  -- Nothing lies below the frame of the root.
  | [] =>
    match node.isRoot, top.arguments with
    | true, [result] => .done (.ok ⟨code.toList, result⟩)
    | _, _ => .done (.error (.scene .inconsistent))
  | parent :: stack =>
    .next (code.push ⟨node.operator.output, top.name, node.operator.symbol, top.arguments⟩,
      parent.give (.var top.name) :: stack)

/-- One turn of the walk: the assignments made and the nodes being visited. -/
def compileStep (scene : Scene) : Array Assignment × List Frame →
    Turn (Array Assignment × List Frame) (Except CompileError Program)
  | (_, []) => .done (.error (.scene .inconsistent))
  | (code, top :: stack) =>
    match scene.node top.id with
    | .error error => .done (.error (.scene error))
    | .ok node =>
      match node.inputs[top.slot]? with
      | none => leave code node top stack
      | some .empty => .done (.error (.missingInput top.id top.slot))
      | some (.literal value) => .next (code, (top.give (.literal value)).advance :: stack)
      | some (.child child) =>
        match scene.node child with
        | .error error => .done (.error (.scene error))
        | .ok below =>
          .next (code, .enter child (top.name ++ "_" ++ below.name) :: top.advance :: stack)

def compile (scene : Scene) : Except CompileError Program :=
  -- No scene that edits lead to takes more turns.
  match Turn.run scene.compileStep (scene.liveNodes.length + scene.slotCount)
      (#[], [.enter scene.root "node"]) with
  | some (result, _) => result
  | none => .error (.scene .inconsistent)

def mapSource (scene : Scene) : Except CompileError String :=
  scene.compile.map fun program => Program.mapSource program.body

end Scene

end DistanceField
