import DistanceField.Loop
import DistanceField.Scene.Basic

/-!
# Search in scenes

Walks over a scene with an explicit stack, children in the order of the inputs. On a tree every
walk visits a node at most once, so it ends within one turn for each node and a last one that finds
the stack empty.
-/

namespace DistanceField.Scene

/-- One turn of the search for `target`: the stack holds the nodes to be looked at. -/
def findStep (scene : Scene) (target : NodeId) :
    List NodeId → Turn (List NodeId) (Except SceneError Node)
  | [] => .done (.error (.notFound target))
  | top :: stack =>
    match scene.node top with
    | .error error => .done (.error error)
    | .ok node => if top = target then .done (.ok node) else .next (node.children ++ stack)

/-- The node `target`, if it is `start` or hangs somewhere below it. -/
def find (scene : Scene) (start target : NodeId) : Except SceneError Node :=
  match Turn.run (scene.findStep target) (scene.nodes.size + 1) [start] with
  | some (found, _) => found
  | none => .error .inconsistent

def contains (scene : Scene) (start target : NodeId) : Bool :=
  match scene.find start target with
  | .ok _ => true
  | .error _ => false

def descendantsStep (scene : Scene) : List NodeId × List NodeId →
    Turn (List NodeId × List NodeId) (Except SceneError (List NodeId))
  | (seen, []) => .done (.ok seen.reverse)
  | (seen, top :: stack) =>
    match scene.children top with
    | .error error => .done (.error error)
    | .ok children => .next (top :: seen, children ++ stack)

/-- All nodes below a node, each before its children. -/
def descendants (scene : Scene) (id : NodeId) : Except SceneError (List NodeId) := do
  let children ← scene.children id
  match Turn.run scene.descendantsStep (scene.nodes.size + 1) ([], children) with
  | some (found, _) => found
  | none => .error .inconsistent

/-- One turn on the way up from a node; the names met so far, the topmost first. -/
def pathStep (scene : Scene) : Node × List String →
    Turn (Node × List String) (Except SceneError (List String))
  | (node, names) =>
    match node.parent with
    | none => .done (.ok names)
    | some parent =>
      match scene.node parent with
      | .error error => .done (.error error)
      | .ok above => .next (above, node.name :: names)

def path (scene : Scene) (id : NodeId) : Except SceneError (List String) := do
  let node ← scene.node id
  match Turn.run scene.pathStep (scene.nodes.size + 1) (node, []) with
  | some (names, _) => names
  | none => .error .inconsistent

/-- The name of the local variable that holds the value of a node: `node` and the names on the way
to it, joined by underscores. -/
def localName (scene : Scene) (id : NodeId) : Except SceneError String :=
  (scene.path id).map fun names => "_".intercalate ("node" :: names)

end DistanceField.Scene
