import DistanceField.Operator

/-!
# Scenes

A scene is a tree of operator nodes below one root. The nodes lie in an arena: an identifier is the
tag of its scene and a position in the arena, and a destroyed node leaves a hole that is never
filled again. A child hangs in an input of its parent, and the two name each other. Nothing here
guarantees that the links fit together; the edits keep that they do.
-/

namespace DistanceField

/-- The identifier of a node: the tag of its scene and its position there. -/
structure NodeId where
  tag : Nat
  index : Nat
  deriving DecidableEq, Repr

def NodeId.text (id : NodeId) : String := "#" ++ toString id.index

inductive Slot where
  | empty
  | literal (value : Literal)
  | child (id : NodeId)
  deriving DecidableEq

namespace Slot

def child? : Slot → Option NodeId
  | child id => some id
  | _ => none

/-- What an input of a fresh node holds. -/
def ofDefault : Option Literal → Slot
  | none => empty
  | some value => literal value

def same : Slot → Slot → Bool
  | empty, empty => true
  | literal a, literal b => a.same b
  | child a, child b => a = b
  | _, _ => false

end Slot

inductive NodeKind where
  | root
  | operator
  deriving DecidableEq, Repr

/-- A node. `slot` is the input of the parent in which it hangs, and zero for the root. -/
structure Node where
  id : NodeId
  name : String
  kind : NodeKind
  operator : Operator
  parent : Option NodeId
  slot : Nat
  inputs : List Slot
  deriving DecidableEq

namespace Node

def isRoot (node : Node) : Bool := node.kind = .root

def children (node : Node) : List NodeId := node.inputs.filterMap Slot.child?

def same (a b : Node) : Bool :=
  a.id = b.id && a.name = b.name && a.kind = b.kind && a.operator.same b.operator &&
    a.parent = b.parent && a.slot = b.slot && a.inputs.length = b.inputs.length &&
    (a.inputs.zip b.inputs).all fun (x, y) => x.same y

end Node

/-- A scene. The arena holds a node or a hole for every identifier that was given out; `live` counts
the nodes. -/
structure Scene where
  tag : Nat
  nodes : Array (Option Node)
  live : Nat
  deriving DecidableEq

inductive SceneError where
  | slotOutOfRange (slot arity : Nat)
  | typeMismatch (expected found : ValueType)
  | cycleDetected (node target : NodeId)
  | rootDeletionForbidden
  | rootIsImmovable
  | notFound (id : NodeId)
  | invalidName (name : String)
  | duplicateName (name : String)
  | nonFiniteLiteral
  /-- The links of the scene do not fit together. Edits of a new scene never lead there. -/
  | inconsistent
  deriving DecidableEq

def SceneError.message : SceneError → String
  | slotOutOfRange slot arity =>
    s!"slot {slot} is out of range for an operator with {arity} input(s)"
  | typeMismatch expected found => s!"slot expects `{expected.text}`, got `{found.text}`"
  | cycleDetected node target =>
    s!"moving node {node.text} under {target.text} would create a cycle"
  | rootDeletionForbidden => "the scene root cannot be deleted"
  | rootIsImmovable => "the scene root cannot be moved"
  | notFound id => s!"node {id.text} not found"
  | invalidName name =>
    s!"invalid node name `{name}` (expected non-empty ASCII alphanumerics)"
  | duplicateName name => s!"a sibling named `{name}` already exists"
  | nonFiniteLiteral => "literal has a non-finite component"
  | inconsistent => "the scene is inconsistent"

namespace Scene

def root (scene : Scene) : NodeId := ⟨scene.tag, 0⟩

def new (tag : Nat) : Scene where
  tag := tag
  nodes := #[some {
    id := ⟨tag, 0⟩
    name := "root"
    kind := .root
    operator := .sceneRoot
    parent := none
    slot := 0
    inputs := [.empty] }]
  live := 1

def nodeAt? (scene : Scene) (index : Nat) : Option Node := scene.nodes[index]?.join

/-- The node with an identifier; an identifier of another scene names none. -/
def node? (scene : Scene) (id : NodeId) : Option Node :=
  if id.tag = scene.tag then scene.nodeAt? id.index else none

def node (scene : Scene) (id : NodeId) : Except SceneError Node :=
  match scene.node? id with
  | some node => .ok node
  | none => .error (.notFound id)

def size (scene : Scene) : Nat := scene.live

/-- Whether only the root is left. -/
def isEmpty (scene : Scene) : Bool := scene.live = 1

def liveNodes (scene : Scene) : List Node := scene.nodes.toList.filterMap id

def ids (scene : Scene) : List NodeId := scene.liveNodes.map Node.id

def slotCount (scene : Scene) : Nat := (scene.liveNodes.flatMap Node.inputs).length

def children (scene : Scene) (id : NodeId) : Except SceneError (List NodeId) :=
  (scene.node id).map Node.children

/-- Whether two scenes have one tag and agree in every place of the arena, literals by value. -/
def same (a b : Scene) : Bool :=
  a.tag = b.tag && a.live = b.live && a.nodes.size = b.nodes.size &&
    (a.nodes.zip b.nodes).all fun
      | (some x, some y) => x.same y
      | (none, none) => true
      | _ => false

@[simp] theorem node_eq_ok_iff {scene : Scene} {id : NodeId} {found : Node} :
    scene.node id = .ok found ↔ scene.node? id = some found := by
  unfold node
  cases scene.node? id <;> simp

theorem mem_liveNodes {scene : Scene} {node : Node} :
    node ∈ scene.liveNodes ↔ ∃ index, scene.nodeAt? index = some node := by
  simp only [liveNodes, List.mem_filterMap, id_eq, exists_eq_right, nodeAt?, Array.mem_toList_iff,
    Array.mem_iff_getElem?, Option.join_eq_some_iff]

end Scene

end DistanceField
