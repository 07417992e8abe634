import DistanceField.Scene.Search

/-!
# Edits

An edit reads and changes a scene and may stop with an error; what it wrote until then stays
written. Every edit makes all its checks before the first write, and on a scene whose links fit
together no write fails, so an edit that fails leaves the scene as it was.
-/

namespace DistanceField

abbrev Edit := EStateM SceneError Scene

namespace Scene

/-- Whether a name may be given to a node: letters and digits, at least one. -/
def validName (name : String) : Bool := !name.isEmpty && name.toList.all Char.isAlphanum

def checkName (name : String) : Except SceneError Unit :=
  if validName name then .ok () else .error (.invalidName name)

def checkSlot (scene : Scene) (parent : NodeId) (slot : Nat) (type : ValueType) :
    Except SceneError Unit := do
  let node ← scene.node parent
  match node.operator.inputs[slot]? with
  | none => throw (.slotOutOfRange slot node.operator.arity)
  | some expected => if expected ≠ type then throw (.typeMismatch expected type)

/-- Refuses a name that a child in one of the inputs bears, the first of which is number `index`.
The child in `slot` does not count, since it is about to go, and neither does `ignore`. -/
def checkSiblings (scene : Scene) (slot : Nat) (name : String) (ignore : Option NodeId)
    (index : Nat) : List Slot → Except SceneError Unit
  | [] => .ok ()
  | .child child :: inputs => do
    if index ≠ slot ∧ some child ≠ ignore then
      let sibling ← scene.node child
      if sibling.name = name then throw (.duplicateName name)
    checkSiblings scene slot name ignore (index + 1) inputs
  | _ :: inputs => checkSiblings scene slot name ignore (index + 1) inputs

def checkSiblingName (scene : Scene) (parent : NodeId) (slot : Nat) (name : String)
    (ignore : Option NodeId) : Except SceneError Unit := do
  let node ← scene.node parent
  scene.checkSiblings slot name ignore 0 node.inputs

def setNode (scene : Scene) (index : Nat) (node : Node) : Scene :=
  { scene with nodes := scene.nodes.setIfInBounds index (some node) }

/-- One turn of the destruction of a subtree: the arena, the nodes to be destroyed, and how many
have been. Of the children of a node the last one goes first. -/
def destroyStep : Array (Option Node) × List NodeId × Nat →
    Turn (Array (Option Node) × List NodeId × Nat) (Array (Option Node) × Nat)
  | (nodes, [], destroyed) => .done (nodes, destroyed)
  | (nodes, top :: stack, destroyed) =>
    match nodes[top.index]?.join with
    | none => .next (nodes, stack, destroyed)
    | some node =>
      .next (nodes.setIfInBounds top.index none, node.children.reverse ++ stack, destroyed + 1)

end Scene

namespace Edit
open Scene

/-- Ends with the error of a check that fails. -/
def check {α : Type} : Except SceneError α → Edit α
  | .ok value => pure value
  | .error error => throw error

def modifyNode (id : NodeId) (change : Node → Node) : Edit Unit := do
  let node ← check ((← get).node id)
  modify fun scene => scene.setNode id.index (change node)

def writeSlot (id : NodeId) (slot : Nat) (value : Slot) : Edit Unit := do
  let node ← check ((← get).node id)
  if slot < node.inputs.length then
    modify fun scene => scene.setNode id.index { node with inputs := node.inputs.set slot value }
  else throw .inconsistent

def destroy (top : NodeId) : Edit Unit := do
  let scene ← get
  -- Each node of a tree hangs in one input, so the turns suffice.
  match Turn.run destroyStep (scene.slotCount + 2) (scene.nodes, [top], 0) with
  | some ((nodes, destroyed), _) =>
    if destroyed ≤ scene.live then
      set { scene with nodes, live := scene.live - destroyed }
    else throw .inconsistent
  | none => throw .inconsistent

def discard (id : NodeId) (slot : Nat) : Edit Unit := do
  let node ← check ((← get).node id)
  writeSlot id slot .empty
  match node.inputs[slot]? with
  | some (.child child) => destroy child
  | _ => pure ()

def allocate (make : NodeId → Node) : Edit NodeId := do
  let scene ← get
  let id : NodeId := ⟨scene.tag, scene.nodes.size⟩
  set { scene with nodes := scene.nodes.push (some (make id)), live := scene.live + 1 }
  return id

/-- Creates a node of an operator in an input of `parent`. What the input held is destroyed; the
inputs of the new node hold the defaults of the operator. -/
def attach (name : String) (operator : Operator) (parent : NodeId) (slot : Nat) : Edit NodeId := do
  let scene ← get
  check (checkName name)
  check (scene.checkSlot parent slot operator.output)
  check (scene.checkSiblingName parent slot name none)
  discard parent slot
  let id ← allocate fun id =>
    { id, name, kind := .operator, operator, parent := some parent, slot
      inputs := operator.defaults.map Slot.ofDefault }
  writeSlot parent slot (.child id)
  return id

/-- Hangs a node, with all that is below it, into an input of `target`. What the input held is
destroyed. Nothing happens if the node hangs there already. -/
def move (id target : NodeId) (slot : Nat) : Edit Unit := do
  let scene ← get
  let node ← check (scene.node id)
  if node.isRoot then throw .rootIsImmovable
  check (scene.checkSlot target slot node.operator.output)
  if node.parent = some target ∧ node.slot = slot then return
  if scene.contains id target then throw (.cycleDetected id target)
  check (scene.checkSiblingName target slot node.name (some id))
  -- The input may hold an ancestor of the node, so the node is taken off first.
  if let some parent := node.parent then writeSlot parent node.slot .empty
  discard target slot
  writeSlot target slot (.child id)
  modifyNode id fun node => { node with parent := some target, slot }

/-- Destroys a node and all nodes below it; its input of the parent is left empty. -/
def delete (id : NodeId) : Edit Unit := do
  let node ← check ((← get).node id)
  if node.isRoot then throw .rootDeletionForbidden
  if let some parent := node.parent then writeSlot parent node.slot .empty
  destroy id

/-- Fills an input with a literal. A child in it is destroyed. -/
def setLiteral (id : NodeId) (slot : Nat) (literal : Literal) : Edit Unit := do
  check ((← get).checkSlot id slot literal.type)
  if !literal.isFinite then throw .nonFiniteLiteral
  discard id slot
  writeSlot id slot (.literal literal)

def clear (id : NodeId) (slot : Nat) : Edit Unit := do
  let node ← check ((← get).node id)
  if slot < node.inputs.length then discard id slot
  else throw (.slotOutOfRange slot node.inputs.length)

def rename (id : NodeId) (name : String) : Edit Unit := do
  let scene ← get
  check (checkName name)
  let node ← check (scene.node id)
  if let some parent := node.parent then
    check (scene.checkSiblingName parent node.slot name (some id))
  modifyNode id fun node => { node with name }

end Edit

end DistanceField
