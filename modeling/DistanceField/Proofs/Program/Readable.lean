import DistanceField.Proofs.Operator.Registered
import DistanceField.Proofs.Operator.Signature
import DistanceField.Proofs.Program.Statements

/-!
# Programs of scenes that are built from a registry

Names, symbols and literals of such a scene can all be read back from the text of its program.
-/

namespace DistanceField

namespace Branches

variable {registry : Registry} {branches : Branches} {name : String}

/-- A tree that shows in the text of its program: no input is empty, literals are finite and of
types of the shading language, and the operators are registered. -/
def Readable (registry : Registry) : Branches → Prop
  | nil => True
  | empty _ => False
  | literal value rest => (value.isFinite ∧ value.type ≠ .root) ∧ rest.Readable registry
  | child node below rest => node.operator ∈ registry.operators ∧ below.Readable registry ∧
      rest.Readable registry

theorem Readable.spelled (h : branches.Readable registry)
    (accepted : ∀ operator ∈ registry.operators, operator.Accepted) (labelled : branches.Labelled)
    (word : IsWord name) :
    (∀ argument ∈ branches.arguments name, argument.Spelled) ∧
      ∀ assignment ∈ branches.code name, assignment.Spelled := by
  induction branches generalizing name with
  | nil => exact ⟨by simp [arguments], by simp [code]⟩
  | empty => exact h.elim
  | literal value rest ih =>
    obtain ⟨fine, readable⟩ := h
    obtain ⟨arguments, code⟩ := ih readable labelled word
    exact ⟨List.forall_mem_cons.mpr ⟨fine, arguments⟩, code⟩
  | child node below rest ihBelow ihRest =>
    obtain ⟨registered, readableBelow, readableRest⟩ := h
    obtain ⟨valid, -, labelledBelow, labelledRest⟩ := labelled
    have word' := isWord_variableBelow word valid
    obtain ⟨passed, inner⟩ := ihBelow readableBelow labelledBelow word'
    obtain ⟨arguments, code⟩ := ihRest readableRest labelledRest word
    have symbol := (accepted _ registered).isIdentifier_symbol
    refine ⟨List.forall_mem_cons.mpr ⟨word', arguments⟩, ?_⟩
    exact List.forall_mem_append.mpr
      ⟨inner, List.forall_mem_cons.mpr ⟨⟨word', symbol, passed⟩, code⟩⟩

end Branches

namespace Scene

variable {scene : Scene} {registry : Registry} {slots : List Slot} {branches : Branches}
  {node root : Node} {id : NodeId} {place : Nat} {program : Program}

/-- All operators of a scene come from a registry, the one behind the root apart. -/
def BuiltFrom (registry : Registry) (scene : Scene) : Prop :=
  ∀ {id node}, scene.node? id = some node → id ≠ scene.root → node.operator ∈ registry.operators

theorem builtFrom_of_liveNodes (h : scene.Forest [])
    (all : ∀ node ∈ scene.liveNodes, node.isRoot ∨ node.operator ∈ registry.operators) :
    BuiltFrom registry scene := by
  intro id node found notRoot
  obtain ⟨-, entry⟩ := node?_eq_some_iff.mp found
  rcases all node (mem_liveNodes.mpr ⟨id.index, by simp [nodeAt?, entry]⟩) with isRoot | registered
  · exact absurd ((h.fits found).isRoot_iff.mp isRoot) notRoot
  · exact registered

theorem Forest.readable (h : scene.Forest []) (unfolds : scene.Unfolds slots branches)
    (found : scene.node? id = some node) (left : node.inputs.drop place = slots)
    (complete : branches.missing id place = none) (built : BuiltFrom registry scene) :
    branches.Readable registry := by
  induction unfolds generalizing id node place with
  | nil => trivial
  | empty => cases complete
  | literal _ ih =>
    obtain ⟨here, left⟩ := next_of_drop left
    obtain ⟨type, finite⟩ := (h.fits found).literal here
    refine ⟨⟨finite, fun root => ?_⟩, ih found left complete⟩
    exact h.not_takes_root ⟨node, found, root ▸ type⟩
  | @child below slots tree rest there _ _ ihBelow ihRest =>
    obtain ⟨here, left⟩ := next_of_drop left
    obtain ⟨completeBelow, completeRest⟩ := Option.or_eq_none_iff.mp complete
    have notRoot : below.id ≠ scene.root :=
      fun eq => h.not_parentOf_top (.inl rfl) (eq ▸ Holds.parentOf ⟨node, found, here⟩)
    exact ⟨built there notRoot, ihBelow there List.drop_zero completeBelow,
      ihRest found left completeRest⟩

theorem Compiles.readable (compiles : scene.Compiles root branches program)
    (h : scene.Forest []) (built : BuiltFrom registry scene) : branches.Readable registry :=
  h.readable compiles.unfolds compiles.found List.drop_zero compiles.complete built

/-- Programs of scenes that are built from accepted operators show in their texts. -/
theorem Compiles.spelled_of_accepted (compiles : scene.Compiles root branches program)
    (h : scene.Forest []) (built : BuiltFrom registry scene)
    (accepted : ∀ operator ∈ registry.operators, operator.Accepted) : program.Spelled := by
  obtain ⟨arguments, code⟩ :=
    (compiles.readable h built).spelled accepted (compiles.labelled h) isWord_node
  rw [compiles.result] at arguments
  rw [← compiles.assignments] at code
  exact ⟨code, List.forall_mem_singleton.mp arguments⟩

theorem Compiles.spelled (compiles : scene.Compiles root branches program) (h : scene.Forest [])
    (built : BuiltFrom registry scene) (reached : registry.Reached) : program.Spelled :=
  compiles.spelled_of_accepted h built fun _ => reached.accepted

def ballRegistry : Registry := (Registry.empty.after Builtin.samplePoint).after Builtin.sphere

theorem reached_ballRegistry : ballRegistry.Reached :=
  (Registry.Reached.empty.step Builtin.samplePoint).step Builtin.sphere

theorem builtFrom_ball : BuiltFrom ballRegistry ball :=
  builtFrom_of_liveNodes reachable_ball.forest (by decide +kernel)

end Scene

end DistanceField
