import DistanceField.Proofs.Operator.Extended
import DistanceField.Proofs.Program.Recursion
import DistanceField.Proofs.Scene.Setups

/-!
# The default scene, written out

As long as nothing is destroyed the arena of a scene is a list of nodes, and an edit of it is a
change of that list. The default scene is thus computed for every tag at once, from any registry
that knows the operators in it.
-/

namespace DistanceField

namespace Scene

def ofNodes (tag : Nat) (nodes : List Node) : Scene := ⟨tag, (nodes.map some).toArray, nodes.length⟩

def filled (nodes : List Node) (index slot : Nat) (value : Slot) : List Node :=
  nodes.modify index fun node => { node with inputs := node.inputs.set slot value }

variable {tag index slot : Nat} {nodes : List Node} {node : Node} {name : String}
  {operator : Operator} {value : Slot} {literal : Literal}

@[simp] theorem node?_ofNodes : (ofNodes tag nodes).node? ⟨tag, index⟩ = nodes[index]? := by
  cases entry : nodes[index]? <;> simp [ofNodes, node?, nodeAt?, entry]

theorem liveNodes_ofNodes : (ofNodes tag nodes).liveNodes = nodes := by
  simp [ofNodes, liveNodes, List.filterMap_map]

theorem length_filled : (filled nodes index slot value).length = nodes.length :=
  List.length_modify ..

theorem filled_self (slot : Nat) (value : Slot) (found : nodes[index]? = some node) :
    (filled nodes index slot value)[index]? =
      some { node with inputs := node.inputs.set slot value } := by
  simp [filled, found]

theorem filled_filled (value value' : Slot) :
    filled (filled nodes index slot value) index slot value' = filled nodes index slot value' := by
  simp [filled, List.modify_modify_eq, Function.comp_def]

@[simp] theorem filled_cons_zero : filled (node :: nodes) 0 slot value =
    { node with inputs := node.inputs.set slot value } :: nodes := List.modify_zero_cons ..

@[simp] theorem filled_cons_succ : filled (node :: nodes) (index + 1) slot value =
    node :: filled nodes index slot value := List.modify_succ_cons ..

theorem filled_append (slot : Nat) (value : Slot) (found : nodes[index]? = some node)
    (last : Node) :
    filled (nodes ++ [last]) index slot value = filled nodes index slot value ++ [last] := by
  induction nodes generalizing index with
  | nil => simp at found
  | cons first nodes ih =>
    cases index with
    | zero => simp
    | succ index => simpa using ih (by simpa using found)

theorem put_ofNodes (tag slot : Nat) (value : Slot) (found : nodes[index]? = some node) :
    (ofNodes tag nodes).put ⟨tag, index⟩ slot value =
      ofNodes tag (filled nodes index slot value) := by
  have same : (nodes.map some).set index (some { node with inputs := node.inputs.set slot value }) =
      (filled nodes index slot value).map some := by
    apply List.ext_getElem?
    intro place
    by_cases here : index = place
    · subst here
      obtain ⟨lt, eq⟩ := List.getElem?_eq_some_iff.mp found
      simp [filled, lt, eq]
    · simp [filled, here]
  rw [put, update, node?_ofNodes, found]
  simp only [setNode, ofNodes, List.setIfInBounds_toArray, same, length_filled]

theorem run_allocate_ofNodes (tag : Nat) (nodes : List Node) (make : NodeId → Node) :
    (Edit.allocate make).run (ofNodes tag nodes) =
      .ok ⟨tag, nodes.length⟩ (ofNodes tag (nodes ++ [make ⟨tag, nodes.length⟩])) := by
  simp only [Edit.allocate, EStateM.run_bind, Edit.run_get, Edit.run_set, Edit.run_pure]
  simp [ofNodes]

theorem run_writeSlot_ofNodes (tag : Nat) (value : Slot) (found : nodes[index]? = some node)
    (lt : slot < node.inputs.length) :
    (Edit.writeSlot ⟨tag, index⟩ slot value).run (ofNodes tag nodes) =
      .ok () (ofNodes tag (filled nodes index slot value)) := by
  rw [run_writeSlot value (node?_ofNodes.trans found) lt, put_ofNodes tag slot value found]

theorem run_discard_ofNodes (tag : Nat) (found : nodes[index]? = some node)
    (entry : node.inputs[slot]? = some value) (vacant : value.child? = none) :
    (Edit.discard ⟨tag, index⟩ slot).run (ofNodes tag nodes) =
      .ok () (ofNodes tag (filled nodes index slot .empty)) := by
  have noChild : ∀ child, value ≠ .child child := by
    rintro child rfl
    cases vacant
  rw [run_discard (node?_ofNodes.trans found) entry noChild, put_ofNodes tag slot .empty found]

theorem checkSlot_ofNodes (tag : Nat) {type : ValueType} (found : nodes[index]? = some node)
    (takes : node.operator.inputs[slot]? = some type) :
    (ofNodes tag nodes).checkSlot ⟨tag, index⟩ slot type = .ok () :=
  checkSlot_eq_ok_iff.mpr ⟨node, node?_ofNodes.trans found, takes⟩

/-- A node is attached to an input without a child. -/
theorem run_attach_ofNodes (tag : Nat) (valid : validName name) (found : nodes[index]? = some node)
    (takes : node.operator.inputs[slot]? = some operator.output)
    (unused : (ofNodes tag nodes).checkSiblings slot name none 0 node.inputs = .ok ())
    (entry : node.inputs[slot]? = some value) (vacant : value.child? = none) :
    (Edit.attach name operator ⟨tag, index⟩ slot).run (ofNodes tag nodes) = .ok ⟨tag, nodes.length⟩
      (ofNodes tag (filled nodes index slot (.child ⟨tag, nodes.length⟩) ++
        [freshNode ⟨tag, nodes.length⟩ name operator ⟨tag, index⟩ slot])) := by
  have lt : slot < (node.inputs.set slot .empty).length := by
    simpa using (List.getElem?_eq_some_iff.mp entry).1
  have siblings : (ofNodes tag nodes).checkSiblingName ⟨tag, index⟩ slot name none = .ok () := by
    rw [checkSiblingName, node_eq_ok_iff.mpr (node?_ofNodes.trans found)]
    exact unused
  have allocated := run_allocate_ofNodes tag (filled nodes index slot .empty)
    fun id => freshNode id name operator ⟨tag, index⟩ slot
  rw [length_filled] at allocated
  have owner : (filled nodes index slot .empty ++
      [freshNode ⟨tag, nodes.length⟩ name operator ⟨tag, index⟩ slot])[index]? =
        some { node with inputs := node.inputs.set slot .empty } := by
    have inside := (List.getElem?_eq_some_iff.mp found).1
    rw [List.getElem?_append_left (by rwa [length_filled]), filled_self slot .empty found]
  have written := run_writeSlot_ofNodes tag (.child ⟨tag, nodes.length⟩) owner lt
  rw [filled_append slot _ (filled_self slot .empty found), filled_filled] at written
  simp only [freshNode] at allocated written
  simp only [Edit.attach, EStateM.run_bind, Edit.run_get, checkName_eq_ok_iff.mpr valid,
    checkSlot_ofNodes tag found takes, siblings, Edit.run_check_ok,
    run_discard_ofNodes tag found entry vacant, allocated, written, Edit.run_pure, freshNode]

theorem run_setLiteral_ofNodes (tag : Nat) (found : nodes[index]? = some node)
    (takes : node.operator.inputs[slot]? = some literal.type) (finite : literal.isFinite)
    (entry : node.inputs[slot]? = some value) (vacant : value.child? = none) :
    (Edit.setLiteral ⟨tag, index⟩ slot literal).run (ofNodes tag nodes) =
      .ok () (ofNodes tag (filled nodes index slot (.literal literal))) := by
  have lt : slot < (node.inputs.set slot .empty).length := by
    simpa using (List.getElem?_eq_some_iff.mp entry).1
  have written := run_writeSlot_ofNodes tag (.literal literal) (filled_self slot .empty found) lt
  rw [filled_filled] at written
  simp only [Edit.setLiteral, EStateM.run_bind, Edit.run_get, checkSlot_ofNodes tag found takes,
    Edit.run_check_ok, finite, Bool.not_true, Bool.false_eq_true, if_false,
    run_discard_ofNodes tag found entry vacant, written]

end Scene

namespace Registry

/-- A registry knows the operators of the default scene by their symbols. -/
structure Knows (registry : Registry) : Prop where
  samplePoint : registry.get? "sample_point" = some (Builtin.samplePoint.named "sample_point")
  sphere : registry.get? "sdf_sphere" = some (Builtin.sphere.named "sdf_sphere")
  plane : registry.get? "sdf_plane" = some (Builtin.plane.named "sdf_plane")
  translate : registry.get? "op_translate" = some (Builtin.translate.named "op_translate")
  smoothUnion :
    registry.get? "op_smooth_union" = some (Builtin.smoothUnion.named "op_smooth_union")

/-- No definition takes over a built-in symbol. -/
theorem knows_afterAll (definitions : List Definition) :
    (builtin.afterAll definitions).Knows := by
  have known {operator : Operator} (mem : operator ∈ Builtin.operators) :
      (builtin.afterAll definitions).get? operator.symbol = some operator := by
    apply (reached_builtin.afterAll definitions).get?_of_mem
    rw [operators_afterAll, builtin_eq]
    exact List.mem_append_left _ mem
  have listed {place : Nat} {operator : Operator}
      (entry : Builtin.operators[place]? = some operator) : operator ∈ Builtin.operators :=
    List.mem_of_getElem? entry
  exact
    { samplePoint := known (listed (rfl : Builtin.operators[0]? = _))
      sphere := known (listed (rfl : Builtin.operators[1]? = _))
      plane := known (listed (rfl : Builtin.operators[4]? = _))
      translate := known (listed (rfl : Builtin.operators[5]? = _))
      smoothUnion := known (listed (rfl : Builtin.operators[10]? = _)) }

theorem knows_builtin : builtin.Knows := by
  have known := knows_afterAll []
  rwa [afterAll_nil] at known

end Registry

namespace Scene

/-- The nodes of the default scene in the order of their creation. -/
def standardNodes (tag : Nat) : List Node := [
  ⟨⟨tag, 0⟩, "root", .root, .sceneRoot, none, 0, [.child ⟨tag, 1⟩]⟩,
  { freshNode ⟨tag, 1⟩ "scene" (Builtin.smoothUnion.named "op_smooth_union") ⟨tag, 0⟩ 0 with
    inputs := [.child ⟨tag, 2⟩, .child ⟨tag, 5⟩, .literal (.scalar (.ratio 1 2))] },
  { freshNode ⟨tag, 2⟩ "ball" (Builtin.sphere.named "sdf_sphere") ⟨tag, 1⟩ 0 with
    inputs := [.child ⟨tag, 3⟩, .literal (.scalar 1)] },
  { freshNode ⟨tag, 3⟩ "offset" (Builtin.translate.named "op_translate") ⟨tag, 2⟩ 0 with
    inputs := [.child ⟨tag, 4⟩, .literal (.vec3 0 0 5)] },
  freshNode ⟨tag, 4⟩ "p" (Builtin.samplePoint.named "sample_point") ⟨tag, 3⟩ 0,
  { freshNode ⟨tag, 5⟩ "ground" (Builtin.plane.named "sdf_plane") ⟨tag, 1⟩ 1 with
    inputs := [.child ⟨tag, 6⟩, .literal (.vec4 0 1 0 1)] },
  freshNode ⟨tag, 6⟩ "p" (Builtin.samplePoint.named "sample_point") ⟨tag, 5⟩ 0]

end Scene

namespace Setup
open Scene

variable {registry : Registry} {slot : Nat} {name symbol : String} {operator : Operator}

theorem run_edit {α : Type} {run : Edit α} {scene after : Scene} {answer : α}
    (done : run.run scene = .ok answer after) : (edit run).run scene = .ok answer after := by
  rw [EStateM.run] at done
  simp only [edit, EStateM.run, EStateM.adaptExcept, done]

theorem run_attach (known : registry.get? symbol = some operator) {parent id : NodeId}
    {scene after : Scene}
    (done : (Edit.attach name operator parent slot).run scene = .ok id after) :
    (attach registry name symbol parent slot).run scene = .ok id after := by
  simp only [attach, known]
  exact run_edit done

theorem run_bind_ok {α β : Type} {first : Setup α} {next : α → Setup β} {scene between : Scene}
    {answer : α} {result : EStateM.Result SetupError Scene β}
    (done : first.run scene = .ok answer between) (onward : (next answer).run between = result) :
    (first >>= next).run scene = result := by
  rw [EStateM.run_bind, done]
  exact onward

theorem run_defaultScene (known : registry.Knows) (tag : Nat) :
    (defaultScene registry (Scene.new tag).root).run (Scene.new tag) =
      .ok () (ofNodes tag (standardNodes tag)) := by
  have start : Scene.new tag =
      ofNodes tag [⟨⟨tag, 0⟩, "root", .root, .sceneRoot, none, 0, [.empty]⟩] := rfl
  rw [start]
  refine run_bind_ok (run_attach known.smoothUnion
    (run_attach_ofNodes tag rfl rfl rfl rfl rfl rfl)) ?_
  refine run_bind_ok (run_attach known.sphere
    (run_attach_ofNodes tag rfl rfl rfl rfl rfl rfl)) ?_
  refine run_bind_ok (run_attach known.translate
    (run_attach_ofNodes tag rfl rfl rfl rfl rfl rfl)) ?_
  refine run_bind_ok (run_attach known.samplePoint
    (run_attach_ofNodes tag rfl rfl rfl rfl rfl rfl)) ?_
  simp only [filled_cons_zero, filled_cons_succ, List.cons_append, List.nil_append,
    List.length_cons, List.length_nil, Nat.reduceAdd]
  refine run_bind_ok (run_edit (run_setLiteral_ofNodes tag rfl rfl rfl rfl rfl)) ?_
  refine run_bind_ok (run_attach known.plane
    (run_attach_ofNodes tag rfl rfl rfl ?_ rfl rfl)) ?_
  · change checkSiblings _ 1 "ground" none 0
      [.child ⟨tag, 2⟩, .empty, .literal (.scalar (.ratio 1 4))] = .ok ()
    rw [checkSiblings_child, node?_ofNodes]
    rfl
  simp only [filled_cons_zero, filled_cons_succ, List.cons_append, List.nil_append,
    List.length_cons, List.length_nil, Nat.reduceAdd]
  refine run_bind_ok (run_attach known.samplePoint
    (run_attach_ofNodes tag rfl rfl rfl rfl rfl rfl)) ?_
  refine run_bind_ok (run_edit (run_setLiteral_ofNodes tag rfl rfl rfl rfl rfl)) ?_
  exact run_edit (run_setLiteral_ofNodes tag rfl rfl rfl rfl rfl)

end Setup

namespace Scene

variable {registry : Registry}

theorem default_eq (known : registry.Knows) (tag : Nat) :
    Scene.default registry tag = .ok (ofNodes tag (standardNodes tag)) := by
  rw [Scene.default, Setup.run_defaultScene known tag]

theorem forest_standard (tag : Nat) : (ofNodes tag (standardNodes tag)).Forest [] :=
  (reachable_default Registry.reached_builtin (default_eq Registry.knows_builtin tag)).forest

def standardProgram : Program where
  assignments := [
    ⟨.vec3, "node_scene_ball_offset_p", "sample_point", []⟩,
    ⟨.vec3, "node_scene_ball_offset", "op_translate",
      [.var "node_scene_ball_offset_p", .literal (.vec3 0 0 5)]⟩,
    ⟨.scalar, "node_scene_ball", "sdf_sphere",
      [.var "node_scene_ball_offset", .literal (.scalar 1)]⟩,
    ⟨.vec3, "node_scene_ground_p", "sample_point", []⟩,
    ⟨.scalar, "node_scene_ground", "sdf_plane",
      [.var "node_scene_ground_p", .literal (.vec4 0 1 0 1)]⟩,
    ⟨.scalar, "node_scene", "op_smooth_union",
      [.var "node_scene_ball", .var "node_scene_ground", .literal (.scalar (.ratio 1 2))]⟩]
  result := .var "node_scene"

def standardMap : String := Program.mapSource standardProgram.body

theorem unfolds_ofNodes {tag index : Nat} {nodes : List Node} {node : Node} {slots : List Slot}
    {below rest : Branches} (found : nodes[index]? = some node) (id_eq : node.id = ⟨tag, index⟩)
    (inside : (ofNodes tag nodes).Unfolds node.inputs below)
    (onward : (ofNodes tag nodes).Unfolds slots rest) :
    (ofNodes tag nodes).Unfolds (.child ⟨tag, index⟩ :: slots) (.child node below rest) := by
  rw [← id_eq]
  refine .child ?_ inside onward
  rw [id_eq, node?_ofNodes, found]

theorem compile_standard (tag : Nat) :
    (ofNodes tag (standardNodes tag)).compile = .ok standardProgram := by
  have found : (ofNodes tag (standardNodes tag)).node? (ofNodes tag (standardNodes tag)).root =
      some _ := node?_ofNodes
  -- the tree, with the scene at the top and in it the ball and the ground
  have whole : (ofNodes tag (standardNodes tag)).Unfolds [.child ⟨tag, 1⟩] _ :=
    unfolds_ofNodes rfl rfl
      (unfolds_ofNodes rfl rfl
        (unfolds_ofNodes rfl rfl
          (unfolds_ofNodes rfl rfl .nil
            (.literal .nil))
          (.literal .nil))
        (unfolds_ofNodes rfl rfl
          (unfolds_ofNodes rfl rfl .nil
            (.literal .nil))
          (.literal .nil)))
      .nil
  obtain ⟨result, only, compiled⟩ := (forest_standard tag).compile_eq_ok found whole rfl
  cases only
  rw [compiled]
  rfl

theorem mapSource_standard (tag : Nat) :
    (ofNodes tag (standardNodes tag)).mapSource = .ok standardMap := by
  rw [mapSource, compile_standard]
  rfl

end Scene

end DistanceField
