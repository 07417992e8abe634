import DistanceField.Proofs.Program.Variables

/-!
# Well-typed programs

The checks of the operators, of the edits and of the compiler together guarantee that a program only
calls functions with arguments of the declared types, and that it uses each of its variables once,
after the assignment.
-/

namespace DistanceField
open List (Forall₂)

theorem ValueType.text_of_glsl? {type : ValueType} {word : String} (h : type.glsl? = some word) :
    type.text = word := by simp [text, h]

variable {scene : Scene} {before more code : List Assignment} {argument : Argument} {type : ValueType}
  {assignment : Assignment} {node : Node} {header : Glsl.Header}

/-- An expression has a type: a literal its own, a variable the one that an assignment made before
declares. -/
inductive HasType (before : List Assignment) : Argument → ValueType → Prop where
  | var {assignment : Assignment} (mem : assignment ∈ before) :
      HasType before (.var assignment.name) assignment.type
  | literal (value : Literal) : HasType before (.literal value) value.type

/-- An expression may be passed for a parameter: its type is that of the parameter, and nothing is
handed back. -/
def Passes (before : List Assignment) (argument : Argument) (parameter : Glsl.Parameter) : Prop :=
  ∃ type, HasType before argument type ∧ type.glsl? = some parameter.type ∧
    parameter.isOutput = false

/-- An assignment declares the local name of a node and calls its operator; the header in the code
of the operator agrees with the call. -/
structure Calls (scene : Scene) (before : List Assignment) (assignment : Assignment) (node : Node)
    (header : Glsl.Header) : Prop where
  found : scene.node? node.id = some node
  localName : scene.localName node.id = .ok assignment.name
  symbol : assignment.symbol = node.operator.symbol
  read : Glsl.header? node.operator.code = some header
  name : header.name = assignment.symbol
  returnType : assignment.type.glsl? = some header.returnType
  spelling : assignment.type.text = header.returnType
  parameters : Forall₂ (Passes before) assignment.arguments header.parameters

/-- Each assignment agrees with a header, in the order in which they are made. -/
def Typed (scene : Scene) : List Assignment → List Assignment → Prop
  | _, [] => True
  | before, assignment :: code =>
    (∃ node header, Calls scene before assignment node header) ∧
      Typed scene (before ++ [assignment]) code

theorem typed_append : Typed scene before (code ++ more) ↔
    Typed scene before code ∧ Typed scene (before ++ code) more := by
  induction code generalizing before with
  | nil => simp [Typed]
  | cons assignment code ih => simp [Typed, ih, and_assoc]

theorem Operator.Declares.forall₂ {operator : Operator} {arguments : List Argument}
    (declares : Operator.Declares header operator)
    (typed : Forall₂ (HasType before) arguments operator.inputs) :
    Forall₂ (Passes before) arguments header.parameters := by
  have accepted := declares.parameters
  generalize operator.inputs = types at typed accepted
  generalize header.parameters = parameters at accepted
  induction typed generalizing parameters with
  | nil =>
    cases accepted
    exact .nil
  | cons typed _ ih =>
    cases accepted with
    | cons accepts accepted =>
      simp only [Operator.accepts, Bool.and_eq_true, Bool.not_eq_true', decide_eq_true_eq] at accepts
      exact .cons ⟨_, typed, accepts.2.symm, accepts.1⟩ (ih _ accepted)

namespace Scene

variable {loose : List NodeId} {slots : List Slot} {branches : Branches} {id : NodeId} {place : Nat}
  {name : String}

theorem Forest.hasType_arguments (h : scene.Forest loose) (unfolds : scene.Unfolds slots branches)
    (found : scene.node? id = some node) (left : node.inputs.drop place = slots)
    (complete : branches.missing id place = none) (made : branches.code name ⊆ before) :
    Forall₂ (HasType before) (branches.arguments name) (node.operator.inputs.drop place) := by
  have onward : ∀ {place : Nat} {type}, node.operator.inputs[place]? = some type →
      node.operator.inputs.drop place = type :: node.operator.inputs.drop (place + 1) := by
    intro place type entry
    obtain ⟨lt, rfl⟩ := List.getElem?_eq_some_iff.mp entry
    exact List.drop_eq_getElem_cons lt
  induction unfolds generalizing id node place with
  | nil =>
    have ends : node.inputs.length ≤ place := List.drop_eq_nil_iff.mp left
    rw [(h.fits found).length_inputs] at ends
    rw [List.drop_eq_nil_of_le ends]
    exact .nil
  | empty => simp [Branches.missing] at complete
  | literal _ ih =>
    obtain ⟨here, left⟩ := next_of_drop left
    rw [onward ((h.fits found).literal here).1]
    exact .cons (.literal _) (ih found left complete made onward)
  | @child below slots tree rest there _ _ _ ih =>
    obtain ⟨here, left⟩ := next_of_drop left
    obtain ⟨-, completeRest⟩ := Option.or_eq_none_iff.mp complete
    obtain ⟨-, above, below', foundAbove, foundBelow, -, -, suits⟩ := h.held ⟨node, found, here⟩
    obtain rfl := Option.some.inj (found.symm.trans foundAbove)
    obtain rfl := Option.some.inj (there.symm.trans foundBelow)
    rw [onward suits]
    rw [Branches.code, List.append_subset, List.cons_subset] at made
    exact .cons (.var made.2.1) (ih found left completeRest made.2.2 onward)

theorem Forest.typed_code (h : scene.Forest loose) (unfolds : scene.Unfolds slots branches)
    (found : scene.node? id = some node) (left : node.inputs.drop place = slots)
    (complete : branches.missing id place = none) (named : branches.Named scene name) :
    Typed scene before (branches.code name) := by
  induction unfolds generalizing id node place name before with
  | nil => trivial
  | empty => simp [Branches.missing] at complete
  | literal _ ih => exact ih found (next_of_drop left).2 complete named
  | @child below slots tree rest there unfolds _ ihBelow ihRest =>
    obtain ⟨here, left⟩ := next_of_drop left
    obtain ⟨completeBelow, completeRest⟩ := Option.or_eq_none_iff.mp complete
    obtain ⟨localName, namedBelow, namedRest⟩ := named
    have notRoot : below.id ≠ scene.root :=
      fun eq => h.not_parentOf_top (.inl rfl) (eq ▸ Holds.parentOf ⟨node, found, here⟩)
    obtain ⟨header, read, declares⟩ := ((h.fits there).accepted notRoot).checked.header
    have typed := h.hasType_arguments unfolds there List.drop_zero completeBelow
      (List.subset_append_right before (tree.code (Branches.variableBelow name below)))
    rw [Branches.code, typed_append]
    refine ⟨ihBelow there List.drop_zero completeBelow namedBelow, ⟨below, header, ?_⟩,
      ihRest found left completeRest namedRest⟩
    exact
      { found := there
        localName
        symbol := rfl
        read
        name := declares.name
        returnType := declares.returnType.symm
        spelling := ValueType.text_of_glsl? declares.returnType.symm
        parameters := declares.forall₂ typed }

end Scene

def Program.arguments (program : Program) : List Argument :=
  program.assignments.flatMap Assignment.arguments ++ [program.result]

/-- The texts of all expressions that are passed in a tree or to the node in whose inputs it hangs. -/
def Branches.uses (name : String) (branches : Branches) : List String :=
  ((branches.code name).flatMap Assignment.arguments ++ branches.arguments name).map Argument.text

/-- Every word is used as often as it is assigned. -/
theorem Branches.Labelled.count_uses {branches : Branches} {name word : String}
    (h : branches.Labelled) (isWord : IsWord word) :
    (branches.uses name).count word = (Branches.declared name branches).count word := by
  induction branches generalizing name with
  | nil => rfl
  | empty rest ih => exact ih h
  | literal value rest ih =>
    have ne : value.expression ≠ word := fun eq => value.not_isWord_expression (eq ▸ isWord)
    rw [declared_literal, ← ih h]
    simp [uses, code, arguments, Argument.text, List.count_cons_of_ne ne]
  | child node below rest ihBelow ihRest =>
    obtain ⟨-, -, labelledBelow, labelledRest⟩ := h
    have inner := @ihBelow (variableBelow name node) labelledBelow
    have outer := @ihRest name labelledRest
    simp only [uses, List.map_append, List.count_append] at inner outer
    simp only [uses, code, arguments, declared_child, List.flatMap_append, List.flatMap_cons,
      List.map_append, List.map_cons, List.count_append, List.count_cons, Argument.text]
    omega

theorem Program.body_eq (program : Program) : program.body =
    String.join (program.assignments.map fun assignment =>
      "    " ++ assignment.type.text ++ " " ++ assignment.name ++ " = " ++ assignment.symbol ++ "(" ++
        ", ".intercalate (assignment.arguments.map Argument.text) ++ ");\n") ++
      "    return " ++ program.result.text ++ ";\n" := by
  rw [Program.body_eq_append, funext Assignment.text_eq]
  simp only [String.append_assoc]

/-- A program that the shading language accepts where the operators of the scene are declared. -/
structure WellTyped (scene : Scene) (program : Program) : Prop where
  body_eq : program.body = String.join (program.assignments.map fun assignment =>
    "    " ++ assignment.type.text ++ " " ++ assignment.name ++ " = " ++ assignment.symbol ++ "(" ++
      ", ".intercalate (assignment.arguments.map Argument.text) ++ ");\n") ++
    "    return " ++ program.result.text ++ ";\n"
  nodup : (program.assignments.map Assignment.name).Nodup
  calls : ∀ {before assignment after}, program.assignments = before ++ assignment :: after →
    ∃ node header, Calls scene before assignment node header
  result : HasType program.assignments program.result .scalar
  used_once : ∀ assignment ∈ program.assignments,
    (program.arguments.map Argument.text).count assignment.name = 1
  literal_notMem : ∀ {value : Literal}, .literal value ∈ program.arguments →
    value.expression ∉ program.assignments.map Assignment.name

namespace Scene

variable {program : Program}

theorem wellTyped_of_compile (h : Reachable scene) (compiled : scene.compile = .ok program) :
    WellTyped scene program := by
  obtain ⟨root, branches, compiles⟩ := h.forest.exists_compiles compiled
  have labelled := compiles.labelled h.forest
  have words : ∀ name ∈ program.assignments.map Assignment.name, IsWord name := by
    rw [compiles.assignments]
    exact fun name mem => labelled.isWord_of_mem isWord_node mem
  have nodup : (program.assignments.map Assignment.name).Nodup := by
    rw [compiles.assignments]
    exact labelled.nodup_declared
  have typed : Typed scene [] program.assignments := by
    rw [compiles.assignments]
    exact h.forest.typed_code compiles.unfolds compiles.found List.drop_zero compiles.complete
      (compiles.named h.forest)
  have uses : program.arguments.map Argument.text = branches.uses "node" := by
    rw [Program.arguments, Branches.uses, compiles.result, compiles.assignments]
  refine
    { body_eq := program.body_eq
      nodup
      calls := ?_
      result := ?_
      used_once := ?_
      literal_notMem := fun _ mem => Literal.not_isWord_expression _ (words _ mem) }
  · intro before assignment after eq
    rw [eq, typed_append] at typed
    exact typed.2.1
  · have types := h.forest.hasType_arguments compiles.unfolds compiles.found List.drop_zero
      compiles.complete (List.Subset.refl (branches.code "node"))
    rw [compiles.result, (h.forest.fits compiles.found).operator_root rfl] at types
    cases types with
    | cons typed _ => exact compiles.assignments ▸ typed
  · intro assignment mem
    have mem : assignment.name ∈ program.assignments.map Assignment.name := List.mem_map_of_mem mem
    rw [uses, labelled.count_uses (words _ mem), Branches.declared, ← compiles.assignments]
    exact List.count_eq_one_of_mem nodup mem

theorem wellTyped_ball : WellTyped ball ballProgram ∧ ballProgram.body =
    "    vec3 node_ball_p = sample_point();\n" ++
      "    float node_ball = sdf_sphere(node_ball_p, 1.0);\n    return node_ball;\n" :=
  ⟨wellTyped_of_compile reachable_ball compile_ball, by decide +kernel⟩

end Scene

end DistanceField
