import DistanceField.Proofs.Program.Wiring

/-!
# The meaning of programs

A program is run line by line, whatever its symbols and its literals mean, and yields the value of
the tree it was compiled from.
-/

namespace DistanceField

/-- What the symbols of operators and the expressions of literals mean. -/
structure Interpretation (α : Type*) where
  call : String → List α → α
  literal : String → α

namespace Interpretation

variable {α : Type*} {meaning : Interpretation α} {locals : String → Option α} {text : String}
  {statements more : List Statement}

/-- The value of an expression: a variable with this text if there is one, otherwise a literal. -/
def read (meaning : Interpretation α) (locals : String → Option α) (text : String) : α :=
  (locals text).getD (meaning.literal text)

def assign (meaning : Interpretation α) (locals : String → Option α) (statement : Statement) :
    String → Option α :=
  Function.update locals statement.name
    (some (meaning.call statement.symbol (statement.arguments.map (meaning.read locals))))

def execute (meaning : Interpretation α) (locals : String → Option α)
    (statements : List Statement) : String → Option α := statements.foldl meaning.assign locals

/-- A body returns a value: it reads as statements, which are run without any variables before
them, and as an expression, which has the value then. -/
def Runs (meaning : Interpretation α) (body : String) (value : α) : Prop :=
  ∃ statements result, ReadsAs body statements result ∧
    meaning.read (meaning.execute (fun _ => none) statements) result = value

theorem runs_iff {body result : String} {value : α} (reads : ReadsAs body statements result) :
    meaning.Runs body value ↔
      value = meaning.read (meaning.execute (fun _ => none) statements) result := by
  constructor
  · rintro ⟨statements', result', reads', rfl⟩
    obtain ⟨rfl, rfl⟩ := reads.unique reads'
    rfl
  · rintro rfl
    exact ⟨statements, result, reads, rfl⟩

theorem execute_append : meaning.execute locals (statements ++ more) =
    meaning.execute (meaning.execute locals statements) more := List.foldl_append

theorem execute_cons {statement : Statement} : meaning.execute locals (statement :: statements) =
    meaning.execute (meaning.assign locals statement) statements := rfl

/-- What is not assigned keeps its value. -/
theorem execute_of_notMem (out : text ∉ statements.map Statement.name) :
    meaning.execute locals statements text = locals text := by
  induction statements generalizing locals with
  | nil => rfl
  | cons statement statements ih =>
    rw [List.map_cons, List.mem_cons, not_or] at out
    rw [execute_cons, ih out.2, assign, Function.update_of_ne out.1]

end Interpretation

namespace Scene

/-- The values of the contents of some inputs: a literal means what its expression means, and a
child what its operator makes of the values of its inputs, in their order. -/
inductive Evaluates {α : Type*} (scene : Scene) (meaning : Interpretation α) :
    List Slot → List α → Prop where
  | nil : Evaluates scene meaning [] []
  | literal {value slots values} : Evaluates scene meaning slots values →
      Evaluates scene meaning (.literal value :: slots) (meaning.literal value.expression :: values)
  | child {id node slots arguments values} (found : scene.node? id = some node) :
      Evaluates scene meaning node.inputs arguments → Evaluates scene meaning slots values →
      Evaluates scene meaning (.child id :: slots)
        (meaning.call node.operator.symbol arguments :: values)

end Scene

def Branches.values {α : Type*} (meaning : Interpretation α) : Branches → List α
  | nil => []
  | empty rest => rest.values meaning
  | literal value rest => meaning.literal value.expression :: rest.values meaning
  | child node below rest =>
    meaning.call node.operator.symbol (below.values meaning) :: rest.values meaning

namespace Scene
open Interpretation

variable {α : Type*} {scene : Scene} {meaning : Interpretation α} {slots : List Slot}
  {branches : Branches} {values : List α} {id : NodeId} {place : Nat}

theorem Unfolds.evaluates (h : scene.Unfolds slots branches)
    (complete : branches.missing id place = none) :
    scene.Evaluates meaning slots (branches.values meaning) := by
  induction h generalizing id place with
  | nil => exact .nil
  | empty => simp [Branches.missing] at complete
  | literal _ ih => exact .literal (ih complete)
  | child found _ _ ihBelow ihRest =>
    obtain ⟨completeBelow, completeRest⟩ := Option.or_eq_none_iff.mp complete
    exact .child found (ihBelow completeBelow) (ihRest completeRest)

theorem Evaluates.unique {values values' : List α} (h : scene.Evaluates meaning slots values)
    (h' : scene.Evaluates meaning slots values') : values = values' := by
  induction h generalizing values' with
  | nil => cases h'; rfl
  | literal _ ih => cases h' with | literal h' => rw [ih h']
  | child found _ _ ihBelow ihRest =>
    cases h' with
    | child found' below rest =>
      obtain rfl := Option.some.inj (found.symm.trans found')
      rw [ihBelow below, ihRest rest]

end Scene

namespace Branches

variable {α : Type*} {meaning : Interpretation α} {locals : String → Option α} {branches : Branches}
  {name : String}

def statements (name : String) (branches : Branches) : List Statement :=
  (branches.code name).map Assignment.statement

/-- The statement for a child in an input of the node whose variable is `name`. -/
def statement (name : String) (node : Node) (below : Branches) : Statement :=
  ⟨node.operator.output.text, variableBelow name node, node.operator.symbol,
    (below.arguments (variableBelow name node)).map Argument.text⟩

theorem statements_child {node : Node} {below rest : Branches} :
    (child node below rest).statements name = below.statements (variableBelow name node) ++
      statement name node below :: rest.statements name := by
  rw [statements, code, List.map_append, List.map_cons]
  rfl

theorem map_name_statements : (branches.statements name).map Statement.name =
    declared name branches := by
  rw [statements, List.map_map]
  rfl

/-- No statement for a tree assigns a text that is not a word, as that of a literal. -/
theorem Labelled.execute_of_not_isWord (h : branches.Labelled) (word : IsWord name)
    (literals : ∀ text, ¬ IsWord text → locals text = none) {text : String}
    (noWord : ¬ IsWord text) :
    meaning.execute locals (branches.statements name) text = none := by
  have untouched : text ∉ (branches.statements name).map Statement.name := by
    rw [map_name_statements]
    exact fun mem => noWord (h.isWord_of_mem word mem)
  rw [Interpretation.execute_of_notMem untouched, literals text noWord]

/-- After the statements for a tree its arguments have the values of the tree. -/
theorem Labelled.map_read_execute (h : branches.Labelled) (word : IsWord name)
    (literals : ∀ text, ¬ IsWord text → locals text = none) :
    (branches.arguments name).map (fun argument =>
      meaning.read (meaning.execute locals (branches.statements name)) argument.text) =
        branches.values meaning := by
  induction branches generalizing name locals with
  | nil => rfl
  | empty rest ih => exact ih h word literals
  | literal value rest ih =>
    have here : meaning.execute locals (rest.statements name) value.expression = none :=
      h.execute_of_not_isWord word literals value.not_isWord_expression
    have values := ih h word literals
    rw [arguments, List.map_cons, Branches.values, ← values]
    congr 1
    change (meaning.execute locals (rest.statements name) value.expression).getD _ = _
    rw [here]
    rfl
  | child node below rest ihBelow ihRest =>
    obtain ⟨valid, -, labelledBelow, labelledRest⟩ := id h
    have word' := isWord_variableBelow word valid
    have value := ihBelow labelledBelow word' literals
    have outer : ∀ text, ¬ IsWord text → meaning.assign (meaning.execute locals
        (below.statements (variableBelow name node))) (statement name node below) text = none := by
      intro text noWord
      have ne : text ≠ variableBelow name node := fun eq => noWord (eq ▸ word')
      rw [Interpretation.assign, statement, Function.update_of_ne ne,
        labelledBelow.execute_of_not_isWord word' literals noWord]
    -- no later statement belongs to this child, so its variable keeps the value
    have kept : variableBelow name node ∉ (rest.statements name).map Statement.name := by
      rw [map_name_statements]
      exact h.notMem_rest (.refl _)
    rw [arguments, List.map_cons, values, statements_child, Interpretation.execute_append,
      Interpretation.execute_cons, ihRest labelledRest word outer, Interpretation.read,
      Argument.text, Interpretation.execute_of_notMem kept, Interpretation.assign, statement,
      List.map_map, Function.comp_def, value, Function.update_self, Option.getD_some]

end Branches

namespace Scene

variable {scene : Scene} {program : Program}

/-- The body of the program of a scene returns one value, which is the one value of the input of the
root. -/
theorem evaluates_iff_runs {α : Type*} (meaning : Interpretation α) (h : Reachable scene)
    (compiled : scene.compile = .ok program) :
    ∃ root value, scene.node? scene.root = some root ∧
      (∀ v, meaning.Runs program.body v ↔ v = value) ∧
        ∀ v, scene.Evaluates meaning root.inputs [v] ↔ v = value := by
  obtain ⟨root, branches, compiles⟩ := h.forest.exists_compiles compiled
  have reads := h.forest.reads compiled
  rw [compiles.assignments] at reads
  have values : (branches.arguments "node").map (fun argument => meaning.read
      (meaning.execute (fun _ => none) (branches.statements "node")) argument.text) =
        branches.values meaning :=
    (compiles.labelled h.forest).map_read_execute isWord_node fun _ _ => rfl
  rw [compiles.result, List.map_singleton] at values
  have evaluates : scene.Evaluates meaning root.inputs (branches.values meaning) :=
    compiles.unfolds.evaluates compiles.complete
  rw [← values] at evaluates
  refine ⟨root, _, compiles.found, fun _ => Interpretation.runs_iff reads, fun v => ?_⟩
  constructor
  · intro evaluates'
    exact List.singleton_inj.mp (evaluates'.unique evaluates)
  · rintro rfl
    exact evaluates

def nested : Interpretation String where
  call symbol values := symbol ++ "(" ++ ", ".intercalate values ++ ")"
  literal := id

theorem runs_ball : ∃ root, ball.node? ball.root = some root ∧
    (∀ v, nested.Runs ballProgram.body v ↔ v = "sdf_sphere(sample_point(), 1.0)") ∧
      ∀ v, ball.Evaluates nested root.inputs [v] ↔ v = "sdf_sphere(sample_point(), 1.0)" := by
  obtain ⟨root, value, found, runs, evaluates⟩ :=
    evaluates_iff_runs nested reachable_ball compile_ball
  have reads := reachable_ball.forest.reads compile_ball
  have value_eq := (Interpretation.runs_iff reads).mp ((runs value).mpr rfl)
  have shown : nested.read (nested.execute (fun _ => none)
      (ballProgram.assignments.map Assignment.statement)) ballProgram.result.text =
        "sdf_sphere(sample_point(), 1.0)" := by decide +kernel
  rw [shown] at value_eq
  subst value_eq
  exact ⟨root, found, runs, evaluates⟩

end Scene

end DistanceField
