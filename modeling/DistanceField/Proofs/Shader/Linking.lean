import DistanceField.Proofs.Program.Wiring
import DistanceField.Proofs.Shader.Capture

/-!
# Calls and the code that they call

A node keeps the operator that it was created with, whatever is registered afterwards. Since
registered operators keep their places and symbols are never given away twice, the code that stands
in a shader for the symbol of a call is that of the operator of the node.
-/

namespace DistanceField

namespace Scene

/-- Every operator of a scene, the one behind the root apart, was registered at some moment that
came before or is now. -/
def DrawnFrom (registry : Registry) (scene : Scene) : Prop :=
  ∀ {id node}, scene.node? id = some node → id ≠ scene.root →
    ∃ earlier : Registry, earlier.Grows registry ∧ node.operator ∈ earlier.operators

theorem DrawnFrom.builtFrom {registry : Registry} {scene : Scene}
    (drawn : scene.DrawnFrom registry) : scene.BuiltFrom registry := by
  intro id node found notRoot
  obtain ⟨earlier, grows, registered⟩ := drawn found notRoot
  exact grows.isPrefix.subset registered

end Scene

namespace Shader
open Glsl Scene

variable {registry : Registry} {scene : Scene} {config : Config} {program : Program}
  {assignment : Assignment} {node : Node} {stages : Stages} {operator : Operator} {name : String}

/-- A call leads to the code of the operator of the node whose value it computes: no other operator
answers to the symbol, and the code is a block of its own among those of the registry. -/
structure Linked (registry : Registry) (scene : Scene) (program : Program)
    (assignment : Assignment) (node : Node) : Prop where
  found : scene.node? node.id = some node
  computes : assignment.Computes scene node
  unique : registry.operators.filter (·.symbol = assignment.symbol) = [node.operator]
  block : ∃ before after, registry.operators = before ++ node.operator :: after ∧
    registry.preamble = String.join (before.map Registry.block) ++
      (Text.trimEnd node.operator.code ++ "\n\n") ++ String.join (after.map Registry.block)
  call : ∃ front back rest, Program.mapSource program.body =
    "float scene_distance() \x7b\n" ++ (front ++ assignment.text ++ back) ++ "\x7d\n\n" ++ rest

/-- A program and a shader belong to a scene and a registry: the sections of the fragment stage stand
in their order, what was registered first stands first, and all calls are linked. -/
structure Links (registry : Registry) (scene : Scene) (config : Config) (program : Program)
    (fragment : String) : Prop where
  sections : fragment =
    header config ++ registry.preamble ++ Program.mapSource program.body ++ "\n" ++ engine
  preamble : registry.preamble =
    String.join (registry.operators.map fun operator => Text.trimEnd operator.code ++ "\n\n")
  order : ∀ {earlier : Registry}, earlier.Grows registry →
    ∃ rest, registry.preamble = earlier.preamble ++ rest
  calls : ∀ assignment ∈ program.assignments,
    ∃ node, Linked registry scene program assignment node
  applied : ∀ name ∈ applied (tokens program.body),
    name ∈ constructors ∨ ∃ assignment ∈ program.assignments, assignment.symbol = name

/-- The tokens of the body of a program apply the symbols of its assignments and constructors. -/
theorem exists_assignment_of_applied (spelled : program.Spelled)
    (mem : name ∈ applied (tokens program.body)) :
    name ∈ constructors ∨ ∃ assignment ∈ program.assignments, assignment.symbol = name := by
  have block := block_program spelled
  have cut : tokens program.body = (bodyLines program).flatMap tokens := by
    rw [body_eq_ofLines, tokens_lines block.calm]
  by_cases known : name ∈ constructors
  · exact .inl known
  · right
    have bound := block.applies Place.start name known
    rw [cut] at mem
    have positive : 0 < (program.assignments.map Assignment.symbol).count name :=
      (List.count_pos_iff.mpr mem).trans_le bound
    exact List.mem_map.mp (List.count_pos_iff.mp positive)

theorem preamble_eq_join (before after : List Operator) (operator : Operator) :
    Registry.preamble ⟨before ++ operator :: after⟩ = String.join (before.map Registry.block) ++
      (Text.trimEnd operator.code ++ "\n\n") ++ String.join (after.map Registry.block) := by
  simp [Registry.preamble, Registry.block, String.append_assoc]

theorem exists_preamble_append {later : Registry} (grows : registry.Grows later) :
    ∃ rest, later.preamble = registry.preamble ++ rest := by
  obtain ⟨after, eq⟩ := grows.isPrefix
  refine ⟨String.join (after.map Registry.block), ?_⟩
  rw [Registry.preamble, Registry.preamble, ← eq, List.map_append, String.join_append]

theorem exists_body_eq (mem : assignment ∈ program.assignments) :
    ∃ front back, program.body = front ++ assignment.text ++ back := by
  obtain ⟨before, after, eq⟩ := List.append_of_mem mem
  refine ⟨String.join (before.map Assignment.text), String.join (after.map Assignment.text) ++
    ("    return " ++ program.result.text ++ ";\n"), ?_⟩
  rw [program.body_eq_append, eq]
  simp [String.append_assoc]

theorem exists_mapSource_eq (body : String) : ∃ rest, Program.mapSource body =
    "float scene_distance() \x7b\n" ++ body ++ "\x7d\n\n" ++ rest := by
  refine ⟨"vec4 distance_map(vec3 p) \x7b\n    map_point = p;\n" ++
    "    return vec4(SURFACE_COLOR, scene_distance());\n\x7d\n", ?_⟩
  simp [Program.mapSource, sceneDistance, distanceMap, toString, String.append_assoc]

theorem linked (reached : registry.Reached) (h : scene.Reachable) (drawn : scene.DrawnFrom registry)
    (lined : scene.Lined program) (mem : assignment ∈ program.assignments) :
    ∃ node, Linked registry scene program assignment node := by
  obtain ⟨node, found, notRoot, computes⟩ := lined.exists_computes h.forest mem
  have registered := drawn.builtFrom found notRoot
  refine ⟨node, found, computes, ?_, ?_, ?_⟩
  · rw [computes.symbol]
    exact reached.filter_symbol registered
  · obtain ⟨before, after, eq⟩ := List.append_of_mem registered
    exact ⟨before, after, eq, by rw [← preamble_eq_join, ← eq]⟩
  · obtain ⟨front, back, body⟩ := exists_body_eq mem
    obtain ⟨rest, functions⟩ := exists_mapSource_eq program.body
    exact ⟨front, back, rest, by rw [← body, functions]⟩

/-- Every call of a shader leads to the operator of its node, in whatever way the registry has grown
since the nodes were created. -/
theorem links_of_ofScene (reached : registry.Reached) (h : scene.Reachable)
    (drawn : scene.DrawnFrom registry) (built : ofScene registry scene config = .ok stages) :
    ∃ program, scene.compile = .ok program ∧
      Links registry scene config program stages.fragment := by
  cases compiled : scene.compile with
  | error error =>
    rw [ofScene, mapSource, compiled] at built
    cases built
  | ok program =>
    rw [ofScene, mapSource, compiled] at built
    cases built
    obtain ⟨root, branches, compiles⟩ := h.forest.exists_compiles compiled
    refine ⟨program, rfl, ?_⟩
    exact
      { sections := rfl
        preamble := rfl
        order := exists_preamble_append
        calls := fun assignment => linked reached h drawn (compiles.lined h.forest)
        applied := fun name => exists_assignment_of_applied
          (compiles.spelled h.forest drawn.builtFrom reached) }

def grownRegistry : Registry := (ballRegistry.after Builtin.sphere).after Builtin.plane

theorem links_ball : ∃ program, ball.compile = .ok program ∧
    Links grownRegistry ball {} program
      (fragment grownRegistry (Program.mapSource ballProgram.body) {}) ∧
    grownRegistry.symbols = ["sample_point", "sdf_sphere", "sdf_plane"] := by
  have reached : grownRegistry.Reached :=
    (reached_ballRegistry.step Builtin.sphere).step Builtin.plane
  have grows : ballRegistry.Grows grownRegistry :=
    (Registry.Grows.refl.step Builtin.sphere).step Builtin.plane
  have drawn : ball.DrawnFrom grownRegistry :=
    fun found notRoot => ⟨ballRegistry, grows, builtFrom_ball found notRoot⟩
  have built : ofScene grownRegistry ball {} =
      .ok ⟨vertex, fragment grownRegistry (Program.mapSource ballProgram.body) {}⟩ := by
    rw [ofScene, mapSource, compile_ball]
    rfl
  obtain ⟨program, compiled, links⟩ := links_of_ofScene reached reachable_ball drawn built
  exact ⟨program, compiled, links, by decide +kernel⟩

end Shader

end DistanceField
