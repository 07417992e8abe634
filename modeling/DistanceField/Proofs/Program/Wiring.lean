import DistanceField.Proofs.Program.Readable
import DistanceField.Proofs.Scene.Census

/-!
# Wired scenes

A scene is compiled exactly if no input of any node is empty. The walk gets to every node of the
scene, and to each of them once, so an empty input is never overlooked and the program has one line
for every node.
-/

namespace DistanceField
open List (Forall₂)

/-- An assignment gives the value of a node to the variable of the node: it calls the operator with
one argument for each input. -/
structure Assignment.Computes (scene : Scene) (assignment : Assignment) (node : Node) : Prop where
  localName : scene.localName node.id = .ok assignment.name
  type : assignment.type = node.operator.output
  symbol : assignment.symbol = node.operator.symbol
  length_arguments : assignment.arguments.length = node.inputs.length

namespace Branches

def postorder : Branches → List Node
  | nil => []
  | empty rest => rest.postorder
  | literal _ rest => rest.postorder
  | child node below rest => below.postorder ++ node :: rest.postorder

theorem postorder_perm_nodes (branches : Branches) : branches.postorder.Perm branches.nodes := by
  induction branches with
  | nil => exact .nil
  | empty rest ih => exact ih
  | literal value rest ih => exact ih
  | child node below rest ihBelow ihRest =>
    rw [postorder, nodes]
    exact List.perm_middle.trans ((ihBelow.append ihRest).cons node)

end Branches

namespace Scene

variable {scene : Scene} {slots : List Slot} {branches : Branches} {node root : Node} {id : NodeId}
  {place : Nat} {name : String} {error : CompileError} {program : Program}

/-- The assignments for a tree compute its nodes, each after those below it. -/
theorem Unfolds.forall₂_computes (h : scene.Unfolds slots branches)
    (named : branches.Named scene name) (complete : branches.missing id place = none) :
    Forall₂ (Assignment.Computes scene) (branches.code name) branches.postorder := by
  induction h generalizing id place name with
  | nil => exact .nil
  | empty => cases complete
  | literal _ ih => exact ih named complete
  | child _ unfolds _ ihBelow ihRest =>
    obtain ⟨localName, namedBelow, namedRest⟩ := named
    obtain ⟨completeBelow, completeRest⟩ := Option.or_eq_none_iff.mp complete
    apply List.rel_append (ihBelow namedBelow completeBelow)
    apply Forall₂.cons _ (ihRest namedRest completeRest)
    exact
      { localName
        type := rfl
        symbol := rfl
        length_arguments := unfolds.length_arguments completeBelow }

/-- A scene is built from accepted operators, whatever has become of the registry they are from. -/
theorem Forest.exists_builtFrom (h : scene.Forest []) : ∃ registry, BuiltFrom registry scene ∧
    ∀ operator ∈ registry.operators, operator.Accepted := by
  refine ⟨⟨(scene.liveNodes.filter fun node => !node.isRoot).map Node.operator⟩, ?_, ?_⟩
  · intro id node found notRoot
    apply List.mem_map_of_mem
    apply h.mem_filter_liveNodes_iff.mpr
    rw [(h.fits found).id_eq]
    exact ⟨found, notRoot⟩
  · intro operator mem
    obtain ⟨node, listed, rfl⟩ := List.mem_map.mp mem
    obtain ⟨found, notRoot⟩ := h.mem_filter_liveNodes_iff.mp listed
    exact (h.fits found).accepted notRoot

theorem Forest.reads (h : scene.Forest []) (compiled : scene.compile = .ok program) :
    ReadsAs program.body (program.assignments.map Assignment.statement) program.result.text := by
  obtain ⟨root, branches, compiles⟩ := h.exists_compiles compiled
  obtain ⟨registry, built, accepted⟩ := h.exists_builtFrom
  exact (compiles.spelled_of_accepted h built accepted).reads

/-- A program has one line for every node of a scene: an assignment for each node but the root, and
the result for the root. -/
structure Lined (scene : Scene) (program : Program) : Prop where
  length_assignments : program.assignments.length = scene.size - 1
  body_eq : program.body = String.join program.lines
  length_lines : program.lines.length = scene.size
  isLine : ∀ line ∈ program.lines, Text.IsLine line
  computes : ∃ nodes, nodes.Perm (scene.liveNodes.filter fun node => !node.isRoot) ∧
    Forall₂ (Assignment.Computes scene) program.assignments nodes

/-- All nodes but the root hang in the root. -/
theorem Forest.perm_filter_liveNodes (h : scene.Forest [])
    (found : scene.node? scene.root = some root) (unfolds : scene.Unfolds root.inputs branches) :
    branches.nodes.Perm (scene.liveNodes.filter fun node => !node.isRoot) := by
  have whole := (h.perm_liveNodes found unfolds).filter fun node => !node.isRoot
  have top : root.isRoot := (h.fits found).isRoot_iff.mpr rfl
  have rest : ∀ node ∈ branches.nodes, (!node.isRoot) = true := by
    intro node mem
    have nodup := h.nodup_ids_slot (h.unfolds_self found unfolds)
    have there := unfolds.found_of_mem mem
    have listed : node.id ∈ branches.ids := List.mem_map_of_mem mem
    rw [Branches.ids_child, List.nodup_cons, List.mem_append, not_or, (h.fits found).id_eq] at nodup
    have notRoot : node.id ≠ scene.root := fun eq => nodup.1.1 (eq ▸ listed)
    exact (List.mem_filter.mp (h.mem_filter_liveNodes_iff.mpr ⟨there, notRoot⟩)).2
  rwa [List.filter_cons_of_neg (by simp [top]), List.filter_eq_self.mpr rest] at whole

theorem Compiles.lined (compiles : scene.Compiles root branches program) (h : scene.Forest []) :
    scene.Lined program := by
  have nodes := h.perm_liveNodes compiles.found compiles.unfolds
  have computes : Forall₂ (Assignment.Computes scene) program.assignments branches.postorder := by
    rw [compiles.assignments]
    exact compiles.unfolds.forall₂_computes (compiles.named h) compiles.complete
  have length : program.assignments.length + 1 = scene.size := by
    rw [computes.length_eq, branches.postorder_perm_nodes.length_eq, size, h.counted]
    exact nodes.length_eq
  obtain ⟨registry, built, accepted⟩ := h.exists_builtFrom
  have spelled := compiles.spelled_of_accepted h built accepted
  exact
    { length_assignments := by omega
      body_eq := program.body_eq_join
      length_lines := by simpa [Program.lines] using length
      isLine := spelled.isLine
      computes := ⟨branches.postorder, branches.postorder_perm_nodes.trans
        (h.perm_filter_liveNodes compiles.found compiles.unfolds), computes⟩ }

theorem Lined.exists_computes (lined : scene.Lined program) (h : scene.Forest [])
    {assignment : Assignment} (mem : assignment ∈ program.assignments) :
    ∃ node, scene.node? node.id = some node ∧ node.id ≠ scene.root ∧
      assignment.Computes scene node := by
  obtain ⟨nodes, perm, computes⟩ := lined.computes
  obtain ⟨i, lt, rfl⟩ := List.getElem_of_mem mem
  have lt' : i < nodes.length := computes.length_eq ▸ lt
  have listed := perm.mem_iff.mp (List.getElem_mem lt')
  obtain ⟨found, notRoot⟩ := h.mem_filter_liveNodes_iff.mp listed
  exact ⟨nodes[i], found, notRoot, computes.get lt lt'⟩

end Scene

end DistanceField
