import DistanceField.Proofs.Program.Recursion
import DistanceField.Proofs.Scene.Enumeration

/-!
# How long the walks over a scene take

No walk has a bound of its own: it follows the links until there are none left. In a tree it comes
to no node twice, so the number of nodes bounds all walks but that of the compiler, which stops at
every input as well.
-/

namespace DistanceField.Scene
open Turn (Course Visits taken)
open Relation (ReflTransGen)

variable {scene : Scene} {loose ids : List NodeId} {start top : NodeId} {node root : Node}
  {branches : Branches}

theorem Forest.length_le_size (h : scene.Forest loose) (nodup : ids.Nodup)
    (live : ∀ id ∈ ids, scene.Live id) : ids.length ≤ scene.size := by
  have among : ids ⊆ scene.ids := fun id mem => h.live_iff_mem_ids.mp (live id mem)
  have counted : scene.ids.length = scene.size := by
    rw [Scene.ids, List.length_map, size, h.counted]
  exact counted ▸ (List.subperm_of_subset nodup among).length_le

theorem pathStep_child {parent : NodeId} {above : Node} (up : node.parent = some parent)
    (found : scene.node? parent = some above) (names : List String) :
    scene.pathStep (node, names) = .next (above, node.name :: names) := by
  simp [pathStep, up, node_eq_ok_iff.mpr found]

/-- On the way up from a node all nodes but the root are passed once, and each gives a name. -/
theorem Forest.visits_path (h : scene.Forest []) (foundRoot : scene.node? scene.root = some root)
    (path : scene.Reaches scene.root start) (found : scene.node? start = some node)
    (names : List String) : ∃ passed longer, (scene.root :: passed).Nodup ∧
      (∀ low ∈ passed, scene.Reaches low start) ∧ longer.length = names.length + passed.length ∧
        Visits scene.pathStep (fun state => [state.1.id]) passed (node, names)
          (root, longer) := by
  induction path generalizing node names with
  | refl =>
    obtain rfl := Option.some.inj (found.symm.trans foundRoot)
    exact ⟨[], names, by simp, by simp, rfl, .refl _⟩
  | @tail parent child _ edge ih =>
    obtain ⟨slot, held⟩ := edge
    obtain ⟨-, above, node', foundAbove, found', up, -⟩ := h.held held
    obtain rfl := Option.some.inj (found.symm.trans found')
    obtain ⟨passed, longer, nodup, reach, length, onward⟩ := ih foundAbove (node.name :: names)
    have fresh : child ∉ scene.root :: passed := by
      rw [List.mem_cons]
      rintro (rfl | mem)
      · exact h.not_parentOf_top (.inl rfl) held.parentOf
      · exact h.not_reaches_parent held.parentOf (reach child mem)
    have step := pathStep_child up foundAbove names
    refine ⟨child :: passed, longer, ?_, ?_, ?_, .head ?_ step onward⟩
    · exact (List.Perm.swap ..).nodup_iff.mp (List.nodup_cons.mpr ⟨fresh, nodup⟩)
    · intro low mem
      rcases List.mem_cons.mp mem with rfl | mem
      · exact .refl
      · exact (reach low mem).tail held.parentOf
    · rw [length, List.length_cons, List.length_cons]
      omega
    · rw [(h.fits found).id_eq, List.head?_cons]

/-- The way up to the root follows a link for each name, and fewer links than there are nodes. -/
theorem Forest.course_path (h : scene.Forest []) (found : scene.node? start = some node) :
    ∃ names states, scene.path start = .ok names ∧
      Course scene.pathStep (node, []) states (.ok names) ∧ states.length = names.length + 1 ∧
        names.length ≤ scene.size - 1 := by
  obtain ⟨root, foundRoot⟩ := h.root_live
  obtain ⟨top, isTop, way⟩ := h.anchored ⟨node, found⟩
  obtain rfl : top = scene.root := by simpa using isTop
  obtain ⟨passed, names, nodup, reach, length, path⟩ := h.visits_path foundRoot way found []
  have done : scene.pathStep (root, names) = .done (.ok names) := by
    simp [pathStep, (h.fits foundRoot).parent_iff.mpr rfl]
  obtain ⟨states, course, turns, -⟩ := path.exists_course done
  have live : ∀ low ∈ scene.root :: passed, scene.Live low := by
    intro low mem
    rcases List.mem_cons.mp mem with rfl | mem
    · exact h.root_live
    · rcases ReflTransGen.cases_head (reach low mem) with rfl | ⟨next, ⟨slot, held⟩, -⟩
      · exact ⟨node, found⟩
      · exact held.imp fun node here => here.1
  have fewer : passed.length + 1 ≤ scene.size := h.length_le_size nodup live
  have places := h.counted ▸ scene.length_liveNodes_le_size
  have run := course.run_eq (show states.length ≤ scene.nodes.size + 1 by
    rw [size] at fewer
    omega)
  have ok : scene.path start = .ok names := by
    simp [Scene.path, node_eq_ok_iff.mpr found, bind, Except.bind, run]
  rw [List.length_nil, Nat.zero_add] at length
  exact ⟨names, states, ok, course, length ▸ turns, by omega⟩

/-- The search looks at every node of the tree at most once. -/
theorem Forest.course_find (h : scene.Forest []) (start target : NodeId) : ∃ states,
    Course (scene.findStep target) [start] states (scene.find start target) ∧
      (taken (fun stack => stack) states).Nodup ∧
        (taken (fun stack => stack) states).length ≤ scene.size := by
  by_cases live : scene.Live start
  · obtain ⟨tree, unfolds, nodup, -⟩ := h.exists_tree live
    have fewer := h.length_le_size nodup fun id mem => unfolds.live_of_mem mem
    by_cases mem : target ∈ tree.ids
    · obtain ⟨states, course, -, part⟩ := course_find_of_mem unfolds mem
      rw [← find_of_mem unfolds nodup mem] at course
      exact ⟨states, course, nodup.sublist part.sublist, part.length_le.trans fewer⟩
    · obtain ⟨states, course, -, all⟩ := course_find_of_notMem unfolds mem
      rw [← find_of_notMem unfolds nodup mem] at course
      exact ⟨states, course, all ▸ nodup, all ▸ fewer⟩
  · have stops : scene.findStep target [start] = .done (scene.find start target) := by
      rw [(h.unknown live).findFrom]
      simp [findStep, (h.unknown live).node]
    have one : [scene.root].length ≤ scene.size :=
      h.length_le_size (List.nodup_singleton _) (by simp [h.root_live])
    exact ⟨[[start]], .done stops, by simp [taken], by simpa [taken] using one⟩

theorem Forest.course_descendants (h : scene.Forest []) (found : scene.node? start = some node) :
    ∃ states, Course scene.descendantsStep ([], node.children) states (scene.descendants start) ∧
      (taken (·.2) states).Nodup ∧ (taken (·.2) states).length ≤ scene.size := by
  obtain ⟨below, unfolds, lists, nodup⟩ := h.exists_descendants found
  have fewer := h.length_le_size nodup fun id mem => unfolds.live_of_mem mem
  obtain ⟨states, course, -, all⟩ := Scene.course_descendants unfolds
  rw [← lists] at course
  exact ⟨states, course, all ▸ nodup, all ▸ fewer⟩

theorem Forest.turns_add_one (h : scene.Forest []) (found : scene.node? scene.root = some root)
    (unfolds : scene.Unfolds root.inputs branches) :
    branches.turns + 1 = scene.liveNodes.length + scene.slotCount := by
  have perm := h.perm_liveNodes found unfolds
  have nodes := perm.length_eq
  have slots := (perm.flatMap_right Node.inputs).length_eq
  rw [List.flatMap_cons, List.length_append] at slots
  rw [unfolds.turns_eq, slotCount, ← nodes, ← slots, Branches.ids, List.length_map,
    List.length_cons]
  omega

/-- The compiler takes at most one turn for each node and each input, and as many if it comes to its
end. -/
theorem Forest.course_compile (h : scene.Forest []) : ∃ states,
    Course scene.compileStep (#[], [.enter scene.root "node"]) states scene.compile ∧
      states.length ≤ scene.liveNodes.length + scene.slotCount ∧
        ∀ program, scene.compile = .ok program →
          states.length = scene.liveNodes.length + scene.slotCount := by
  obtain ⟨root, found⟩ := h.root_live
  obtain ⟨branches, unfolds⟩ := h.exists_unfolds found
  have turns := h.turns_add_one found unfolds
  cases missing : branches.missing scene.root 0 with
  | some error =>
    obtain ⟨states, course, fewer⟩ := course_of_missing found unfolds missing
    rw [h.compile_eq_error found unfolds missing]
    exact ⟨states, course, by omega, by simp⟩
  | none =>
    obtain ⟨states, result, -, course, length⟩ := h.course_of_complete found unfolds missing
    rw [turns] at length
    have compiled : scene.compile = .ok ⟨branches.code "node", result⟩ := by
      rw [compile, course.run_eq length.le]
    rw [compiled]
    exact ⟨states, course, length.le, fun _ _ => length⟩

/-- The scene with some inputs emptied, and with what had hung there. -/
def emptied (scene : Scene) (inputs : List (NodeId × Nat)) : Scene :=
  inputs.foldl (fun scene input => scene.put input.1 input.2 .empty) scene

theorem Forest.put_empty (h : scene.Forest loose) (id : NodeId) (slot : Nat) :
    ∃ loose, (scene.put id slot .empty).Forest loose := by
  by_cases held : ∃ child, scene.Holds id slot child
  · obtain ⟨child, held⟩ := held
    exact ⟨_, h.detach held⟩
  · by_cases here : ∃ node, scene.node? id = some node ∧ slot < node.inputs.length
    · obtain ⟨node, found, lt⟩ := here
      exact ⟨loose, h.fill found lt (not_exists.mp held) (by simp) (by simp [Suits])⟩
    · refine ⟨loose, ?_⟩
      rw [put_eq_self]
      · exact h
      · intro node found
        exact List.set_eq_of_length_le (Nat.le_of_not_lt fun lt => here ⟨node, found, lt⟩)

theorem Forest.emptied (h : scene.Forest loose) (inputs : List (NodeId × Nat)) :
    ∃ loose, (scene.emptied inputs).Forest loose := by
  induction inputs generalizing scene loose with
  | nil => exact ⟨loose, h⟩
  | cons input inputs ih =>
    obtain ⟨more, emptied⟩ := h.put_empty input.1 input.2
    exact ih emptied

theorem Forest.course_destroy (h : scene.Forest loose) (live : scene.Live top) : ∃ states nodes,
    Course destroyStep (scene.nodes, [top], 0) states
        (nodes, (taken (·.2.1) states).length) ∧
      (taken (·.2.1) states).Nodup ∧
      (∀ low, low ∈ taken (·.2.1) states ↔ scene.Reaches top low) ∧
        (Edit.destroy top).run scene =
          .ok () { scene with nodes, live := scene.live - (taken (·.2.1) states).length } := by
  obtain ⟨tree, unfolds, nodup, mem⟩ := h.exists_tree live
  obtain ⟨_, states, perm, course, -, rfl⟩ := Scene.course_destroy unfolds nodup
  have run := run_destroy unfolds nodup h.counted
  rw [without_eq, ← perm.length_eq] at run
  exact ⟨states, _, course, perm.nodup_iff.mpr nodup, fun low => perm.mem_iff.trans mem, run⟩

/-- What is promised of the turns that the walks over a scene take. -/
structure Bounds (scene : Scene) : Prop where
  /-- All turns but the last one follow a parent link, and each of these gives a name. -/
  localName : ∀ {id node}, scene.node? id = some node → ∃ names states,
    scene.localName id = .ok ("_".intercalate ("node" :: names)) ∧
      Course scene.pathStep (node, []) states (.ok names) ∧ states.length = names.length + 1 ∧
        names.length ≤ scene.size - 1
  find : ∀ start target, ∃ states,
    Course (scene.findStep target) [start] states (scene.find start target) ∧
      (taken (fun stack => stack) states).Nodup ∧
        (taken (fun stack => stack) states).length ≤ scene.size
  descendants : ∀ {id node}, scene.node? id = some node → ∃ states,
    Course scene.descendantsStep ([], node.children) states (scene.descendants id) ∧
      (taken (·.2) states).Nodup ∧ (taken (·.2) states).length ≤ scene.size
  /-- Each node takes a turn, and so does each input; less only if one of them is empty. -/
  compile : ∃ states,
    Course scene.compileStep (#[], [.enter scene.root "node"]) states scene.compile ∧
      states.length ≤ scene.liveNodes.length + scene.slotCount ∧
        ∀ program, scene.compile = .ok program →
          states.length = scene.liveNodes.length + scene.slotCount
  /-- A node is destroyed after inputs were emptied, that in which it hung among them. -/
  destroy : ∀ inputs {top}, (scene.emptied inputs).Live top → ∃ states nodes,
    Course destroyStep ((scene.emptied inputs).nodes, [top], 0) states
        (nodes, (taken (·.2.1) states).length) ∧
      (taken (·.2.1) states).Nodup ∧
      (∀ low, low ∈ taken (·.2.1) states ↔ (scene.emptied inputs).Reaches top low) ∧
        (Edit.destroy top).run (scene.emptied inputs) = .ok () { scene.emptied inputs with
          nodes, live := (scene.emptied inputs).live - (taken (·.2.1) states).length }

theorem bounds_of_reachable (reachable : Reachable scene) : scene.Bounds := by
  have h := reachable.forest
  refine
    { localName := ?_
      find := h.course_find
      descendants := h.course_descendants
      compile := h.course_compile
      destroy := ?_ }
  · intro id node found
    obtain ⟨names, states, path, course, length, fewer⟩ := h.course_path found
    exact ⟨names, states, by rw [localName, path]; rfl, course, length, fewer⟩
  · intro inputs top live
    obtain ⟨loose, emptied⟩ := h.emptied inputs
    exact emptied.course_destroy live

theorem bounds_ball : Reachable ball ∧ ball.Bounds ∧ ∃ states,
    Course ball.compileStep (#[], [.enter ball.root "node"]) states (.ok ballProgram) ∧
      states.length = 6 := by
  have bounds := bounds_of_reachable reachable_ball
  obtain ⟨states, course, -, turns⟩ := bounds.compile
  rw [compile_ball] at course turns
  have count : ball.liveNodes.length + ball.slotCount = 6 := by decide +kernel
  exact ⟨reachable_ball, bounds, states, course, count ▸ turns _ rfl⟩

end DistanceField.Scene
