import DistanceField.Proofs.Scene.Branches
import DistanceField.Proofs.Scene.Outcome
import DistanceField.Proofs.Turns
import Mathlib.Data.List.Flatten

/-!
# Walks over a tree

A walk takes the topmost identifier from its stack, looks at the node and puts the children on the
stack. What hangs in some inputs is thus walked through before anything that lies deeper in the
stack, each node once.
-/

namespace DistanceField.Scene
open Turn (Course Visits taken)

variable {scene : Scene} {loose : List NodeId} {start target top : NodeId} {node : Node}
  {slots : List Slot} {branches : Branches}

/-- The identifiers that a list of inputs puts on the stack of a walk. -/
abbrev stacked (slots : List Slot) : List NodeId := slots.filterMap Slot.child?

theorem length_liveNodes_le_size (scene : Scene) : scene.liveNodes.length ≤ scene.nodes.size := by
  rw [length_liveNodes]
  exact List.countP_le_length.trans (by simp)

theorem Unfolds.length_le_live (h : scene.Unfolds slots branches) (nodup : branches.ids.Nodup) :
    branches.ids.length ≤ scene.liveNodes.length := by
  rw [Branches.ids, List.length_map]
  exact (h.subperm nodup).length_le

theorem Unfolds.length_inputs_le_slotCount (h : scene.Unfolds slots branches)
    (nodup : branches.ids.Nodup) :
    (branches.nodes.flatMap Node.inputs).length ≤ scene.slotCount := by
  obtain ⟨nodes, perm, sublist⟩ := h.subperm nodup
  rw [← (perm.flatMap_right Node.inputs).length_eq]
  exact (sublist.flatMap Node.inputs).length_le

theorem Unfolds.length_le_slotCount (h : scene.Unfolds slots branches)
    (nodup : branches.ids.Nodup) : branches.ids.length ≤ slots.length + scene.slotCount :=
  h.length_ids_le.trans (Nat.add_le_add_left (h.length_inputs_le_slotCount nodup) _)

theorem findStep_of_ne (found : scene.node? top = some node) (ne : top ≠ target)
    (stack : List NodeId) :
    scene.findStep target (top :: stack) = .next (stacked node.inputs ++ stack) := by
  simp [findStep, node_eq_ok_iff.mpr found, ne, Node.children]

theorem findStep_self (found : scene.node? target = some node) (stack : List NodeId) :
    scene.findStep target (target :: stack) = .done (.ok node) := by
  simp [findStep, node_eq_ok_iff.mpr found]

theorem findStep_nil : scene.findStep target [] = .done (.error (.notFound target)) := rfl

theorem visits_find_of_notMem (h : scene.Unfolds slots branches) (out : target ∉ branches.ids)
    (stack : List NodeId) : Visits (scene.findStep target) (fun stack => stack) branches.ids
      (stacked slots ++ stack) stack := by
  induction h generalizing stack with
  | nil => exact .refl stack
  | empty _ ih => exact ih out stack
  | literal _ ih => exact ih out stack
  | @child node slots below rest found _ _ ihBelow ihRest =>
    simp only [Branches.ids_child, List.mem_cons, List.mem_append, not_or] at out
    have turn := findStep_of_ne found (Ne.symm out.1) (stacked slots ++ stack)
    have path := (ihBelow out.2.1 (stacked slots ++ stack)).trans (ihRest out.2.2 stack)
    rw [Branches.ids_child]
    exact .head rfl turn path

theorem visits_find_of_mem (h : scene.Unfolds slots branches) (mem : target ∈ branches.ids)
    (stack : List NodeId) : ∃ before deeper, before ++ [target] <+: branches.ids ∧
      Visits (scene.findStep target) (fun stack => stack) before (stacked slots ++ stack)
        (target :: deeper) := by
  induction h generalizing stack with
  | nil => simp at mem
  | empty _ ih => exact ih mem stack
  | literal _ ih => exact ih mem stack
  | @child node slots below rest found unfoldsBelow _ ihBelow ihRest =>
    simp only [Branches.ids_child, List.mem_cons] at mem ⊢
    by_cases here : target = node.id
    · exact ⟨[], stacked slots ++ stack, by simp [here], here ▸ .refl _⟩
    have turn := findStep_of_ne found (Ne.symm here) (stacked slots ++ stack)
    by_cases inBelow : target ∈ below.ids
    · obtain ⟨before, deeper, isPrefix, path⟩ := ihBelow inBelow (stacked slots ++ stack)
      refine ⟨node.id :: before, deeper, ?_, .head rfl turn path⟩
      exact List.prefix_cons_inj _ |>.mpr (isPrefix.trans (List.prefix_append _ _))
    · have skip := visits_find_of_notMem unfoldsBelow inBelow (stacked slots ++ stack)
      have inRest : target ∈ rest.ids := by simpa [here, inBelow] using mem
      obtain ⟨before, deeper, isPrefix, path⟩ := ihRest inRest stack
      refine ⟨node.id :: (below.ids ++ before), deeper, ?_, .head rfl turn (skip.trans path)⟩
      rw [List.cons_append, List.append_assoc]
      exact List.prefix_cons_inj _ |>.mpr ((List.prefix_append_right_inj _).mpr isPrefix)

/-- The search for what occurs ends with it, and looks at a part of the tree. -/
theorem course_find_of_mem (h : scene.Unfolds [.child start] branches)
    (mem : target ∈ branches.ids) : ∃ states,
      Course (scene.findStep target) [start] states (scene.node target) ∧
        states.length ≤ branches.ids.length ∧
          taken (fun stack => stack) states <+: branches.ids := by
  obtain ⟨before, deeper, isPrefix, path⟩ := visits_find_of_mem h mem []
  obtain ⟨node, found⟩ := h.live_of_mem mem
  obtain ⟨states, course, length, all⟩ := path.exists_course (findStep_self found deeper)
  have shorter := isPrefix.length_le
  rw [List.length_append, List.length_singleton, ← length] at shorter
  rw [node_eq_ok_iff.mpr found]
  exact ⟨states, course, shorter, by rw [all]; exact isPrefix⟩

/-- The search for what does not occur looks at the whole tree. -/
theorem course_find_of_notMem (h : scene.Unfolds [.child start] branches)
    (out : target ∉ branches.ids) : ∃ states,
      Course (scene.findStep target) [start] states (.error (.notFound target)) ∧
        states.length = branches.ids.length + 1 ∧
          taken (fun stack => stack) states = branches.ids := by
  obtain ⟨states, course, length, all⟩ :=
    (visits_find_of_notMem h out []).exists_course findStep_nil
  exact ⟨states, course, length, by simpa using all⟩

theorem find_of_mem (h : scene.Unfolds [.child start] branches) (nodup : branches.ids.Nodup)
    (mem : target ∈ branches.ids) : scene.find start target = scene.node target := by
  obtain ⟨states, course, length, -⟩ := course_find_of_mem h mem
  have bound := (h.length_le_live nodup).trans scene.length_liveNodes_le_size
  rw [find, course.run_eq (by omega)]

theorem find_of_notMem (h : scene.Unfolds [.child start] branches) (nodup : branches.ids.Nodup)
    (out : target ∉ branches.ids) : scene.find start target = .error (.notFound target) := by
  obtain ⟨states, course, length, -⟩ := course_find_of_notMem h out
  have bound := (h.length_le_live nodup).trans scene.length_liveNodes_le_size
  rw [find, course.run_eq (by omega)]

theorem Forest.exists_tree (h : scene.Forest loose) (live : scene.Live start) :
    ∃ tree, scene.Unfolds [.child start] tree ∧ tree.ids.Nodup ∧
      ∀ {target}, target ∈ tree.ids ↔ scene.Reaches start target := by
  obtain ⟨node, found⟩ := live
  obtain ⟨below, unfolds⟩ := h.exists_unfolds found
  have tree : scene.Unfolds [.child start] (.child node below .nil) :=
    (h.fits found).id_eq ▸ h.unfolds_self found unfolds
  refine ⟨_, tree, h.nodup_ids_slot tree, fun {target} => ?_⟩
  rw [tree.mem_ids_iff]
  simp

/-- The search below a node finds exactly what can be reached from it. -/
theorem Forest.contains_iff (h : scene.Forest loose) (live : scene.Live start) :
    scene.contains start target ↔ scene.Reaches start target := by
  obtain ⟨tree, unfolds, nodup, mem⟩ := h.exists_tree live
  by_cases reached : target ∈ tree.ids
  · obtain ⟨node, found⟩ := unfolds.live_of_mem reached
    simp [contains, find_of_mem unfolds nodup reached, node_eq_ok_iff.mpr found, mem.mp reached]
  · simp [contains, find_of_notMem unfolds nodup reached, mt mem.mpr reached]

/-- The enumeration adds what hangs in the inputs on the stack, in the order of the tree. -/
theorem visits_descendants (h : scene.Unfolds slots branches) (seen stack : List NodeId) :
    Visits scene.descendantsStep (·.2) branches.ids
      (seen, stacked slots ++ stack) (branches.ids.reverse ++ seen, stack) := by
  induction h generalizing seen stack with
  | nil => exact .refl _
  | empty _ ih => exact ih seen stack
  | literal _ ih => exact ih seen stack
  | @child node slots below rest found _ _ ihBelow ihRest =>
    have turn : scene.descendantsStep (seen, node.id :: (stacked slots ++ stack)) =
        .next (node.id :: seen, stacked node.inputs ++ (stacked slots ++ stack)) := by
      simp [descendantsStep, children, node_eq_ok_iff.mpr found, Except.map, Node.children]
    have path := (ihBelow (node.id :: seen) (stacked slots ++ stack)).trans (ihRest _ stack)
    have order : rest.ids.reverse ++ (below.ids.reverse ++ node.id :: seen) =
        (node.id :: (below.ids ++ rest.ids)).reverse ++ seen := by simp
    rw [Branches.ids_child, ← order]
    exact .head rfl turn path

theorem course_descendants (h : scene.Unfolds node.inputs branches) : ∃ states,
    Course scene.descendantsStep ([], node.children) states (.ok branches.ids) ∧
      states.length = branches.ids.length + 1 ∧
        taken (·.2) states = branches.ids := by
  have done : scene.descendantsStep (branches.ids.reverse ++ [], []) =
      .done (.ok branches.ids) := by simp [descendantsStep]
  have path := visits_descendants h [] []
  rw [List.append_nil (stacked node.inputs)] at path
  obtain ⟨states, course, length, all⟩ := path.exists_course done
  exact ⟨states, course, length, by simpa using all⟩

theorem descendants_eq (found : scene.node? start = some node)
    (h : scene.Unfolds node.inputs branches) (nodup : branches.ids.Nodup) :
    scene.descendants start = .ok branches.ids := by
  obtain ⟨states, course, length, -⟩ := course_descendants h
  have bound := (h.length_le_live nodup).trans scene.length_liveNodes_le_size
  have run := course.run_eq (show states.length ≤ scene.nodes.size + 1 by omega)
  simp [descendants, children, node_eq_ok_iff.mpr found, bind, Except.bind, Except.map, run]

/-- The destruction takes what hangs in the inputs on the stack, each node once. -/
theorem visits_destroy (h : scene.Unfolds slots branches) (nodup : branches.ids.Nodup)
    (other : Scene) (tag : other.tag = scene.tag)
    (same : ∀ id ∈ branches.ids, other.node? id = scene.node? id)
    (stack : List NodeId) (count : Nat) : ∃ items, items.Perm branches.ids ∧
      Visits destroyStep (·.2.1) items (other.nodes, (stacked slots).reverse ++ stack, count)
        ((other.without items).nodes, stack, count + items.length) := by
  induction h generalizing other stack count with
  | nil => exact ⟨[], .refl _, .refl _⟩
  | empty _ ih => exact ih nodup other tag same stack count
  | literal _ ih => exact ih nodup other tag same stack count
  | @child node slots below rest found unfoldsBelow unfoldsRest ihBelow ihRest =>
    simp only [Branches.ids_child, List.nodup_cons, List.nodup_append, List.mem_append, not_or,
      List.mem_cons] at nodup same
    obtain ⟨⟨outBelow, outRest⟩, nodupBelow, nodupRest, disjoint⟩ := nodup
    -- the inputs behind this one are on top of the stack
    obtain ⟨last, permLast, pathLast⟩ := ihRest nodupRest other tag
      (fun id mem => same id (.inr (.inr mem))) (node.id :: stack) count
    have tags : ∀ id ∈ last, id.tag = other.tag :=
      fun id mem => (unfoldsRest.tag_of_mem (permLast.mem_iff.mp mem)).trans tag.symm
    have left : ∀ id, id ∉ rest.ids → (other.without last).node? id = other.node? id :=
      fun id out => by rw [node?_without tags, if_neg (mt permLast.mem_iff.mp out)]
    have found' : (other.without last).node? node.id = some node :=
      (left _ outRest).trans ((same _ (.inl rfl)).trans found)
    obtain ⟨tag', entry⟩ := node?_eq_some_iff.mp found'
    have turn : destroyStep ((other.without last).nodes, node.id :: stack, count + last.length) =
        .next (((other.without last).erase node.id).nodes,
          (stacked node.inputs).reverse ++ stack, count + last.length + 1) := by
      simp [destroyStep, entry, erase, Node.children]
    have sameBelow : ∀ id ∈ below.ids,
        ((other.without last).erase node.id).node? id = scene.node? id := by
      intro id mem
      have ne : id ≠ node.id := fun eq => outBelow (eq ▸ mem)
      have out : id ∉ rest.ids := fun mem' => disjoint id mem id mem' rfl
      rw [node?_erase tag', if_neg ne, left id out, same id (.inr (.inl mem))]
    obtain ⟨deeper, permDeeper, pathDeeper⟩ := ihBelow nodupBelow
      ((other.without last).erase node.id) (by simpa using tag) sameBelow stack
      (count + last.length + 1)
    refine ⟨last ++ node.id :: deeper, ?_, ?_⟩
    · rw [Branches.ids_child]
      exact List.perm_middle.trans (((permLast.append permDeeper).trans
        List.perm_append_comm).cons node.id)
    · have order : (stacked (.child node.id :: slots)).reverse ++ stack =
          (stacked slots).reverse ++ node.id :: stack := by
        simp [stacked, Slot.child?]
      have total : count + (last ++ node.id :: deeper).length =
          count + last.length + 1 + deeper.length := by
        rw [List.length_append, List.length_cons]
        omega
      rw [order, total, without_append, without_cons]
      exact pathLast.trans (.head rfl turn pathDeeper)

/-- The destruction of a node looks at what it unfolds to. -/
theorem course_destroy (h : scene.Unfolds [.child top] branches) (nodup : branches.ids.Nodup) :
    ∃ items states, items.Perm branches.ids ∧
      Course destroyStep (scene.nodes, [top], 0) states
        ((scene.without branches.ids).nodes, items.length) ∧
      states.length = items.length + 1 ∧ taken (·.2.1) states = items := by
  obtain ⟨items, perm, path⟩ := visits_destroy h nodup scene rfl (fun _ _ => rfl) [] 0
  have done : destroyStep ((scene.without items).nodes, [], 0 + items.length) =
      .done ((scene.without branches.ids).nodes, items.length) := by
    simp [destroyStep, without_perm perm fun id mem => h.tag_of_mem mem]
  obtain ⟨states, course, length, all⟩ := path.exists_course done
  exact ⟨items, states, perm, course, length, by simpa using all⟩

theorem without_eq (scene : Scene) (ids : List NodeId) : scene.without ids =
    { scene with nodes := (scene.without ids).nodes, live := scene.live - ids.length } := by
  rw [← live_without, ← tag_without scene ids]

theorem run_destroy (h : scene.Unfolds [.child top] branches) (nodup : branches.ids.Nodup)
    (counted : scene.Counted) :
    (Edit.destroy top).run scene = .ok () (scene.without branches.ids) := by
  obtain ⟨items, states, perm, course, length, -⟩ := course_destroy h nodup
  rw [perm.length_eq] at course length
  have bound : branches.ids.length ≤ 1 + scene.slotCount := h.length_le_slotCount nodup
  have run := course.run_eq (show states.length ≤ scene.slotCount + 2 by omega)
  have le : branches.ids.length ≤ scene.live := counted ▸ h.length_le_live nodup
  rw [without_eq scene branches.ids]
  simp only [Edit.destroy, EStateM.run_bind, Edit.run_get, run, le, if_true, Edit.run_set]

end DistanceField.Scene
