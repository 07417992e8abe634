import DistanceField.Proofs.Scene.Edits

/-!
# Moving a node

The node is taken off first and is loose while the input it goes to is cleared. So a node may also
be moved to an input in which it hangs already, but deeper: the nodes between are destroyed, it
itself is not.
-/

namespace DistanceField.Scene

variable {scene : Scene} {loose : List NodeId} {id parent target : NodeId} {slot : Nat}
  {node above goal : Node} {value : Slot} {branches : Branches}

/-- All that is checked before a node is taken off. -/
structure Movable (scene : Scene) (id target : NodeId) (slot : Nat) (node : Node) : Prop where
  found : scene.node? id = some node
  notRoot : id ≠ scene.root
  takes : scene.Takes target slot node.operator.output
  elsewhere : ¬ (node.parent = some target ∧ node.slot = slot)
  apart : ¬ scene.Reaches id target
  unused : scene.Unused target slot node.name (some id)

/-- All that is checked before a cycle is looked for holds, and there would be one. -/
structure Circular (scene : Scene) (id target : NodeId) (slot : Nat) (node : Node) : Prop where
  found : scene.node? id = some node
  notRoot : id ≠ scene.root
  takes : scene.Takes target slot node.operator.output
  elsewhere : ¬ (node.parent = some target ∧ node.slot = slot)
  below : scene.Reaches id target

/-- The new links of a moved node. -/
def aim (target : NodeId) (slot : Nat) (node : Node) : Node :=
  { node with parent := some target, slot }

/-- The scene with a node that hung in `place` of `parent` moved to a cleared input. -/
def moved (scene : Scene) (id parent : NodeId) (place : Nat) (target : NodeId) (slot : Nat)
    (branches : Branches) : Scene :=
  (((scene.put parent place .empty).cleared target slot branches).put target slot
    (.child id)).update id (aim target slot)

theorem Forest.run_move_circular (h : scene.Forest loose)
    (circular : scene.Circular id target slot node) :
    (Edit.move id target slot).run scene = .error (.cycleDetected id target) scene := by
  have kind : node.isRoot = false := by
    simpa [Node.isRoot] using mt (h.fits circular.found).kind_iff.mp circular.notRoot
  have taken := checkSlot_eq_ok_iff.mpr circular.takes
  have inside := (h.contains_iff ⟨node, circular.found⟩).mpr circular.below
  simp [Edit.move, node_eq_ok_iff.mpr circular.found, kind, taken, circular.elsewhere, inside]

/-- The check for a cycle comes after those of the node and of the new input, and before that of
the names. -/
theorem Forest.move_checks (h : scene.Forest loose) (id target : NodeId) (slot : Nat) :
    (∃ error : SceneError, error.Local ∧
      (Edit.move id target slot).run scene = .error error scene) ∨
    ((∃ node, scene.node? id = some node ∧ node.parent = some target ∧ node.slot = slot) ∧
      (Edit.move id target slot).run scene = .ok () scene) ∨
    (∃ node, scene.Circular id target slot node) ∨
    ∃ node, scene.Movable id target slot node := by
  -- one case for each check, in the order in which they are made
  cases found : scene.node? id with
  | none => exact .inl ⟨.notFound id, trivial, by simp [Edit.move, Scene.node, found]⟩
  | some node =>
    have kind := (h.fits found).kind_iff
    by_cases root : id = scene.root
    · exact .inl ⟨.rootIsImmovable, trivial,
        by simp [Edit.move, node_eq_ok_iff.mpr found, Node.isRoot, kind.mpr root]⟩
    have notRoot : node.isRoot = false := by simpa [Node.isRoot] using mt kind.mp root
    cases takes : scene.checkSlot target slot node.operator.output with
    | error error =>
      exact .inl ⟨error, local_of_checkSlot takes,
        by simp [Edit.move, node_eq_ok_iff.mpr found, notRoot, takes]⟩
    | ok =>
      have taken := checkSlot_eq_ok_iff.mp takes
      by_cases same : node.parent = some target ∧ node.slot = slot
      · exact .inr (.inl ⟨⟨node, rfl, same⟩,
          by simp [Edit.move, node_eq_ok_iff.mpr found, notRoot, takes, same]⟩)
      by_cases inside : scene.contains id target
      · exact .inr (.inr (.inl ⟨node, found, root, taken, same,
          (h.contains_iff ⟨node, found⟩).mp inside⟩))
      cases unused : scene.checkSiblingName target slot node.name (some id) with
      | error error =>
        exact .inl ⟨error, local_of_checkSiblingName unused,
          by simp [Edit.move, node_eq_ok_iff.mpr found, notRoot, takes, same, inside, unused]⟩
      | ok =>
        have live : scene.Live target := taken.imp fun node taken => taken.1
        exact .inr (.inr (.inr ⟨node, found, root, taken, same,
          mt (h.contains_iff ⟨node, found⟩).mpr inside,
          (h.checkSiblingName_eq_ok_iff live).mp unused⟩))

theorem Forest.move_cases (h : scene.Forest loose) :
    Refused scene (Edit.move id target slot) ∨
      ((∃ node, scene.node? id = some node ∧ node.parent = some target ∧ node.slot = slot) ∧
        (Edit.move id target slot).run scene = .ok () scene) ∨
          ∃ node, scene.Movable id target slot node := by
  rcases h.move_checks id target slot with ⟨error, fine, stops⟩ | stays | ⟨node, circular⟩ | movable
  · exact .inl (refused_of_check fine stops)
  · exact .inr (.inl stays)
  · exact .inl ⟨.cycleDetected id target, by simp, h.run_move_circular circular⟩
  · exact .inr (.inr movable)

theorem Forest.node?_cleared_moved (h : scene.Forest loose)
    (movable : scene.Movable id target slot node) (foundAbove : scene.node? parent = some above)
    (entry : above.inputs[node.slot]? = some (.child id))
    (foundGoal : (scene.put parent node.slot .empty).node? target = some goal)
    (entryGoal : goal.inputs[slot]? = some value)
    (unfolds : (scene.put parent node.slot .empty).Unfolds [value] branches) :
    ((scene.put parent node.slot .empty).cleared target slot branches).node? id = some node := by
  have held : scene.Holds parent node.slot id := ⟨above, foundAbove, entry⟩
  have detached := h.detach held
  have forest := (detached.clear foundGoal entryGoal unfolds).2
  obtain ⟨-, node', found'⟩ := forest.loose_live List.mem_cons_self
  have kept := detached.node?_cleared foundGoal entryGoal unfolds id
  have ne : id ≠ target := fun eq => movable.apart (eq ▸ .refl)
  have ne' : id ≠ parent := (h.ne_of_parentOf held.parentOf).symm
  by_cases mem : id ∈ branches.ids
  · rw [if_pos mem, found'] at kept
    cases kept
  · rw [kept, if_neg mem, if_neg ne, node?_put, if_neg ne', movable.found]

theorem Forest.run_move (h : scene.Forest loose) (movable : scene.Movable id target slot node)
    (up : node.parent = some parent) (foundAbove : scene.node? parent = some above)
    (entry : above.inputs[node.slot]? = some (.child id))
    (foundGoal : (scene.put parent node.slot .empty).node? target = some goal)
    (entryGoal : goal.inputs[slot]? = some value)
    (unfolds : (scene.put parent node.slot .empty).Unfolds [value] branches) :
    (Edit.move id target slot).run scene =
      .ok () (scene.moved id parent node.slot target slot branches) := by
  have kind : node.isRoot = false := by
    simpa [Node.isRoot] using mt (h.fits movable.found).kind_iff.mp movable.notRoot
  have elsewhere : ¬ (some parent = some target ∧ node.slot = slot) := up ▸ movable.elsewhere
  have taken := checkSlot_eq_ok_iff.mpr movable.takes
  have live : scene.Live target := movable.takes.imp fun node taken => taken.1
  have outside : ¬ scene.contains id target :=
    mt (h.contains_iff ⟨node, movable.found⟩).mp movable.apart
  have siblings := (h.checkSiblingName_eq_ok_iff live).mpr movable.unused
  have detached := h.detach ⟨above, foundAbove, entry⟩
  have off := run_writeSlot .empty foundAbove (List.getElem?_eq_some_iff.mp entry).1
  obtain ⟨discarded, -⟩ := detached.clear foundGoal entryGoal unfolds
  have lt : slot < (goal.inputs.set slot .empty).length := by
    simpa using (List.getElem?_eq_some_iff.mp entryGoal).1
  have written := run_writeSlot (.child id)
    (detached.node?_cleared_self foundGoal entryGoal unfolds) lt
  have here := h.node?_cleared_moved movable foundAbove entry foundGoal entryGoal unfolds
  obtain ⟨inputs, here⟩ := exists_node?_put target slot (.child id) here
  have aimed : (Edit.modifyNode id fun node => { node with parent := some target, slot }).run
      (((scene.put parent node.slot .empty).cleared target slot branches).put target slot
        (.child id)) = .ok () (scene.moved id parent node.slot target slot branches) :=
    run_modifyNode here
  simp only [Edit.move, EStateM.run_bind, Edit.run_get, node_eq_ok_iff.mpr movable.found,
    Edit.run_check_ok, kind, Bool.false_eq_true, if_false, taken, up, elsewhere, outside, siblings,
    off, discarded, written, aimed]

/-- A node moved in a forest hangs where it was moved to. -/
theorem Forest.moved (h : scene.Forest loose) (movable : scene.Movable id target slot node)
    (foundAbove : scene.node? parent = some above)
    (entry : above.inputs[node.slot]? = some (.child id))
    (foundGoal : (scene.put parent node.slot .empty).node? target = some goal)
    (entryGoal : goal.inputs[slot]? = some value)
    (unfolds : (scene.put parent node.slot .empty).Unfolds [value] branches) :
    (scene.moved id parent node.slot target slot branches).Forest loose := by
  have detached := h.detach ⟨above, foundAbove, entry⟩
  obtain ⟨-, forest⟩ := detached.clear foundGoal entryGoal unfolds
  have within := (detached.within_cleared foundGoal entryGoal unfolds).trans
    (within_put_empty scene parent node.slot)
  have here := h.node?_cleared_moved movable foundAbove entry foundGoal entryGoal unfolds
  have owner := detached.node?_cleared_self foundGoal entryGoal unfolds
  have ne : target ≠ id := fun eq => movable.apart (eq ▸ .refl)
  have lt := (List.getElem?_eq_some_iff.mp entryGoal).1
  have takes : goal.operator.inputs[slot]? = some node.operator.output := by
    obtain ⟨goal', found, takes⟩ := movable.takes
    obtain ⟨inputs, was⟩ := exists_of_node?_put foundGoal
    obtain rfl := Option.some.inj (was.symm.trans found)
    exact takes
  have notRoot : id ≠ ((scene.put parent node.slot .empty).cleared target slot branches).root := by
    simpa using movable.notRoot
  rw [Scene.moved, put, update_comm _ ne]
  generalize (scene.put parent node.slot .empty).cleared target slot branches = cleared at *
  -- the links of the node are set while it is loose, and only then it is hung up
  have fits : Fits cleared.root id (aim target slot node) :=
    { forest.fits here with parent_iff := iff_of_false (by simp [aim]) notRoot }
  have aimed : (cleared.update id (aim target slot)).Forest (id :: loose) :=
    forest.relabel here rfl rfl fits (.inl List.mem_cons_self)
      fun held => absurd List.mem_cons_self (forest.held held).1
  have holds : ∀ {q t x}, (cleared.update id (aim target slot)).Holds q t x ↔ cleared.Holds q t x :=
    holds_update here rfl
  have owner' : (cleared.update id (aim target slot)).node? target =
      some { goal with inputs := goal.inputs.set slot .empty } :=
    (node?_update_ne ne).trans owner
  have here' : (cleared.update id (aim target slot)).node? id = some (aim target slot node) :=
    node?_update_self here
  apply aimed.hang owner' (by simpa using lt) (fun child => not_holds_emptied owner')
    ⟨_, _, owner', here', rfl, rfl, takes⟩
  · intro path
    exact movable.apart (within.reaches (path.mono fun link => link.imp fun t => holds.mp))
  · intro place other apart held
    have held := holds.mp held
    have other_ne : other ≠ id := fun eq => (forest.held held).1 (eq ▸ List.mem_cons_self)
    have same : (cleared.update id (aim target slot)).name? other = scene.name? other :=
      (name?_update_ne other_ne).trans (within.name? (forest.live_of_holds held))
    have named : (cleared.update id (aim target slot)).name? id = some node.name :=
      name?_update_self here
    rw [same, named]
    exact movable.unused (within.holds held) apart (by simpa using other_ne)

end DistanceField.Scene
