import DistanceField.Proofs.Scene.Relocation

/-!
# What a removal changes

A node is destroyed together with all that hangs below it, and nothing else is, whether it is
deleted, its input is cleared or a literal is written in its place. Of what is left only the one
input has other content.
-/

namespace DistanceField.Scene

variable {scene : Scene} {loose : List NodeId} {id parent low : NodeId} {slot : Nat} {node : Node}
  {value content : Slot} {literal : Literal} {branches : Branches}

/-- What becomes of a scene in which an input gets other content: what had hung there is
destroyed. -/
structure Refilled (scene after : Scene) (id : NodeId) (slot : Nat) (content : Slot) : Prop where
  live_iff : ∀ {low}, after.Live low ↔ scene.Live low ∧ ¬ scene.Under id slot low
  /-- The owner of the input is left, and only this input of it changes. -/
  owner : ∃ node, scene.node? id = some node ∧ slot < node.inputs.length ∧
    after.node? id = some { node with inputs := node.inputs.set slot content }
  others : ∀ {low}, after.Live low → low ≠ id → after.node? low = scene.node? low
  tag : after.tag = scene.tag
  places : after.nodes.size = scene.nodes.size
  size : ∃ gone : List NodeId, gone.Nodup ∧ (∀ {low}, low ∈ gone ↔ scene.Under id slot low) ∧
    after.size + gone.length = scene.size

theorem put_self (found : scene.node? id = some node) (entry : node.inputs[slot]? = some content) :
    scene.put id slot content = scene := by
  obtain ⟨lt, here⟩ := List.getElem?_eq_some_iff.mp entry
  refine put_eq_self fun {other} found' => ?_
  obtain rfl := Option.some.inj (found.symm.trans found')
  rw [← here, List.set_getElem_self]

/-- An input that was cleared can be cleared again, and nothing changes. -/
theorem Forest.cleared_cleared (h : scene.Forest loose) (found : scene.node? id = some node)
    (entry : node.inputs[slot]? = some value) (unfolds : scene.Unfolds [value] branches) :
    (scene.cleared id slot branches).cleared id slot (.empty .nil) =
      scene.cleared id slot branches := by
  have lt := (List.getElem?_eq_some_iff.mp entry).1
  exact put_self (h.node?_cleared_self found entry unfolds) (by simp [lt])

theorem Unfolds.mem_ids_iff_under (unfolds : scene.Unfolds [value] branches)
    (found : scene.node? id = some node) (entry : node.inputs[slot]? = some value) :
    low ∈ branches.ids ↔ scene.Under id slot low := by
  rw [unfolds.mem_ids_iff, Under]
  refine exists_congr fun child => and_congr_left fun _ => ?_
  rw [holds_iff found, entry, List.mem_singleton, Option.some.injEq, eq_comm]

theorem Holds.under_iff (held : scene.Holds parent slot id) :
    scene.Under parent slot low ↔ scene.Reaches id low := by
  constructor
  · rintro ⟨child, held', path⟩
    obtain ⟨node, found, entry⟩ := held
    rw [holds_iff found, entry] at held'
    cases held'
    exact path
  · exact fun path => ⟨id, held, path⟩

theorem Forest.node?_refilled (h : scene.Forest loose) (found : scene.node? id = some node)
    (entry : node.inputs[slot]? = some value) (unfolds : scene.Unfolds [value] branches)
    (content : Slot) (low : NodeId) :
    ((scene.cleared id slot branches).put id slot content).node? low =
      if low ∈ branches.ids then none
      else if low = id then some { node with inputs := node.inputs.set slot content }
      else scene.node? low := by
  have owner := h.node?_cleared_self found entry unfolds
  rw [node?_put, owner, h.node?_cleared found entry unfolds]
  by_cases same : low = id
  · simp [same, h.notMem_ids found entry unfolds]
  · simp [same]

theorem Forest.refilled (h : scene.Forest loose) (found : scene.node? id = some node)
    (entry : node.inputs[slot]? = some value) (unfolds : scene.Unfolds [value] branches)
    (content : Slot) :
    scene.Refilled ((scene.cleared id slot branches).put id slot content) id slot content := by
  have look := h.node?_refilled found entry unfolds content
  have under : ∀ {low}, low ∈ branches.ids ↔ scene.Under id slot low :=
    unfolds.mem_ids_iff_under found entry
  have survives : ∀ {low}, ((scene.cleared id slot branches).put id slot content).Live low ↔
      scene.Live low ∧ low ∉ branches.ids := by
    intro low
    rw [Live, Live, look]
    by_cases gone : low ∈ branches.ids
    · simp [gone]
    · by_cases same : low = id <;> simp [gone, same, found]
  have nodup := h.nodup_ids_slot unfolds
  have le : branches.ids.length ≤ scene.live := h.counted ▸ unfolds.length_le_live nodup
  refine
    { live_iff := survives.trans (and_congr_right' (not_congr under))
      owner := ⟨node, found, (List.getElem?_eq_some_iff.mp entry).1, ?_⟩
      others := ?_
      tag := by simp
      places := by simp [cleared]
      size := ⟨branches.ids, nodup, under, ?_⟩ }
  · rw [look, if_neg (h.notMem_ids found entry unfolds), if_pos rfl]
  · intro low live ne
    rw [look, if_neg (survives.mp live).2, if_neg ne]
  · simp only [size, put, cleared, live_update, live_without]
    omega

theorem Forest.refilled_empty (h : scene.Forest loose) (found : scene.node? id = some node)
    (entry : node.inputs[slot]? = some value) (unfolds : scene.Unfolds [value] branches) :
    scene.Refilled (scene.cleared id slot branches) id slot .empty := by
  have refilled := h.refilled found entry unfolds .empty
  have again : (scene.cleared id slot branches).put id slot .empty =
      scene.cleared id slot branches := h.cleared_cleared found entry unfolds
  rwa [again] at refilled

theorem Forest.clear_refills (h : scene.Forest loose) (found : scene.node? id = some node)
    (lt : slot < node.inputs.length) : ∃ after, (Edit.clear id slot).run scene = .ok () after ∧
      scene.Refilled after id slot .empty := by
  have entry := List.getElem?_eq_getElem lt
  obtain ⟨branches, unfolds⟩ := h.exists_unfolds_slot found entry
  exact ⟨_, h.run_clear found entry unfolds, h.refilled_empty found entry unfolds⟩

/-- A node is deleted by clearing the input in which it hangs. -/
theorem Forest.run_delete_eq (h : scene.Forest loose) (found : scene.node? id = some node)
    (notRoot : id ≠ scene.root) (up : node.parent = some parent)
    (held : scene.Holds parent node.slot id) :
    (Edit.delete id).run scene = (Edit.clear parent node.slot).run scene := by
  obtain ⟨above, foundAbove, entry⟩ := held
  obtain ⟨branches, unfolds⟩ := h.exists_unfolds_slot foundAbove entry
  rw [h.run_delete found notRoot up foundAbove entry unfolds, h.run_clear foundAbove entry unfolds]

theorem Forest.setLiteral_refills (h : scene.Forest loose) (found : scene.node? id = some node)
    (takes : node.operator.inputs[slot]? = some literal.type) (finite : literal.isFinite) :
    ∃ after, (Edit.setLiteral id slot literal).run scene = .ok () after ∧
      scene.Refilled after id slot (.literal literal) := by
  obtain ⟨value, branches, entry, unfolds⟩ := h.exists_site found takes
  exact ⟨_, h.run_setLiteral found takes finite entry unfolds, h.refilled found entry unfolds _⟩

/-- The input to which a literal is written may be cleared first. -/
theorem Forest.run_clear_setLiteral (h : scene.Forest loose) (found : scene.node? id = some node)
    (takes : node.operator.inputs[slot]? = some literal.type) (finite : literal.isFinite) :
    (do Edit.clear id slot; Edit.setLiteral id slot literal : Edit Unit).run scene =
      (Edit.setLiteral id slot literal).run scene := by
  obtain ⟨value, branches, entry, unfolds⟩ := h.exists_site found takes
  have lt := (List.getElem?_eq_some_iff.mp entry).1
  have owner := h.node?_cleared_self found entry unfolds
  have vacant : (node.inputs.set slot .empty)[slot]? = some .empty := by simp [lt]
  have onward := (h.clear found entry unfolds).2.run_setLiteral owner takes finite vacant
    (.empty .nil)
  simp only [EStateM.run_bind, h.run_clear found entry unfolds]
  rw [onward, h.run_setLiteral found takes finite entry unfolds,
    h.cleared_cleared found entry unfolds]

/-- The three ways to remove what hangs in an input. Each goes through and changes only this. -/
structure Removals (scene : Scene) : Prop where
  delete : ∀ {id node}, scene.node? id = some node → id ≠ scene.root →
    ∃ parent after, node.parent = some parent ∧
      (Edit.delete id).run scene = .ok () after ∧
        (Edit.clear parent node.slot).run scene = .ok () after ∧
          scene.Refilled after parent node.slot .empty ∧
            ∀ {low}, scene.Under parent node.slot low ↔ scene.Reaches id low
  clear : ∀ {id node} {slot : Nat}, scene.node? id = some node → slot < node.inputs.length →
    ∃ after, (Edit.clear id slot).run scene = .ok () after ∧ scene.Refilled after id slot .empty
  setLiteral : ∀ {id node} {slot : Nat} {literal : Literal}, scene.node? id = some node →
    node.operator.inputs[slot]? = some literal.type → literal.isFinite →
      ∃ after, (Edit.setLiteral id slot literal).run scene = .ok () after ∧
        (do Edit.clear id slot; Edit.setLiteral id slot literal : Edit Unit).run scene =
          .ok () after ∧
            scene.Refilled after id slot (.literal literal)

/-- A removal destroys one subtree, and it is the same whichever way it is made. -/
theorem removals_of_reachable (reachable : Reachable scene) : scene.Removals := by
  have h := reachable.forest
  refine { delete := ?_, clear := ?_, setLiteral := ?_ }
  · intro id node found notRoot
    obtain ⟨parent, above, up, foundAbove, entry⟩ := h.exists_above found notRoot
    have held : scene.Holds parent node.slot id := ⟨above, foundAbove, entry⟩
    obtain ⟨after, run, refilled⟩ :=
      h.clear_refills foundAbove (List.getElem?_eq_some_iff.mp entry).1
    exact ⟨parent, after, up, (h.run_delete_eq found notRoot up held).trans run, run, refilled,
      held.under_iff⟩
  · intro id node slot found lt
    obtain ⟨after, run, refilled⟩ := h.clear_refills found lt
    exact ⟨after, run, refilled⟩
  · intro id node slot literal found takes finite
    obtain ⟨after, run, refilled⟩ := h.setLiteral_refills found takes finite
    exact ⟨after, run, (h.run_clear_setLiteral found takes finite).trans run, refilled⟩

theorem removals_deepBall : Reachable deepBall ∧ deepBall.Removals ∧
    ∃ after, (Edit.delete ⟨7, 2⟩).run deepBall = .ok () after ∧
      deepBall.Refilled after ⟨7, 1⟩ 0 .empty ∧ deepBall.size = 4 ∧ after.size = 2 := by
  have removals := removals_of_reachable reachable_deepBall
  have inner : (deepBall.node? ⟨7, 2⟩).map (fun node => (node.parent, node.slot)) =
      some (some ⟨7, 1⟩, 0) := by decide +kernel
  obtain ⟨node, found, links⟩ := Option.map_eq_some_iff.mp inner
  obtain ⟨parent, after, up, run, -, refilled, -⟩ := removals.delete found (by decide)
  obtain ⟨rfl, place⟩ : parent = ⟨7, 1⟩ ∧ node.slot = 0 := by
    rw [up] at links
    simpa using links
  have left : after.size = 2 := by
    have ends : (Command.after (.delete ⟨7, 2⟩) deepBall).size = 2 := by decide +kernel
    simpa only [Command.after, Command.edit, run] using ends
  exact ⟨reachable_deepBall, removals, after, run, place ▸ refilled, by decide +kernel, left⟩

end DistanceField.Scene
