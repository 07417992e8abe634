import DistanceField.Proofs.Scene.Relocation

/-!
# Moves that can be taken back

A move to an empty input destroys nothing. The input that the node left is empty as well, so the
node can be moved back there, and then the scene is what it was.
-/

namespace DistanceField.Scene
open Relation (ReflTransGen)

variable {scene after : Scene} {id parent target low child owner : NodeId} {slot place : Nat}
  {node : Node} {gone : List NodeId} {inputs : List Slot}

def Vacant (scene : Scene) (id : NodeId) (slot : Nat) : Prop :=
  ∃ node, scene.node? id = some node ∧ node.inputs[slot]? = some .empty

theorem Vacant.not_holds (vacant : scene.Vacant target slot) : ¬ scene.Holds target slot child := by
  obtain ⟨node, found, entry⟩ := vacant
  rw [holds_iff found, entry]
  simp

theorem Vacant.not_under (vacant : scene.Vacant target slot) : ¬ scene.Under target slot low :=
  fun ⟨_, held, _⟩ => vacant.not_holds held

/-- A child that is taken off one input and hung into an empty one, and then brought back, leaves
the inputs as they were. -/
theorem rewired_rewired
    (held : owner = parent → inputs[place]? = some (.child id))
    (empty : owner = target → inputs[slot]? = some .empty) :
    rewired owner target slot parent place id (rewired owner parent place target slot id inputs) =
      inputs := by
  apply List.ext_getElem?
  intro n
  by_cases lt : n < inputs.length
  · have lt' : n < (rewired owner parent place target slot id inputs).length := by
      rwa [length_rewired]
    rw [getElem?_rewired lt', getElem?_rewired lt]
    by_cases atParent : owner = parent ∧ n = place
    · rw [if_pos atParent, atParent.2, held atParent.1]
    rw [if_neg atParent]
    by_cases atTarget : owner = target ∧ n = slot
    · rw [if_pos atTarget, atTarget.2, empty atTarget.1]
    · rw [if_neg atTarget, if_neg atTarget, if_neg atParent]
  · rw [List.getElem?_eq_none (by simpa [length_rewired] using lt),
      List.getElem?_eq_none (by simpa using lt)]

theorem Relocated.reaches_of_reaches (relocated : Relocated scene after id target slot node)
    (found : scene.node? id = some node) (path : after.Reaches id low) : scene.Reaches id low := by
  induction path with
  | refl => exact .refl
  | @tail above below _ edge ih =>
    obtain ⟨place, holder, here, entry⟩ := edge
    have held : scene.Holds above place below := by
      by_cases same : above = id
      · subst same
        obtain rfl := Option.some.inj (relocated.moved.symm.trans here)
        exact ⟨node, found, entry⟩
      · exact ⟨holder, relocated.below ih same ▸ here, entry⟩
    exact ih.tail held.parentOf

namespace Rewires

theorem gone_eq_nil (rewires : Rewires scene after id parent target slot node gone)
    (vacant : scene.Vacant target slot) : gone = [] := by
  apply List.eq_nil_iff_forall_not_mem.mpr
  intro low mem
  exact vacant.not_under (rewires.gone_iff.mp mem).1

/-- The input that the node left is empty. -/
theorem vacant (rewires : Rewires scene after id parent target slot node gone)
    (h : scene.Forest []) (left : parent ∉ gone) : after.Vacant parent node.slot := by
  have ⟨above, found, entry⟩ := rewires.held
  have here : after.Live parent := rewires.live_iff.mpr ⟨⟨above, found⟩, left⟩
  obtain ⟨above', found'⟩ := here
  exact ⟨above', found', rewires.emptied h found'⟩

/-- Beside the input that the node left nobody has its name. -/
theorem unused (rewires : Rewires scene after id parent target slot node gone)
    (h : scene.Forest []) : after.Unused parent node.slot node.name (some id) := by
  rintro place child ⟨above, found, entry⟩ ne other same
  have notMoved : child ≠ id := fun eq => other (by rw [eq])
  obtain ⟨old, was, rfl⟩ := rewires.exists_old (h.ne_of_parentOf rewires.held.parentOf) found
  -- the child is not the moved node, so it hung there before
  have notFilled : ¬ (parent = target ∧ place = slot) := by
    rintro filled
    have lt := (List.getElem?_eq_some_iff.mp entry).1
    rw [length_rewired] at lt
    rw [getElem?_rewired lt, if_pos filled] at entry
    exact notMoved (Slot.child.inj (Option.some.inj entry)).symm
  rw [getElem?_rewired_of_ne notFilled fun emptied => ne emptied.2] at entry
  have held : scene.Holds parent place child := ⟨old, was, entry⟩
  have name : scene.name? child = some node.name := by
    obtain ⟨below, there, eq⟩ := Option.map_eq_some_iff.mp same
    obtain ⟨before, was', rfl⟩ := rewires.exists_old notMoved there
    rw [name?, was', Option.map_some, eq]
  refine ne (h.siblings held rewires.held ?_)
  rw [name, name?, rewires.movable.found, Option.map_some]

theorem movable_back (rewires : Rewires scene after id parent target slot node gone)
    (relocated : Relocated scene after id target slot node) (h : scene.Forest [])
    (left : parent ∉ gone) : after.Movable id parent node.slot (aim target slot node) where
  found := rewires.moved
  notRoot := by
    rw [root, relocated.tag]
    exact rewires.movable.notRoot
  takes := by
    obtain ⟨-, above, below, foundAbove, foundBelow, -, -, takes⟩ := h.held rewires.held
    obtain rfl := Option.some.inj (rewires.movable.found.symm.trans foundBelow)
    have ne := h.ne_of_parentOf rewires.held.parentOf
    have kept := rewires.others ne
    rw [if_neg left, foundAbove, Option.map_some] at kept
    exact ⟨_, kept, takes⟩
  elsewhere := by
    rintro ⟨same, here⟩
    exact rewires.elsewhere ⟨(Option.some.inj same).symm, here.symm⟩
  apart path := h.not_reaches_parent rewires.held.parentOf
    (relocated.reaches_of_reaches rewires.movable.found path)
  unused := rewires.unused h

/-- A move and a move back, neither of which destroys anything, come to the scene at the
beginning. -/
theorem node?_back {back : Scene} (rewires : Rewires scene after id parent target slot node [])
    (rewiresBack : Rewires after back id target parent node.slot (aim target slot node) [])
    (vacant : scene.Vacant target slot) (low : NodeId) : back.node? low = scene.node? low := by
  by_cases same : low = id
  · rw [same, rewiresBack.moved, rewires.movable.found]
    simp only [aim, ← rewires.up]
  · rw [rewiresBack.others same, rewires.others same]
    cases found : scene.node? low with
    | none => rfl
    | some old =>
      have held : low = parent → old.inputs[node.slot]? = some (.child id) := by
        rintro rfl
        exact (holds_iff found).mp rewires.held
      have empty : low = target → old.inputs[slot]? = some .empty := by
        rintro rfl
        obtain ⟨goal, was, entry⟩ := vacant
        obtain rfl := Option.some.inj (found.symm.trans was)
        exact entry
      simp [aim, rewired_rewired held empty]

end Rewires

/-- A node that was moved to an empty input can be moved back, and nothing is left of the move. -/
theorem move_back_of_vacant (reachable : Reachable scene) (vacant : scene.Vacant target slot)
    (run : (Edit.move id target slot).run scene = .ok () after) :
    ∃ node parent, scene.node? id = some node ∧ node.parent = some parent ∧
      (Edit.move id parent node.slot).run after = .ok () scene := by
  have h := reachable.forest
  obtain ⟨node, movable⟩ := h.exists_movable (h.canMove_of_run run) vacant.not_holds
  obtain ⟨after', parent, gone, run', forest, rewires, nodup, tag, places, size⟩ :=
    h.exists_rewires movable
  rw [run] at run'
  cases run'
  obtain rfl := rewires.gone_eq_nil vacant
  have relocated := rewires.relocated h forest nodup tag places size
  have movableBack := rewires.movable_back relocated h List.not_mem_nil
  have vacantBack := rewires.vacant h List.not_mem_nil
  obtain ⟨back, parent', gone, runBack, -, rewiresBack, -, tagBack, placesBack, sizeBack⟩ :=
    forest.exists_rewires movableBack
  obtain rfl : target = parent' := Option.some.inj rewiresBack.up
  obtain rfl := rewiresBack.gone_eq_nil vacantBack
  have live : back.live = scene.live := by
    have whole : back.size = scene.size := by simpa [size] using sizeBack
    exact whole
  have same : back = scene := ext_node? (tagBack.trans tag) live (placesBack.trans places)
    (rewires.node?_back rewiresBack vacant)
  exact ⟨node, parent, movable.found, rewires.up, same ▸ runBack⟩

theorem move_back_deepBall : Reachable deepBall ∧ deepBall.Vacant ⟨7, 1⟩ 1 ∧
    ∃ after, (Edit.move ⟨7, 3⟩ ⟨7, 1⟩ 1).run deepBall = .ok () after ∧
      after.Holds ⟨7, 1⟩ 1 ⟨7, 3⟩ ∧ (Edit.move ⟨7, 3⟩ ⟨7, 2⟩ 1).run after = .ok () deepBall := by
  have vacant : deepBall.Vacant ⟨7, 1⟩ 1 := ⟨_, rfl, rfl⟩
  have run : (Edit.move ⟨7, 3⟩ ⟨7, 1⟩ 1).run deepBall =
      .ok () (Command.after (.move ⟨7, 3⟩ ⟨7, 1⟩ 1) deepBall) := rfl
  have ball : (deepBall.node? ⟨7, 3⟩).map (fun node => (node.parent, node.slot)) =
      some (some ⟨7, 2⟩, 1) := by decide +kernel
  obtain ⟨node, parent, found, up, back⟩ := move_back_of_vacant reachable_deepBall vacant run
  obtain ⟨rfl, place⟩ : parent = ⟨7, 2⟩ ∧ node.slot = 1 := by
    rw [found, Option.map_some, up] at ball
    simpa using ball
  exact ⟨reachable_deepBall, vacant, _, run, ⟨_, rfl, rfl⟩, place ▸ back⟩

end DistanceField.Scene
