import DistanceField.Proofs.Scene.Census
import DistanceField.Proofs.Scene.Runs

/-!
# What a move changes

A node that is moved takes with it all that hangs below it. What had hung in its new input is
destroyed, but not the moved node and what is below it, should these have hung there too, only
deeper. Apart from the two inputs and the links of the moved node nothing that is left changes.
-/

namespace DistanceField.Scene
open Relation (ReflTransGen)

variable {scene after : Scene} {id parent target low child : NodeId} {slot place : Nat}
  {node above goal old : Node} {value : Slot} {branches : Branches}

/-- A node is among all that hangs in an input. -/
def Under (scene : Scene) (target : NodeId) (slot : Nat) (low : NodeId) : Prop :=
  ∃ child, scene.Holds target slot child ∧ scene.Reaches child low

/-- A node may be moved to an input: the input takes what the node yields, and the node hangs there
already, or it would hang neither below itself nor beside a node of its name. -/
def CanMove (scene : Scene) (id target : NodeId) (slot : Nat) : Prop :=
  ∃ node goal, scene.node? id = some node ∧ id ≠ scene.root ∧ scene.node? target = some goal ∧
    goal.operator.inputs[slot]? = some node.operator.output ∧
      (scene.Holds target slot id ∨ ¬ scene.Reaches id target ∧
        ∀ {place child below}, scene.Holds target place child → place ≠ slot → child ≠ id →
          scene.node? child = some below → below.name ≠ node.name)

/-- What becomes of a scene in which a node was moved to an input where it did not hang. -/
structure Relocated (scene after : Scene) (id target : NodeId) (slot : Nat) (node : Node) :
    Prop where
  /-- What is destroyed hung in the input, but not below the moved node. -/
  live_iff : ∀ {low}, after.Live low ↔
    scene.Live low ∧ ¬ (scene.Under target slot low ∧ ¬ scene.Reaches id low)
  moved : after.node? id = some { node with parent := some target, slot }
  below : ∀ {low}, scene.Reaches id low → low ≠ id → after.node? low = scene.node? low
  filled : after.Holds target slot id
  emptied : ∀ {parent above}, node.parent = some parent → after.node? parent = some above →
    above.inputs[node.slot]? = some .empty
  /-- A node that is left keeps all its inputs but these two, and everything else. -/
  kept : ∀ {low new}, low ≠ id → after.node? low = some new → ∃ old, scene.node? low = some old ∧
    new = { old with inputs := new.inputs } ∧ new.inputs.length = old.inputs.length ∧
      ∀ place, ¬ (low = target ∧ place = slot) → ¬ (node.parent = some low ∧ place = node.slot) →
        new.inputs[place]? = old.inputs[place]?
  apart : ∀ {low}, after.Live low → low ≠ id → low ≠ target → node.parent ≠ some low →
    after.node? low = scene.node? low
  tag : after.tag = scene.tag
  places : after.nodes.size = scene.nodes.size
  size : after.size + (scene.ids.filter (· ∉ after.ids)).length = scene.size

theorem Forest.holds_self_iff (h : scene.Forest []) (found : scene.node? id = some node) :
    scene.Holds target slot id ↔ node.parent = some target ∧ node.slot = slot := by
  rw [h.holds_iff_links]
  constructor
  · rintro ⟨below, found', links⟩
    obtain rfl := Option.some.inj (found.symm.trans found')
    exact links
  · exact fun links => ⟨node, found, links⟩

theorem Forest.run_move_self (h : scene.Forest []) (held : scene.Holds target slot id) :
    (Edit.move id target slot).run scene = .ok () scene := by
  obtain ⟨-, goal, node, foundGoal, found, up, here, takes⟩ := h.held held
  have notRoot : node.isRoot = false := by
    rw [Bool.eq_false_iff, ne_eq, (h.fits found).isRoot_iff]
    rintro rfl
    exact h.not_parentOf_top (.inl rfl) held.parentOf
  have taken := checkSlot_eq_ok_iff.mpr ⟨goal, foundGoal, takes⟩
  simp only [Edit.move, EStateM.run_bind, Edit.run_get, node_eq_ok_iff.mpr found,
    Edit.run_check_ok, notRoot, Bool.false_eq_true, if_false, taken, up, here, and_self, if_true,
    Edit.run_pure]

theorem Movable.canMove (movable : scene.Movable id target slot node) :
    scene.CanMove id target slot := by
  obtain ⟨goal, foundGoal, takes⟩ := movable.takes
  refine ⟨node, goal, movable.found, movable.notRoot, foundGoal, takes, .inr ⟨movable.apart, ?_⟩⟩
  intro place child below held ne other found same
  exact movable.unused held ne (by simpa using other) (by simp [name?, found, same])

theorem Forest.exists_movable (h : scene.Forest []) (may : scene.CanMove id target slot)
    (elsewhere : ¬ scene.Holds target slot id) : ∃ node, scene.Movable id target slot node := by
  obtain ⟨node, goal, found, notRoot, foundGoal, takes, held | ⟨apart, unused⟩⟩ := may
  · exact absurd held elsewhere
  refine ⟨node, found, notRoot, ⟨goal, foundGoal, takes⟩, mt (h.holds_self_iff found).mpr elsewhere,
    apart, ?_⟩
  intro place child held ne other same
  obtain ⟨below, foundBelow⟩ := h.live_of_holds held
  rw [name?, foundBelow, Option.map_some, Option.some.injEq] at same
  exact unused held ne (by simpa using other) foundBelow same

theorem Forest.canMove_of_run (h : scene.Forest [])
    (run : (Edit.move id target slot).run scene = .ok () after) : scene.CanMove id target slot := by
  rcases h.move_cases with ⟨error, -, failed⟩ | ⟨⟨node, found, links⟩, -⟩ | ⟨node, movable⟩
  · rw [failed] at run
    cases run
  · have held := (h.holds_self_iff found).mpr links
    obtain ⟨-, goal, node', foundGoal, found', -, -, takes⟩ := h.held held
    obtain rfl := Option.some.inj (found.symm.trans found')
    have notRoot : id ≠ scene.root := fun root => h.not_parentOf_top (.inl root) held.parentOf
    exact ⟨node, goal, found, notRoot, foundGoal, takes, .inl held⟩
  · exact movable.canMove

theorem Forest.live_of_reaches (h : scene.Forest []) (live : scene.Live child)
    (path : scene.Reaches child low) : scene.Live low := by
  rcases ReflTransGen.cases_tail path with rfl | ⟨last, -, slot, held⟩
  · exact live
  · exact h.live_of_holds held

/-- In what hangs in the new input once the node is taken off are the nodes that hung there before
without being below the node. -/
theorem Forest.reaches_detached_iff (h : scene.Forest []) (held : scene.Holds parent place id)
    (outside : ¬ scene.Reaches id child) :
    (scene.put parent place .empty).Reaches child low ↔
      scene.Reaches child low ∧ ¬ scene.Reaches id low := by
  have within := within_put_empty scene parent place
  have detached := h.detach held
  constructor
  · intro path
    refine ⟨within.reaches path, fun below => ?_⟩
    -- the node is loose, so of two ways to `low` that of the node would lead through `child`
    have path' : (scene.put parent place .empty).Reaches id low := by
      rcases reaches_put_empty held below with path' | path'
      · exact path'
      · exact path'
    rcases detached.reaches_total path path' with up | up
    · refine detached.not_reaches_top (.inr List.mem_cons_self) ?_ up
      rintro rfl
      exact outside .refl
    · exact outside (within.reaches up)
  · rintro ⟨path, apart⟩
    exact (reaches_put_empty held path).resolve_right fun below => apart (within.reaches below)

theorem Forest.mem_branches_iff (h : scene.Forest [])
    (movable : scene.Movable id target slot node) (held : scene.Holds parent node.slot id)
    (foundGoal : (scene.put parent node.slot .empty).node? target = some goal)
    (entryGoal : goal.inputs[slot]? = some value)
    (unfolds : (scene.put parent node.slot .empty).Unfolds [value] branches) :
    low ∈ branches.ids ↔ scene.Under target slot low ∧ ¬ scene.Reaches id low := by
  have elsewhere : ¬ (target = parent ∧ slot = node.slot) := by
    rintro ⟨rfl, rfl⟩
    exact movable.elsewhere ((h.holds_self_iff movable.found).mp held)
  have hangs : ∀ {child}, Slot.child child ∈ [value] ↔ scene.Holds target slot child := by
    intro child
    have kept : (scene.put parent node.slot .empty).Holds target slot child ↔
        scene.Holds target slot child := holds_put_ne elsewhere
    rw [← kept, holds_iff foundGoal, entryGoal]
    simp [eq_comm]
  have outside : ∀ {child}, scene.Holds target slot child → ¬ scene.Reaches id child := by
    intro child hung path
    rcases ReflTransGen.cases_tail path with eq | ⟨last, up, edge⟩
    · obtain ⟨same, same'⟩ := h.holder_unique (eq ▸ hung) held
      exact elsewhere ⟨same, same'⟩
    · exact movable.apart (h.parent_unique edge hung.parentOf ▸ up)
  rw [unfolds.mem_ids_iff, Under, ← exists_and_right]
  refine exists_congr fun child => ?_
  rw [hangs, and_assoc]
  exact and_congr_right fun hung => h.reaches_detached_iff held (outside hung)

/-- The inputs of a node when a child was taken off one input and hung into another. -/
def rewired (owner parent : NodeId) (place : Nat) (target : NodeId) (slot : Nat) (id : NodeId)
    (inputs : List Slot) : List Slot :=
  let emptied := if owner = parent then inputs.set place .empty else inputs
  if owner = target then emptied.set slot (.child id) else emptied

theorem length_rewired (inputs : List Slot) :
    (rewired low parent place target slot id inputs).length = inputs.length := by
  simp only [rewired]
  split <;> split <;> simp

theorem getElem?_rewired {inputs : List Slot} {n : Nat} (lt : n < inputs.length) :
    (rewired low parent place target slot id inputs)[n]? =
      if low = target ∧ n = slot then some (.child id)
      else if low = parent ∧ n = place then some .empty else inputs[n]? := by
  simp only [rewired]
  grind

theorem rewired_of_ne {inputs : List Slot} (notTarget : low ≠ target) (notParent : low ≠ parent) :
    rewired low parent place target slot id inputs = inputs := by
  simp [rewired, notTarget, notParent]

theorem getElem?_rewired_of_ne {inputs : List Slot} {n : Nat} (notFilled : ¬ (low = target ∧ n = slot))
    (notEmptied : ¬ (low = parent ∧ n = place)) :
    (rewired low parent place target slot id inputs)[n]? = inputs[n]? := by
  by_cases lt : n < inputs.length
  · rw [getElem?_rewired lt, if_neg notFilled, if_neg notEmptied]
  · rw [List.getElem?_eq_none (Nat.le_of_not_lt lt),
      List.getElem?_eq_none (by rw [length_rewired]; exact Nat.le_of_not_lt lt)]

theorem Forest.node?_moved {loose : List NodeId}
    (detached : (scene.put parent place .empty).Forest loose)
    (foundGoal : (scene.put parent place .empty).node? target = some goal)
    (entryGoal : goal.inputs[slot]? = some value)
    (unfolds : (scene.put parent place .empty).Unfolds [value] branches) (ne : low ≠ id) :
    (scene.moved id parent place target slot branches).node? low =
      if low ∈ branches.ids then none
      else (scene.node? low).map fun old =>
        { old with inputs := rewired low parent place target slot id old.inputs } := by
  have cleared := detached.node?_cleared foundGoal entryGoal unfolds
  have notGone : target ∉ branches.ids := detached.notMem_ids foundGoal entryGoal unfolds
  have emptied : (scene.put parent place .empty).node? low = (scene.node? low).map fun old =>
      { old with inputs := if low = parent then old.inputs.set place .empty else old.inputs } := by
    rw [node?_put]
    by_cases atParent : low = parent <;> simp [atParent]
  rw [Scene.moved, node?_update, if_neg ne, node?_put]
  by_cases atTarget : low = target
  · subst atTarget
    rw [emptied] at foundGoal
    obtain ⟨old, was, rfl⟩ := Option.map_eq_some_iff.mp foundGoal
    rw [if_pos rfl, cleared, if_neg notGone, if_pos rfl, if_neg notGone, was]
    simp [rewired]
  · rw [if_neg atTarget, cleared, if_neg atTarget, emptied]
    simp [rewired, atTarget]

theorem Forest.nodup_liveIds {loose : List NodeId} (h : scene.Forest loose) : scene.ids.Nodup := by
  refine h.nodup_liveNodes.map_on fun node mem other mem' same => ?_
  have found := h.mem_liveNodes_iff.mp mem
  rw [same, h.mem_liveNodes_iff.mp mem'] at found
  exact (Option.some.inj found).symm

theorem size_moved (scene : Scene) (id parent : NodeId) (place : Nat) (target : NodeId) (slot : Nat)
    (branches : Branches) : (scene.moved id parent place target slot branches).size =
      scene.size - branches.ids.length := by
  simp [Scene.moved, cleared, put, size, live_without]

/-- A scene after a move, node by node: some nodes are gone, the moved node has other links, and
every other node has its rewired inputs. -/
structure Rewires (scene after : Scene) (id parent target : NodeId) (slot : Nat) (node : Node)
    (gone : List NodeId) : Prop where
  movable : scene.Movable id target slot node
  up : node.parent = some parent
  held : scene.Holds parent node.slot id
  gone_iff : ∀ {low}, low ∈ gone ↔ scene.Under target slot low ∧ ¬ scene.Reaches id low
  moved : after.node? id = some (aim target slot node)
  others : ∀ {low}, low ≠ id → after.node? low =
    if low ∈ gone then none
    else (scene.node? low).map fun old =>
      { old with inputs := rewired low parent node.slot target slot id old.inputs }

/-- A move that passes all checks goes through, and rewires the scene. -/
theorem Forest.exists_rewires (h : scene.Forest []) (movable : scene.Movable id target slot node) :
    ∃ after parent gone, (Edit.move id target slot).run scene = .ok () after ∧ after.Forest [] ∧
      Rewires scene after id parent target slot node gone ∧ gone.Nodup ∧
        after.tag = scene.tag ∧ after.nodes.size = scene.nodes.size ∧
          after.size = scene.size - gone.length := by
  obtain ⟨parent, above, up, foundAbove, entry⟩ := h.exists_above movable.found movable.notRoot
  have held : scene.Holds parent node.slot id := ⟨above, foundAbove, entry⟩
  have detached := h.detach held
  obtain ⟨goal, found, takes⟩ := movable.takes
  obtain ⟨inputs, foundGoal⟩ := exists_node?_put parent node.slot .empty found
  obtain ⟨value, branches, entryGoal, unfolds⟩ := detached.exists_site foundGoal takes
  have moved : (scene.moved id parent node.slot target slot branches).node? id =
      some (aim target slot node) := by
    have here := h.node?_cleared_moved movable foundAbove entry foundGoal entryGoal unfolds
    have ne : id ≠ target := fun eq => movable.apart (eq ▸ .refl)
    rw [Scene.moved, node?_update_self]
    rw [node?_put, if_neg ne, here]
  refine ⟨scene.moved id parent node.slot target slot branches, parent, branches.ids,
    h.run_move movable up foundAbove entry foundGoal entryGoal unfolds,
    h.moved movable foundAbove entry foundGoal entryGoal unfolds, ?_,
    detached.nodup_ids_slot unfolds, by simp [Scene.moved],
    by simp [Scene.moved, Scene.cleared], size_moved ..⟩
  exact
    { movable := movable
      up := up
      held := held
      gone_iff := h.mem_branches_iff movable held foundGoal entryGoal unfolds
      moved := moved
      others := fun ne => detached.node?_moved foundGoal entryGoal unfolds ne }

namespace Rewires

variable {gone : List NodeId}

theorem live_iff (rewires : Rewires scene after id parent target slot node gone) :
    after.Live low ↔ scene.Live low ∧ low ∉ gone := by
  by_cases same : low = id
  · subst same
    exact iff_of_true ⟨_, rewires.moved⟩
      ⟨⟨node, rewires.movable.found⟩, fun mem => (rewires.gone_iff.mp mem).2 .refl⟩
  · rw [Live, rewires.others same]
    by_cases mem : low ∈ gone <;> simp [mem, Live]

theorem exists_old (rewires : Rewires scene after id parent target slot node gone) {new : Node}
    (ne : low ≠ id) (found : after.node? low = some new) : ∃ old, scene.node? low = some old ∧
      new = { old with inputs := rewired low parent node.slot target slot id old.inputs } := by
  rw [rewires.others ne] at found
  split at found
  · cases found
  · obtain ⟨old, was, eq⟩ := Option.map_eq_some_iff.mp found
    exact ⟨old, was, eq.symm⟩

theorem node?_eq (rewires : Rewires scene after id parent target slot node gone)
    (left : low ∉ gone) (ne : low ≠ id) (notTarget : low ≠ target) (notParent : low ≠ parent) :
    after.node? low = scene.node? low := by
  simp [rewires.others ne, left, rewired_of_ne notTarget notParent]

/-- The two inputs of a move are not one and the same. -/
theorem elsewhere (rewires : Rewires scene after id parent target slot node gone) :
    ¬ (parent = target ∧ node.slot = slot) := by
  rintro ⟨rfl, here⟩
  exact rewires.movable.elsewhere ⟨rewires.up, here⟩

theorem filled (rewires : Rewires scene after id parent target slot node gone)
    (h : scene.Forest []) : after.Holds target slot id := by
  obtain ⟨old, was, takes⟩ := rewires.movable.takes
  have ne : target ≠ id := fun eq => rewires.movable.apart (eq ▸ .refl)
  have left : target ∉ gone := by
    intro mem
    obtain ⟨⟨child, held, path⟩, -⟩ := rewires.gone_iff.mp mem
    exact h.not_reaches_parent held.parentOf path
  have lt : slot < old.inputs.length := by
    rw [(h.fits was).length_inputs]
    exact (List.getElem?_eq_some_iff.mp takes).1
  refine ⟨_, by rw [rewires.others ne, if_neg left, was, Option.map_some], ?_⟩
  rw [getElem?_rewired lt, if_pos ⟨rfl, rfl⟩]

theorem emptied (rewires : Rewires scene after id parent target slot node gone)
    (h : scene.Forest []) (found : after.node? parent = some above) :
    above.inputs[node.slot]? = some .empty := by
  have ⟨was, foundWas, entry⟩ := rewires.held
  obtain ⟨old, found', rfl⟩ := rewires.exists_old (h.ne_of_parentOf rewires.held.parentOf) found
  obtain rfl := Option.some.inj (foundWas.symm.trans found')
  have lt := (List.getElem?_eq_some_iff.mp entry).1
  rw [getElem?_rewired lt, if_neg rewires.elsewhere, if_pos ⟨rfl, rfl⟩]

theorem perm_gone (rewires : Rewires scene after id parent target slot node gone)
    (h : scene.Forest []) (forest : after.Forest []) (nodup : gone.Nodup) :
    (scene.ids.filter (· ∉ after.ids)).Perm gone := by
  apply (List.perm_ext_iff_of_nodup (h.nodup_liveIds.filter _) nodup).mpr
  intro low
  rw [List.mem_filter, ← h.live_iff_mem_ids, decide_eq_true_iff, ← forest.live_iff_mem_ids,
    rewires.live_iff]
  constructor
  · rintro ⟨live, dead⟩
    by_contra left
    exact dead ⟨live, left⟩
  · intro mem
    obtain ⟨⟨child, held, path⟩, -⟩ := rewires.gone_iff.mp mem
    exact ⟨h.live_of_reaches (h.live_of_holds held) path, fun ⟨_, left⟩ => left mem⟩

theorem relocated (rewires : Rewires scene after id parent target slot node gone)
    (h : scene.Forest []) (forest : after.Forest []) (nodup : gone.Nodup)
    (tag : after.tag = scene.tag) (places : after.nodes.size = scene.nodes.size)
    (size : after.size = scene.size - gone.length) :
    Relocated scene after id target slot node where
  live_iff := by
    intro low
    rw [rewires.live_iff, rewires.gone_iff]
  moved := rewires.moved
  below := by
    intro low below ne
    refine rewires.node?_eq (fun mem => (rewires.gone_iff.mp mem).2 below) ne ?_ ?_
    · rintro rfl
      exact rewires.movable.apart below
    · rintro rfl
      exact h.not_reaches_parent rewires.held.parentOf below
  filled := rewires.filled h
  emptied := by
    intro parent' above up found
    obtain rfl := Option.some.inj (rewires.up.symm.trans up)
    exact rewires.emptied h found
  kept := by
    intro low new ne found
    obtain ⟨old, was, rfl⟩ := rewires.exists_old ne found
    refine ⟨old, was, rfl, length_rewired _, fun n notFilled notEmptied => ?_⟩
    refine getElem?_rewired_of_ne notFilled ?_
    rintro ⟨rfl, here⟩
    exact notEmptied ⟨rewires.up, here⟩
  apart := by
    intro low live ne notTarget notParent
    refine rewires.node?_eq (rewires.live_iff.mp live).2 ne notTarget ?_
    rintro rfl
    exact notParent rewires.up
  tag := tag
  places := places
  size := by
    -- what is gone was counted before, so the subtraction does not stop at zero
    have le : gone.length ≤ scene.size := by
      have bound := List.length_filter_le (· ∉ after.ids) scene.ids
      rwa [(rewires.perm_gone h forest nodup).length_eq, ids, List.length_map,
        ← h.counted] at bound
    rw [(rewires.perm_gone h forest nodup).length_eq, size]
    omega

end Rewires

/-- A move goes through exactly if the node may be moved there. Where the node hangs already it
changes nothing, and otherwise it does what is said here. -/
theorem move_iff_canMove (reachable : Reachable scene) (id target : NodeId) (slot : Nat) :
    ((∃ after, (Edit.move id target slot).run scene = .ok () after) ↔
      scene.CanMove id target slot) ∧
    (scene.Holds target slot id → (Edit.move id target slot).run scene = .ok () scene) ∧
    ∀ after, (Edit.move id target slot).run scene = .ok () after →
      ¬ scene.Holds target slot id →
        ∃ node, scene.node? id = some node ∧ Relocated scene after id target slot node := by
  have h := reachable.forest
  have goes : ∀ {node}, scene.Movable id target slot node → ∃ after,
      (Edit.move id target slot).run scene = .ok () after ∧
        Relocated scene after id target slot node := by
    intro node movable
    obtain ⟨after, parent, gone, run, forest, rewires, nodup, tag, places, size⟩ :=
      h.exists_rewires movable
    exact ⟨after, run, rewires.relocated h forest nodup tag places size⟩
  refine ⟨⟨fun ⟨after, run⟩ => h.canMove_of_run run, fun may => ?_⟩, h.run_move_self, ?_⟩
  · by_cases held : scene.Holds target slot id
    · exact ⟨scene, h.run_move_self held⟩
    · obtain ⟨node, movable⟩ := h.exists_movable may held
      obtain ⟨after, run, -⟩ := goes movable
      exact ⟨after, run⟩
  · intro after run elsewhere
    obtain ⟨node, movable⟩ := h.exists_movable (h.canMove_of_run run) elsewhere
    obtain ⟨after', run', relocated⟩ := goes movable
    rw [run] at run'
    cases run'
    exact ⟨node, movable.found, relocated⟩

def deepBall : Scene :=
  Command.after (.attach "ball" (Builtin.sphere.named "sdf_sphere") ⟨7, 2⟩ 1)
    (Command.after (.attach "inner" (Builtin.union.named "op_union") ⟨7, 1⟩ 0)
      (Command.after (.attach "outer" (Builtin.union.named "op_union") ⟨7, 0⟩ 0) (Scene.new 7)))

theorem reachable_deepBall : Reachable deepBall := by
  have outer : Command.Allowed (.attach "outer" (Builtin.union.named "op_union") ⟨7, 0⟩ 0) :=
    .inl Operator.accepted_union
  have inner : Command.Allowed (.attach "inner" (Builtin.union.named "op_union") ⟨7, 1⟩ 0) :=
    .inl Operator.accepted_union
  have ball : Command.Allowed (.attach "ball" (Builtin.sphere.named "sdf_sphere") ⟨7, 2⟩ 1) :=
    .inl Operator.accepted_sphere
  exact (((Reachable.new 7).step outer).step inner).step ball

theorem canMove_deepBall : Reachable deepBall ∧ deepBall.CanMove ⟨7, 3⟩ ⟨7, 0⟩ 0 ∧
    ∃ after node, (Edit.move ⟨7, 3⟩ ⟨7, 0⟩ 0).run deepBall = .ok () after ∧
      Relocated deepBall after ⟨7, 3⟩ ⟨7, 0⟩ 0 node ∧ deepBall.size = 4 ∧ after.size = 2 := by
  obtain ⟨goes, -, effect⟩ := move_iff_canMove reachable_deepBall ⟨7, 3⟩ ⟨7, 0⟩ 0
  have run : (Edit.move ⟨7, 3⟩ ⟨7, 0⟩ 0).run deepBall =
      .ok () (Command.after (.move ⟨7, 3⟩ ⟨7, 0⟩ 0) deepBall) := rfl
  have elsewhere : ¬ deepBall.Holds ⟨7, 0⟩ 0 ⟨7, 3⟩ := by
    rintro ⟨node, found, entry⟩
    have outer : (deepBall.node? ⟨7, 0⟩).bind (·.inputs[0]?) = some (.child ⟨7, 1⟩) := by
      decide +kernel
    rw [found, Option.bind_some, entry] at outer
    cases outer
  obtain ⟨node, -, relocated⟩ := effect _ run elsewhere
  exact ⟨reachable_deepBall, goes.mp ⟨_, run⟩, _, node, run, relocated, by decide +kernel,
    by decide +kernel⟩

end DistanceField.Scene
