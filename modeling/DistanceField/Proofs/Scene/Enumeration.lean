import DistanceField.Proofs.Scene.Census
import DistanceField.Proofs.Scene.Lifetimes
import DistanceField.Proofs.Scene.Relocation

/-!
# Enumeration and search as recursions on the tree

The walks down a scene, the way up along the parent links and the tree of the scene tell the same
about what hangs below what. So the search that a move makes first tells whether the move would
close a cycle.
-/

namespace DistanceField.Scene
open Relation (TransGen)

variable {scene : Scene} {id target parent low above start : NodeId} {slot place : Nat}
  {node goal : Node} {listed : List NodeId}

/-- What hangs below a node is listed in the order of its tree. -/
theorem Forest.exists_descendants (h : scene.Forest []) (found : scene.node? id = some node) :
    ∃ below, scene.Unfolds node.inputs below ∧ scene.descendants id = .ok below.ids ∧
      below.ids.Nodup := by
  obtain ⟨below, unfolds⟩ := h.exists_unfolds found
  have nodup := h.nodup_ids_slot (h.unfolds_self found unfolds)
  rw [Branches.ids_child, List.nodup_cons, Branches.ids_nil, List.append_nil] at nodup
  exact ⟨below, unfolds, descendants_eq found unfolds nodup.2, nodup.2⟩

theorem descendants_of_not_live (gone : ¬ scene.Live id) :
    scene.descendants id = .error (.notFound id) := by
  simp [descendants, children, Scene.node, not_live_iff.mp gone, Except.map, bind, Except.bind]

theorem live_of_descendants (h : scene.descendants id = .ok listed) : scene.Live id := by
  by_contra gone
  rw [descendants_of_not_live gone] at h
  cases h

theorem Forest.mem_descendants_iff (h : scene.Forest [])
    (lists : scene.descendants above = .ok listed) :
    low ∈ listed ↔ TransGen scene.ParentOf above low := by
  obtain ⟨node, found⟩ := live_of_descendants lists
  obtain ⟨below, unfolds, lists', -⟩ := h.exists_descendants found
  obtain rfl := Except.ok.inj (lists.symm.trans lists')
  exact unfolds.mem_ids_iff_below found

theorem Forest.mem_cons_descendants_iff (h : scene.Forest [])
    (lists : scene.descendants start = .ok listed) :
    target ∈ start :: listed ↔ scene.Reaches start target := by
  rw [List.mem_cons, h.mem_descendants_iff lists]
  exact Relation.reflTransGen_iff_eq_or_transGen.symm

theorem Forest.find_eq (h : scene.Forest []) (live : scene.Live start) (target : NodeId) :
    (scene.Reaches start target →
      ∃ node, scene.node target = .ok node ∧ scene.find start target = .ok node) ∧
    (¬ scene.Reaches start target → scene.find start target = .error (.notFound target)) := by
  obtain ⟨tree, unfolds, nodup, mem⟩ := h.exists_tree live
  constructor
  · intro path
    have reached := mem.mpr path
    obtain ⟨node, found⟩ := unfolds.live_of_mem reached
    exact ⟨node, node_eq_ok_iff.mpr found,
      (find_of_mem unfolds nodup reached).trans (node_eq_ok_iff.mpr found)⟩
  · exact fun apart => find_of_notMem unfolds nodup (mt mem.mp apart)

/-- The links as they would be with a node taken off its input and hung into another one. -/
def rehung (scene : Scene) (id parent : NodeId) (place : Nat) (target : NodeId) (slot : Nat) :
    Scene :=
  (scene.put parent place .empty).put target slot (.child id)

/-- Hung into an input of `target`, the node would make some node its own ancestor. -/
def Entangles (scene : Scene) (id target : NodeId) (slot : Nat) : Prop :=
  ∃ parent place low, scene.Holds parent place id ∧
    TransGen (scene.rehung id parent place target slot).ParentOf low low

theorem holds_rehung_self (found : scene.node? target = some goal)
    (lt : slot < goal.inputs.length) :
    (scene.rehung id parent place target slot).Holds target slot id := by
  obtain ⟨inputs, found', length⟩ : ∃ inputs, (scene.put parent place .empty).node? target =
      some { goal with inputs } ∧ inputs.length = goal.inputs.length := by
    rw [node?_put]
    by_cases same : target = parent
    · exact ⟨_, by rw [if_pos same, ← same, found, Option.map_some], List.length_set⟩
    · exact ⟨_, by rw [if_neg same, found], rfl⟩
  exact (holds_put_self found' (by rw [length]; exact lt)).mpr rfl

/-- The new link apart, the links are those that there were, less the one to the node. -/
theorem parentOf_of_rehung
    (edge : (scene.rehung id parent place target slot).ParentOf above low) :
    above = target ∧ low = id ∨ scene.ParentOf above low := by
  obtain ⟨n, edge⟩ := edge
  rcases holds_of_put edge with ⟨here, written⟩ | edge
  · cases written
    exact .inl ⟨here, rfl⟩
  · exact .inr ((within_put_empty scene parent place).holds edge).parentOf

theorem parentOf_rehung (held : scene.Holds parent place id)
    (edge : scene.ParentOf above low) (notTarget : above ≠ target) (ne : low ≠ id) :
    (scene.rehung id parent place target slot).ParentOf above low := by
  obtain ⟨n, edge⟩ := edge
  have kept : ¬ (above = parent ∧ n = place) := by
    rintro ⟨rfl, rfl⟩
    obtain ⟨node, found, entry⟩ := held
    rw [holds_iff found, entry] at edge
    cases edge
    exact ne rfl
  refine ⟨n, (holds_put_ne fun filled => notTarget filled.1).mpr ?_⟩
  exact (holds_put_ne kept).mpr edge

/-- The way down from a node to the target of its move stays when the node is taken off. -/
theorem Forest.reaches_rehung (h : scene.Forest []) (held : scene.Holds parent place id)
    (path : scene.Reaches id low) (onward : scene.Reaches low target) :
    (scene.rehung id parent place target slot).Reaches id low := by
  induction path with
  | refl => exact .refl
  | @tail a b up edge ih =>
    have notTarget : a ≠ target := by
      rintro rfl
      exact h.acyclic a (.head' edge onward)
    have ne : b ≠ id := by
      rintro rfl
      exact h.acyclic b (.tail' up edge)
    exact (ih (onward.head edge)).tail (parentOf_rehung held edge notTarget ne)

theorem transGen_of_rehung
    (path : TransGen (scene.rehung id parent place target slot).ParentOf above low) :
    TransGen scene.ParentOf above low ∨ scene.Reaches id low := by
  induction path with
  | single edge =>
    rcases parentOf_of_rehung edge with ⟨-, rfl⟩ | edge
    · exact .inr .refl
    · exact .inl (.single edge)
  | tail _ edge ih =>
    rcases parentOf_of_rehung edge with ⟨-, rfl⟩ | edge
    · exact .inr .refl
    · exact ih.imp (·.tail edge) (·.tail edge)

/-- Nobody below the node passes the new link, if the target is not below the node. -/
theorem transGen_of_rehung_below (apart : ¬ scene.Reaches id target)
    (start : scene.Reaches id above)
    (path : TransGen (scene.rehung id parent place target slot).ParentOf above low) :
    TransGen scene.ParentOf above low := by
  induction path with
  | single edge =>
    rcases parentOf_of_rehung edge with ⟨rfl, -⟩ | edge
    · exact absurd start apart
    · exact .single edge
  | tail _ edge ih =>
    rcases parentOf_of_rehung edge with ⟨rfl, -⟩ | edge
    · exact absurd (start.trans ih.to_reflTransGen) apart
    · exact ih.tail edge

/-- Without a way from the node to the target the new link closes no cycle. -/
theorem Forest.acyclic_rehung (h : scene.Forest []) (apart : ¬ scene.Reaches id target) :
    ¬ TransGen (scene.rehung id parent place target slot).ParentOf low low := by
  intro cycle
  rcases transGen_of_rehung cycle with cycle' | reached
  · exact h.acyclic low cycle'
  · exact h.acyclic low (transGen_of_rehung_below apart reached cycle)

/-- A node is hung below itself exactly if it is hung into what it reaches. -/
theorem Forest.entangles_iff (h : scene.Forest []) (live : scene.Live id)
    (notRoot : id ≠ scene.root) (found : scene.node? target = some goal)
    (lt : slot < goal.inputs.length) :
    scene.Entangles id target slot ↔ scene.Reaches id target := by
  constructor
  · rintro ⟨parent, place, low, -, cycle⟩
    by_contra apart
    exact h.acyclic_rehung apart cycle
  · intro path
    obtain ⟨node, foundNode⟩ := live
    obtain ⟨parent, above, -, foundAbove, entry⟩ := h.exists_above foundNode notRoot
    have held : scene.Holds parent node.slot id := ⟨above, foundAbove, entry⟩
    have back : (scene.rehung id parent node.slot target slot).ParentOf target id :=
      (holds_rehung_self found lt).parentOf
    exact ⟨parent, node.slot, id, held, .tail' (h.reaches_rehung held path .refl) back⟩

/-- A move is refused for a cycle exactly if it comes to this check and would close one. -/
theorem Forest.run_move_eq_cycleDetected_iff (h : scene.Forest []) :
    (Edit.move id target slot).run scene = .error (.cycleDetected id target) scene ↔
      ∃ node, scene.node? id = some node ∧ id ≠ scene.root ∧
        scene.Takes target slot node.operator.output ∧ ¬ scene.Holds target slot id ∧
          scene.Entangles id target slot := by
  have tangled : ∀ {node}, scene.node? id = some node → id ≠ scene.root →
      scene.Takes target slot node.operator.output →
        (scene.Entangles id target slot ↔ scene.Reaches id target) := by
    rintro node found notRoot ⟨goal, foundGoal, takes⟩
    obtain ⟨value, -, entry, -⟩ := h.exists_site foundGoal takes
    exact h.entangles_iff ⟨node, found⟩ notRoot foundGoal (List.getElem?_eq_some_iff.mp entry).1
  constructor
  · intro run
    rcases h.move_checks id target slot with
      ⟨error, fine, stops⟩ | ⟨-, stays⟩ | ⟨node, circular⟩ | ⟨node, movable⟩
    · rw [stops] at run
      cases run
      exact fine.elim
    · rw [stays] at run
      cases run
    · exact ⟨node, circular.found, circular.notRoot, circular.takes,
        mt (h.holds_self_iff circular.found).mp circular.elsewhere,
        (tangled circular.found circular.notRoot circular.takes).mpr circular.below⟩
    · obtain ⟨after, -, -, goes, -⟩ := h.exists_rewires movable
      rw [goes] at run
      cases run
  · rintro ⟨node, found, notRoot, takes, elsewhere, cycle⟩
    exact h.run_move_circular ⟨found, notRoot, takes, mt (h.holds_self_iff found).mpr elsewhere,
      (tangled found notRoot takes).mp cycle⟩

/-- What is promised of the walks over a scene that list or find nodes. -/
structure Searches (scene : Scene) : Prop where
  /-- What is listed below a node is the tree of its inputs, each node before those below it. -/
  preorder : ∀ {id node}, scene.node? id = some node → ∃ below,
    scene.Unfolds node.inputs below ∧ scene.descendants id = .ok below.ids ∧ below.ids.Nodup
  whole : ∃ listed, scene.descendants scene.root = .ok listed ∧
    (scene.root :: listed).Perm scene.ids
  climbs : ∀ {above low listed}, scene.descendants above = .ok listed →
    (low ∈ listed ↔ ∃ steps, scene.climb (steps + 1) low = some above)
  found : ∀ {start target listed}, scene.descendants start = .ok listed →
    target ∈ start :: listed →
      ∃ node, scene.node target = .ok node ∧ scene.find start target = .ok node
  notFound : ∀ {start target listed}, scene.descendants start = .ok listed →
    target ∉ start :: listed → scene.find start target = .error (.notFound target)
  lost : ∀ {start target}, scene.Live start → ¬ scene.Live target →
    scene.find start target = .error (.notFound target)
  /-- The test that a move makes is whether the new link would close a cycle. -/
  contains_iff : ∀ {id target goal slot}, scene.Live id → id ≠ scene.root →
    scene.node? target = some goal → slot < goal.inputs.length →
      (scene.contains id target ↔ scene.Entangles id target slot)
  cycle : ∀ {id target slot},
    (Edit.move id target slot).run scene = .error (.cycleDetected id target) scene ↔
      ∃ node, scene.node? id = some node ∧ id ≠ scene.root ∧
        scene.Takes target slot node.operator.output ∧ ¬ scene.Holds target slot id ∧
          scene.Entangles id target slot

theorem searches_of_reachable (reachable : Reachable scene) : scene.Searches := by
  have h := reachable.forest
  refine
    { preorder := h.exists_descendants
      whole := ?_
      climbs := fun lists => (h.mem_descendants_iff lists).trans h.transGen_iff_climb
      found := ?_
      notFound := ?_
      lost := fun live gone => (h.unknown gone).find live
      contains_iff := fun live notRoot found lt =>
        (h.contains_iff live).trans (h.entangles_iff live notRoot found lt).symm
      cycle := h.run_move_eq_cycleDetected_iff }
  · obtain ⟨root, found⟩ := h.root_live
    obtain ⟨below, unfolds, lists, -⟩ := h.exists_descendants found
    have perm := (h.perm_liveNodes found unfolds).map Node.id
    rw [List.map_cons, (h.fits found).id_eq] at perm
    exact ⟨below.ids, lists, perm⟩
  · intro start target listed lists mem
    exact (h.find_eq (live_of_descendants lists) target).1
      ((h.mem_cons_descendants_iff lists).mp mem)
  · intro start target listed lists out
    exact (h.find_eq (live_of_descendants lists) target).2
      (mt (h.mem_cons_descendants_iff lists).mpr out)

def planting : List Command :=
  [.attach "pair" (Builtin.union.named "op_union") ⟨7, 0⟩ 0,
    .attach "right" (Builtin.sphere.named "sdf_sphere") ⟨7, 1⟩ 1,
    .attach "left" (Builtin.sphere.named "sdf_sphere") ⟨7, 1⟩ 0,
    .attach "p" (Builtin.samplePoint.named "sample_point") ⟨7, 3⟩ 0]

def twoBalls : Scene := (Scene.new 7).afterAll planting

theorem reachable_twoBalls : Reachable twoBalls := by
  have union := Operator.accepted_union
  have sphere := Operator.accepted_sphere
  have point := Operator.accepted_samplePoint
  refine (Reachable.new 7).afterAll ?_
  simp [planting, Command.Allowed, union, sphere, point]

theorem searches_twoBalls : Reachable twoBalls ∧ twoBalls.Searches ∧
    twoBalls.descendants ⟨7, 0⟩ = .ok [⟨7, 1⟩, ⟨7, 3⟩, ⟨7, 4⟩, ⟨7, 2⟩] ∧
      twoBalls.climb 3 ⟨7, 4⟩ = some ⟨7, 0⟩ ∧ twoBalls.Entangles ⟨7, 1⟩ ⟨7, 3⟩ 1 := by
  have searches := searches_of_reachable reachable_twoBalls
  have run : (Edit.move ⟨7, 1⟩ ⟨7, 3⟩ 1).run twoBalls =
      .error (.cycleDetected ⟨7, 1⟩ ⟨7, 3⟩) twoBalls := rfl
  obtain ⟨-, -, -, -, -, cycle⟩ := searches.cycle.mp run
  exact ⟨reachable_twoBalls, searches, by decide +kernel, by decide +kernel, cycle⟩

end DistanceField.Scene
