import DistanceField.Scene.Edit
import Mathlib.Data.List.Basic

/-!
# Writes to the arena

What looking up a node gives after one node was changed, erased or added, and that the counter of
the nodes follows. A scene is nothing but its tag, its counter, the size of its arena and the
answers to all look-ups.
-/

namespace DistanceField.Scene

variable {scene other : Scene} {id target : NodeId} {node : Node}

def update (scene : Scene) (id : NodeId) (change : Node → Node) : Scene :=
  match scene.node? id with
  | some node => scene.setNode id.index (change node)
  | none => scene

def put (scene : Scene) (id : NodeId) (slot : Nat) (value : Slot) : Scene :=
  scene.update id fun node => { node with inputs := node.inputs.set slot value }

/-- The scene without a node; links to it stay. -/
def erase (scene : Scene) (id : NodeId) : Scene :=
  { scene with nodes := scene.nodes.setIfInBounds id.index none, live := scene.live - 1 }

def without (scene : Scene) (ids : List NodeId) : Scene := ids.foldl erase scene

def nextId (scene : Scene) : NodeId := ⟨scene.tag, scene.nodes.size⟩

def push (scene : Scene) (node : Node) : Scene :=
  { scene with nodes := scene.nodes.push (some node), live := scene.live + 1 }

theorem node?_eq_some_iff :
    scene.node? id = some node ↔ id.tag = scene.tag ∧ scene.nodes[id.index]? = some (some node) := by
  simp [node?, nodeAt?, Option.join_eq_some_iff]

theorem index_lt_size (found : scene.node? id = some node) : id.index < scene.nodes.size :=
  (Array.getElem?_eq_some_iff.mp (node?_eq_some_iff.mp found).2).1

theorem id_eq_iff_of_tag {a b : NodeId} (h : a.tag = b.tag) : a = b ↔ a.index = b.index := by
  cases a
  cases b
  simp_all

theorem nodeAt?_eq_node? (scene : Scene) (index : Nat) :
    scene.nodeAt? index = scene.node? ⟨scene.tag, index⟩ := by simp [node?]

/-- Two scenes are equal if they have one tag, one counter, arenas of one size and the same nodes. -/
theorem ext_node? (tag : scene.tag = other.tag) (live : scene.live = other.live)
    (size : scene.nodes.size = other.nodes.size) (nodes : ∀ id, scene.node? id = other.node? id) :
    scene = other := by
  obtain ⟨t, a, l⟩ := scene
  obtain ⟨t', b, l'⟩ := other
  obtain rfl : t = t' := tag
  obtain rfl : l = l' := live
  obtain rfl : a = b := by
    apply Array.ext size
    intro i hi hi'
    have eq : a[i]?.join = b[i]?.join := by simpa [node?, nodeAt?] using nodes ⟨t, i⟩
    simpa [Array.getElem?_eq_getElem hi, Array.getElem?_eq_getElem hi'] using eq
  rfl

@[simp] theorem tag_update (scene : Scene) (id : NodeId) (change : Node → Node) :
    (scene.update id change).tag = scene.tag := by
  unfold update
  split <;> rfl

@[simp] theorem live_update (scene : Scene) (id : NodeId) (change : Node → Node) :
    (scene.update id change).live = scene.live := by
  unfold update
  split <;> rfl

@[simp] theorem size_nodes_update (scene : Scene) (id : NodeId) (change : Node → Node) :
    (scene.update id change).nodes.size = scene.nodes.size := by
  unfold update
  split <;> simp [setNode]

theorem node?_update (scene : Scene) (id target : NodeId) (change : Node → Node) :
    (scene.update id change).node? target =
      if target = id then (scene.node? id).map change else scene.node? target := by
  unfold update
  cases found : scene.node? id with
  | none =>
    by_cases same : target = id
    · simp [same, found]
    · simp [same]
  | some node =>
    have tag := (node?_eq_some_iff.mp found).1
    have lt := index_lt_size found
    by_cases here : target.tag = scene.tag
    · simp only [node?, nodeAt?, setNode, here, if_true, Array.getElem?_setIfInBounds,
        id_eq_iff_of_tag (here.trans tag.symm), eq_comm (a := target.index)]
      by_cases same : id.index = target.index
      · simp [same, same ▸ lt]
      · simp [same]
    · have ne : target ≠ id := fun same => here (same ▸ tag)
      simp [node?, setNode, here, ne]

@[simp] theorem tag_put (scene : Scene) (id : NodeId) (slot : Nat) (value : Slot) :
    (scene.put id slot value).tag = scene.tag := tag_update ..

@[simp] theorem size_nodes_put (scene : Scene) (id : NodeId) (slot : Nat) (value : Slot) :
    (scene.put id slot value).nodes.size = scene.nodes.size := size_nodes_update ..

theorem node?_put (scene : Scene) (id target : NodeId) (slot : Nat) (value : Slot) :
    (scene.put id slot value).node? target =
      if target = id then
        (scene.node? id).map fun node => { node with inputs := node.inputs.set slot value }
      else scene.node? target := node?_update ..

theorem put_eq_self {slot : Nat} {value : Slot}
    (same : ∀ {node}, scene.node? id = some node → node.inputs.set slot value = node.inputs) :
    scene.put id slot value = scene := by
  refine ext_node? (by simp) (live_update ..) (by simp) fun target => ?_
  rw [node?_put]
  split
  · rename_i here
    rw [here]
    cases found : scene.node? id with
    | none => rfl
    | some node => rw [Option.map_some, same found]
  · rfl

theorem update_comm (scene : Scene) {a b : NodeId} (ne : a ≠ b) (f g : Node → Node) :
    (scene.update a f).update b g = (scene.update b g).update a f := by
  refine ext_node? (by simp) (by simp) (by simp) fun id => ?_
  simp only [node?_update]
  by_cases ha : id = a
  · simp [ha, ne]
  · by_cases hb : id = b
    · simp [hb, ne.symm]
    · simp [ha, hb]

/-- Two changes of one node are one change. -/
theorem update_update (scene : Scene) (id : NodeId) (f g : Node → Node) :
    (scene.update id f).update id g = scene.update id fun node => g (f node) := by
  refine ext_node? (by simp) (by simp) (by simp) fun target => ?_
  simp only [node?_update]
  by_cases same : target = id
  · simp [same, Function.comp_def]
  · simp [same]

@[simp] theorem tag_erase (scene : Scene) (id : NodeId) : (scene.erase id).tag = scene.tag := rfl

@[simp] theorem size_nodes_erase (scene : Scene) (id : NodeId) :
    (scene.erase id).nodes.size = scene.nodes.size := by simp [erase]

theorem node?_erase (same : id.tag = scene.tag) (target : NodeId) :
    (scene.erase id).node? target = if target = id then none else scene.node? target := by
  by_cases here : target.tag = scene.tag
  · simp only [node?, nodeAt?, erase, here, if_true, Array.getElem?_setIfInBounds,
      id_eq_iff_of_tag (here.trans same.symm), eq_comm (a := target.index)]
    by_cases eq : id.index = target.index
    · by_cases lt : target.index < scene.nodes.size <;> simp [eq, lt]
    · simp [eq]
  · simp [node?, erase, here]

@[simp] theorem without_nil (scene : Scene) : scene.without [] = scene := rfl

@[simp] theorem without_cons (scene : Scene) (id : NodeId) (ids : List NodeId) :
    scene.without (id :: ids) = (scene.erase id).without ids := rfl

theorem without_append (scene : Scene) (ids more : List NodeId) :
    scene.without (ids ++ more) = (scene.without ids).without more := List.foldl_append

@[simp] theorem tag_without (scene : Scene) (ids : List NodeId) :
    (scene.without ids).tag = scene.tag := by
  induction ids generalizing scene with
  | nil => rfl
  | cons id ids ih => simpa using ih (scene.erase id)

@[simp] theorem size_nodes_without (scene : Scene) (ids : List NodeId) :
    (scene.without ids).nodes.size = scene.nodes.size := by
  induction ids generalizing scene with
  | nil => rfl
  | cons id ids ih => simpa using ih (scene.erase id)

theorem live_without (scene : Scene) (ids : List NodeId) :
    (scene.without ids).live = scene.live - ids.length := by
  induction ids generalizing scene with
  | nil => rfl
  | cons id ids ih =>
    rw [without_cons, ih, List.length_cons]
    simp only [erase]
    omega

theorem node?_without {ids : List NodeId} (same : ∀ id ∈ ids, id.tag = scene.tag)
    (target : NodeId) :
    (scene.without ids).node? target = if target ∈ ids then none else scene.node? target := by
  induction ids generalizing scene with
  | nil => simp
  | cons id ids ih =>
    have rest : ∀ other ∈ ids, other.tag = (scene.erase id).tag :=
      fun other h => same other (List.mem_cons_of_mem _ h)
    rw [without_cons, ih rest, node?_erase (same id List.mem_cons_self)]
    by_cases eq : target = id <;> simp [eq]

theorem node?_without_eq_some_iff {ids : List NodeId} (same : ∀ id ∈ ids, id.tag = scene.tag) :
    (scene.without ids).node? target = some node ↔ target ∉ ids ∧ scene.node? target = some node := by
  rw [node?_without same]
  by_cases mem : target ∈ ids <;> simp [mem]

theorem without_perm {ids more : List NodeId} (perm : ids.Perm more)
    (same : ∀ id ∈ more, id.tag = scene.tag) : scene.without ids = scene.without more := by
  refine ext_node? (by simp) ?_ (by simp) fun target => ?_
  · rw [live_without, live_without, perm.length_eq]
  · rw [node?_without same, node?_without fun id mem => same id (perm.mem_iff.mp mem)]
    simp only [perm.mem_iff]

/-- A node that is not erased may be changed before or after. -/
theorem update_without {ids : List NodeId} (left : id ∉ ids)
    (same : ∀ id ∈ ids, id.tag = scene.tag) (change : Node → Node) :
    (scene.without ids).update id change = (scene.update id change).without ids := by
  refine ext_node? (by simp) (by simp [live_without]) (by simp) fun target => ?_
  rw [node?_update, node?_without same, if_neg left, node?_without same,
    node?_without (by simpa using same), node?_update]
  by_cases here : target = id
  · simp [here, left]
  · simp [here]

theorem node?_nextId (scene : Scene) : scene.node? scene.nextId = none := by
  simp [node?, nodeAt?, nextId]

theorem node?_push (scene : Scene) (node : Node) (target : NodeId) :
    (scene.push node).node? target =
      if target = scene.nextId then some node else scene.node? target := by
  by_cases here : target.tag = scene.tag
  · have eq : target = scene.nextId ↔ target.index = scene.nodes.size := id_eq_iff_of_tag here
    simp only [node?, nodeAt?, push, here, if_true, Array.getElem?_push, eq]
    by_cases last : target.index = scene.nodes.size <;> simp [last]
  · have ne : target ≠ scene.nextId := fun same => here (same ▸ rfl)
    simp [node?, push, here, ne]

theorem put_push {slot : Nat} {value : Slot} (old : id ≠ scene.nextId) (fresh : Node) :
    (scene.push fresh).put id slot value = (scene.put id slot value).push fresh := by
  have next : (scene.put id slot value).nextId = scene.nextId := by simp [nextId]
  refine ext_node? (by simp [push]) (by simp [push, put]) (by simp [push]) fun target => ?_
  rw [node?_put, node?_push, node?_push, node?_push, node?_put, next, if_neg old]
  by_cases same : target = id
  · simp [same, old]
  · simp [same]

/-- The counter tells how many nodes the arena holds. -/
def Counted (scene : Scene) : Prop := scene.live = scene.liveNodes.length

theorem length_liveNodes (scene : Scene) :
    scene.liveNodes.length = scene.nodes.toList.countP Option.isSome := by
  simp [liveNodes, List.length_filterMap_eq_countP]

/-- Writing where a node was leaves all other entries to be counted. -/
theorem countP_setIfInBounds (found : scene.node? id = some node) (entry : Option Node) :
    (scene.nodes.setIfInBounds id.index entry).toList.countP Option.isSome + 1 =
      scene.liveNodes.length + if entry.isSome then 1 else 0 := by
  have lt : id.index < scene.nodes.toList.length := by simpa using index_lt_size found
  have old : scene.nodes.toList[id.index] = some node := by
    have entry := (node?_eq_some_iff.mp found).2
    simpa [Array.getElem?_eq_some_iff.mp entry] using (Array.getElem?_eq_some_iff.mp entry).2
  have pos : 0 < scene.nodes.toList.countP Option.isSome :=
    List.countP_pos_iff.mpr ⟨some node, old ▸ List.getElem_mem lt, rfl⟩
  rw [length_liveNodes, Array.toList_setIfInBounds, List.countP_set lt, old]
  simp only [Option.isSome_some, if_true]
  omega

theorem Counted.update (h : scene.Counted) (id : NodeId) (change : Node → Node) :
    (scene.update id change).Counted := by
  unfold Counted at *
  rw [live_update, h]
  cases found : scene.node? id with
  | none => simp [Scene.update, found]
  | some node =>
    have count := countP_setIfInBounds found (some (change node))
    rw [length_liveNodes (scene.update id change)]
    simp only [Scene.update, found, setNode, Option.isSome_some, if_true] at count ⊢
    omega

theorem Counted.erase (h : scene.Counted) (found : scene.node? id = some node) :
    (scene.erase id).Counted := by
  have count := countP_setIfInBounds found none
  unfold Counted at *
  rw [length_liveNodes (scene.erase id)]
  simp only [Scene.erase, Option.isSome_none, Bool.false_eq_true, if_false] at count ⊢
  omega

theorem Counted.without {ids : List NodeId} (h : scene.Counted) (nodup : ids.Nodup)
    (found : ∀ id ∈ ids, ∃ node, scene.node? id = some node) : (scene.without ids).Counted := by
  induction ids generalizing scene with
  | nil => exact h
  | cons id ids ih =>
    obtain ⟨fresh, nodup⟩ := List.nodup_cons.mp nodup
    obtain ⟨node, here⟩ := found id List.mem_cons_self
    have tag := (node?_eq_some_iff.mp here).1
    apply ih (h.erase here) nodup
    intro other mem
    obtain ⟨node', there⟩ := found other (List.mem_cons_of_mem _ mem)
    have ne : other ≠ id := fun same => fresh (same ▸ mem)
    exact ⟨node', by rw [node?_erase tag, if_neg ne, there]⟩

theorem Counted.push (h : scene.Counted) (node : Node) : (scene.push node).Counted := by
  unfold Counted at *
  rw [length_liveNodes] at *
  simp [Scene.push, h]

end DistanceField.Scene
