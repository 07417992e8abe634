import DistanceField.Proofs.Scene.Branches

/-!
# The nodes of a scene and of its tree

When nothing is loose, what hangs in the root makes up the whole scene: apart from the root every
node occurs there, and each of them once.
-/

namespace DistanceField.Scene

variable {scene : Scene} {loose : List NodeId} {node root : Node} {branches : Branches}

theorem Forest.mem_liveNodes_iff (h : scene.Forest loose) :
    node ∈ scene.liveNodes ↔ scene.node? node.id = some node := by
  constructor
  · intro mem
    obtain ⟨index, found⟩ := mem_liveNodes.mp mem
    rw [nodeAt?_eq_node?] at found
    rwa [(h.fits found).id_eq]
  · intro found
    obtain ⟨-, entry⟩ := node?_eq_some_iff.mp found
    exact mem_liveNodes.mpr ⟨node.id.index, by simp [nodeAt?, entry]⟩

theorem Forest.mem_filter_liveNodes_iff (h : scene.Forest loose) :
    node ∈ scene.liveNodes.filter (fun node => !node.isRoot) ↔
      scene.node? node.id = some node ∧ node.id ≠ scene.root := by
  rw [List.mem_filter, h.mem_liveNodes_iff]
  apply and_congr_right
  intro found
  rw [Bool.not_eq_true', Bool.eq_false_iff, ne_eq, (h.fits found).isRoot_iff]

theorem Forest.nodup_liveNodes (h : scene.Forest loose) : scene.liveNodes.Nodup := by
  apply List.pairwise_filterMap.mpr
  apply List.pairwise_iff_getElem.mpr
  intro i j hi hj lt node here node' there same
  have placed : ∀ {k : Nat} {node : Node} (hk : k < scene.nodes.toList.length),
      scene.nodes.toList[k] = some node → node.id.index = k := by
    intro k node hk entry
    have found : scene.nodeAt? k = some node := by
      rw [nodeAt?, ← Array.getElem?_toList, List.getElem?_eq_getElem hk, entry]
      rfl
    rw [nodeAt?_eq_node?] at found
    rw [(h.fits found).id_eq]
  have first := placed hi here
  have second := placed hj there
  rw [same] at first
  omega

/-- The root and what hangs in it are all nodes of the scene. -/
theorem Forest.perm_liveNodes (h : scene.Forest []) (found : scene.node? scene.root = some root)
    (unfolds : scene.Unfolds root.inputs branches) :
    (root :: branches.nodes).Perm scene.liveNodes := by
  have tree := h.unfolds_self found unfolds
  have nodes : (Branches.child root branches .nil).nodes = root :: branches.nodes := by
    simp [Branches.nodes]
  rw [← nodes]
  apply (List.perm_ext_iff_of_nodup (h.nodup_ids_slot tree).of_map h.nodup_liveNodes).mpr
  intro node
  rw [h.mem_liveNodes_iff]
  constructor
  · exact tree.found_of_mem
  · intro here
    obtain ⟨top, isTop, path⟩ := h.anchored ⟨node, here⟩
    obtain rfl : top = scene.root := by simpa using isTop
    have mem : node.id ∈ (Branches.child root branches .nil).ids :=
      tree.mem_ids_iff.mpr ⟨root.id, List.mem_cons_self, (h.fits found).id_eq.symm ▸ path⟩
    obtain ⟨node', listed, same⟩ := List.mem_map.mp mem
    have there := tree.found_of_mem listed
    rw [same, here] at there
    exact Option.some.inj there ▸ listed

end DistanceField.Scene
