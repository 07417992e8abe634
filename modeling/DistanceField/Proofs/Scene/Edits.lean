import DistanceField.Proofs.Scene.Clearing

/-!
# What edits do

Every edit of a forest either is refused by a check, and then nothing was written, or it goes
through to the scene stated here.
-/

namespace DistanceField.Scene

variable {scene : Scene} {loose : List NodeId} {id parent : NodeId} {slot : Nat} {name : String}
  {node above : Node} {operator : Operator} {value : Slot} {literal : Literal}
  {branches : Branches} {type : ValueType}

/-- An edit stops with an error of its checks, nothing having been written. -/
def Refused {α : Type} (scene : Scene) (edit : Edit α) : Prop :=
  ∃ error, error ≠ .inconsistent ∧ edit.run scene = .error error scene

/-- There is such an input, and it takes values of the type. -/
def Takes (scene : Scene) (id : NodeId) (slot : Nat) (type : ValueType) : Prop :=
  ∃ node, scene.node? id = some node ∧ node.operator.inputs[slot]? = some type

theorem refused_of_check {α : Type} {edit : Edit α} {error : SceneError} (fine : error.Local)
    (stops : edit.run scene = .error error scene) : Refused scene edit := by
  refine ⟨error, ?_, stops⟩
  rintro rfl
  exact fine

theorem Forest.exists_site (h : scene.Forest loose) (found : scene.node? id = some node)
    (takes : node.operator.inputs[slot]? = some type) :
    ∃ value branches, node.inputs[slot]? = some value ∧ scene.Unfolds [value] branches := by
  have lt : slot < node.inputs.length := by
    rw [(h.fits found).length_inputs]
    exact (List.getElem?_eq_some_iff.mp takes).1
  have entry := List.getElem?_eq_getElem lt
  obtain ⟨branches, unfolds⟩ := h.exists_unfolds_slot found entry
  exact ⟨_, branches, entry, unfolds⟩

def freshNode (id : NodeId) (name : String) (operator : Operator) (parent : NodeId) (slot : Nat) :
    Node :=
  { id, name, kind := .operator, operator, parent := some parent, slot
    inputs := operator.defaults.map Slot.ofDefault }

/-- The scene with a new node in a cleared input. -/
def attached (scene : Scene) (name : String) (operator : Operator) (parent : NodeId) (slot : Nat)
    (branches : Branches) : Scene :=
  ((scene.cleared parent slot branches).push (freshNode scene.nextId name operator parent slot)).put
    parent slot (.child scene.nextId)

theorem Forest.attach_cases (h : scene.Forest loose) :
    Refused scene (Edit.attach name operator parent slot) ∨
      validName name ∧ scene.Takes parent slot operator.output ∧
        scene.Unused parent slot name none := by
  cases valid : checkName name with
  | error error =>
    exact .inl (refused_of_check (local_of_checkName valid) (by simp [Edit.attach, valid]))
  | ok =>
    cases takes : scene.checkSlot parent slot operator.output with
    | error error =>
      exact .inl (refused_of_check (local_of_checkSlot takes)
        (by simp [Edit.attach, valid, takes]))
    | ok =>
      cases unused : scene.checkSiblingName parent slot name none with
      | error error =>
        exact .inl (refused_of_check (local_of_checkSiblingName unused)
          (by simp [Edit.attach, valid, takes, unused]))
      | ok =>
        have takes := checkSlot_eq_ok_iff.mp takes
        have live : scene.Live parent := takes.imp fun node taken => taken.1
        exact .inr ⟨checkName_eq_ok_iff.mp valid, takes,
          (h.checkSiblingName_eq_ok_iff live).mp unused⟩

theorem Forest.node?_cleared_self (h : scene.Forest loose) (found : scene.node? id = some node)
    (entry : node.inputs[slot]? = some value) (unfolds : scene.Unfolds [value] branches) :
    (scene.cleared id slot branches).node? id =
      some { node with inputs := node.inputs.set slot .empty } := by
  rw [h.node?_cleared found entry unfolds, if_neg (h.notMem_ids found entry unfolds), if_pos rfl]

/-- The owner of the cleared input, a new node beside it. -/
theorem Forest.node?_push_cleared_self (h : scene.Forest loose) (found : scene.node? id = some node)
    (entry : node.inputs[slot]? = some value) (unfolds : scene.Unfolds [value] branches)
    (fresh : Node) : ((scene.cleared id slot branches).push fresh).node? id =
      some { node with inputs := node.inputs.set slot .empty } := by
  have old : id ≠ scene.nextId := Live.ne_nextId ⟨node, found⟩
  rw [node?_push, nextId_cleared, if_neg old, h.node?_cleared_self found entry unfolds]

theorem Forest.run_attach (h : scene.Forest loose) (valid : validName name)
    (found : scene.node? parent = some node)
    (takes : node.operator.inputs[slot]? = some operator.output)
    (unused : scene.Unused parent slot name none) (entry : node.inputs[slot]? = some value)
    (unfolds : scene.Unfolds [value] branches) :
    (Edit.attach name operator parent slot).run scene =
      .ok scene.nextId (scene.attached name operator parent slot branches) := by
  have taken := checkSlot_eq_ok_iff.mpr ⟨node, found, takes⟩
  have siblings := (h.checkSiblingName_eq_ok_iff ⟨node, found⟩).mpr unused
  obtain ⟨discarded, -⟩ := h.clear found entry unfolds
  have allocated : (Edit.allocate fun id => freshNode id name operator parent slot).run
      (scene.cleared parent slot branches) = .ok scene.nextId
        ((scene.cleared parent slot branches).push
          (freshNode scene.nextId name operator parent slot)) := by
    have eq : (scene.cleared parent slot branches).nextId = scene.nextId := nextId_cleared
    rw [← eq]
    rfl
  have owner := h.node?_push_cleared_self found entry unfolds
    (freshNode scene.nextId name operator parent slot)
  have lt : slot < (node.inputs.set slot .empty).length := by
    simpa using (List.getElem?_eq_some_iff.mp entry).1
  have written := run_writeSlot (.child scene.nextId) owner lt
  simp only [freshNode] at allocated written
  simp only [Edit.attach, EStateM.run_bind, Edit.run_get, checkName_eq_ok_iff.mpr valid, taken,
    siblings, Edit.run_check_ok, discarded, allocated, written, Edit.run_pure]
  rfl

theorem freshNode_child_free (child : NodeId) (place : Nat) :
    (freshNode id name operator parent slot).inputs[place]? ≠ some (.child child) := by
  intro entry
  simp only [freshNode, List.getElem?_map, Option.map_eq_some_iff] at entry
  obtain ⟨default, -, eq⟩ := entry
  cases default <;> simp [Slot.ofDefault] at eq

theorem fits_freshNode (accepted : operator.Accepted) (valid : validName name)
    (notRoot : id ≠ scene.root) :
    Fits scene.root id (freshNode id name operator parent slot) := by
  have checked := accepted.checked
  refine ⟨rfl, by simp [freshNode, notRoot], by simp [freshNode, notRoot],
    fun eq => absurd eq notRoot, fun _ => accepted, fun _ => valid, ?_, ?_⟩
  · simpa [freshNode] using checked.length_defaults
  · intro place literal entry
    simp only [freshNode, List.getElem?_map, Option.map_eq_some_iff] at entry
    obtain ⟨default, there, eq⟩ := entry
    obtain rfl : default = some literal := by
      cases default <;> simp_all [Slot.ofDefault]
    exact checked.default there

/-- A node attached to a forest hangs where it was attached. -/
theorem Forest.attached (h : scene.Forest loose) (accepted : operator.Accepted)
    (valid : validName name) (found : scene.node? parent = some node)
    (takes : node.operator.inputs[slot]? = some operator.output)
    (unused : scene.Unused parent slot name none) (entry : node.inputs[slot]? = some value)
    (unfolds : scene.Unfolds [value] branches) :
    (scene.attached name operator parent slot branches).Forest loose := by
  obtain ⟨-, cleared⟩ := h.clear found entry unfolds
  have within := h.within_cleared found entry unfolds
  have notRoot : scene.nextId ≠ scene.root := (Live.ne_nextId h.root_live).symm
  have fits : Fits scene.root scene.nextId (freshNode scene.nextId name operator parent slot) :=
    fits_freshNode accepted valid notRoot
  have grown := cleared.grow (by simpa using fits)
    (fun place child => freshNode_child_free child place) (by simp [freshNode])
  rw [nextId_cleared] at grown
  have owner := h.node?_push_cleared_self found entry unfolds
    (freshNode scene.nextId name operator parent slot)
  have here : ((scene.cleared parent slot branches).push
      (freshNode scene.nextId name operator parent slot)).node? scene.nextId =
        some (freshNode scene.nextId name operator parent slot) := by
    rw [node?_push, nextId_cleared, if_pos rfl]
  have lt := (List.getElem?_eq_some_iff.mp entry).1
  apply grown.hang owner (by simpa using lt) (fun child => not_holds_emptied owner)
    ⟨_, _, owner, here, rfl, rfl, takes⟩
  · intro path
    rcases Relation.ReflTransGen.cases_head path with eq | ⟨child, ⟨place, held⟩, -⟩
    · exact Live.ne_nextId ⟨node, found⟩ eq.symm
    · exact freshNode_child_free child place ((holds_iff here).mp held)
  · intro place other ne held
    -- the other child was there before, and its name was checked
    have held : (scene.cleared parent slot branches).Holds parent place other := by
      rw [holds_iff owner] at held
      exact ⟨_, h.node?_cleared_self found entry unfolds, held⟩
    have live := cleared.live_of_holds held
    have old : other ≠ scene.nextId := by simpa using live.ne_nextId
    rw [name?, name?, here, node?_push, nextId_cleared, if_neg old]
    have same := within.name? live
    rw [name?] at same
    rw [same]
    exact unused (within.holds held) ne (by simp)

theorem Forest.delete_cases (h : scene.Forest loose) :
    Refused scene (Edit.delete id) ∨ scene.Live id ∧ id ≠ scene.root := by
  cases found : scene.node? id with
  | none => exact .inl ⟨.notFound id, by simp, by simp [Edit.delete, Scene.node, found]⟩
  | some node =>
    have kind := (h.fits found).kind_iff
    by_cases root : id = scene.root
    · exact .inl ⟨.rootDeletionForbidden, by simp,
        by simp [Edit.delete, node_eq_ok_iff.mpr found, Node.isRoot, kind.mpr root]⟩
    · exact .inr ⟨⟨node, found⟩, root⟩

theorem Forest.run_delete (h : scene.Forest loose) (found : scene.node? id = some node)
    (notRoot : id ≠ scene.root) (up : node.parent = some parent)
    (foundAbove : scene.node? parent = some above)
    (entry : above.inputs[node.slot]? = some (.child id))
    (unfolds : scene.Unfolds [.child id] branches) :
    (Edit.delete id).run scene = .ok () (scene.cleared parent node.slot branches) := by
  have kind : node.isRoot = false := by
    simpa [Node.isRoot] using mt (h.fits found).kind_iff.mp notRoot
  have lt := (List.getElem?_eq_some_iff.mp entry).1
  have detached := h.detach ⟨above, foundAbove, entry⟩
  have unfolds' := h.unfolds_put foundAbove entry unfolds .empty
  have destroyed := run_destroy unfolds' (detached.nodup_ids_slot unfolds') detached.counted
  simp only [Edit.delete, EStateM.run_bind, Edit.run_get, node_eq_ok_iff.mpr found, Edit.run_check_ok,
    kind, up, run_writeSlot .empty foundAbove lt, Bool.false_eq_true, if_false, destroyed]
  rfl

theorem setLiteral_cases :
    Refused scene (Edit.setLiteral id slot literal) ∨
      scene.Takes id slot literal.type ∧ literal.isFinite := by
  cases takes : scene.checkSlot id slot literal.type with
  | error error =>
    exact .inl (refused_of_check (local_of_checkSlot takes) (by simp [Edit.setLiteral, takes]))
  | ok =>
    by_cases finite : literal.isFinite
    · exact .inr ⟨checkSlot_eq_ok_iff.mp takes, finite⟩
    · exact .inl ⟨.nonFiniteLiteral, by simp, by simp [Edit.setLiteral, takes, finite]⟩

theorem Forest.run_setLiteral (h : scene.Forest loose) (found : scene.node? id = some node)
    (takes : node.operator.inputs[slot]? = some literal.type) (finite : literal.isFinite)
    (entry : node.inputs[slot]? = some value) (unfolds : scene.Unfolds [value] branches) :
    (Edit.setLiteral id slot literal).run scene =
      .ok () ((scene.cleared id slot branches).put id slot (.literal literal)) := by
  have taken := checkSlot_eq_ok_iff.mpr ⟨node, found, takes⟩
  obtain ⟨discarded, -⟩ := h.clear found entry unfolds
  have lt : slot < (node.inputs.set slot .empty).length := by
    simpa using (List.getElem?_eq_some_iff.mp entry).1
  have written := run_writeSlot (.literal literal) (h.node?_cleared_self found entry unfolds) lt
  simp only [Edit.setLiteral, EStateM.run_bind, Edit.run_get, taken, Edit.run_check_ok, finite,
    Bool.not_true, Bool.false_eq_true, if_false, discarded, written]

theorem Forest.setLiteral (h : scene.Forest loose) (found : scene.node? id = some node)
    (takes : node.operator.inputs[slot]? = some literal.type) (finite : literal.isFinite)
    (entry : node.inputs[slot]? = some value) (unfolds : scene.Unfolds [value] branches) :
    ((scene.cleared id slot branches).put id slot (.literal literal)).Forest loose := by
  obtain ⟨-, cleared⟩ := h.clear found entry unfolds
  have owner := h.node?_cleared_self found entry unfolds
  have lt := (List.getElem?_eq_some_iff.mp entry).1
  apply cleared.fill owner (by simpa using lt) (fun child => not_holds_emptied owner) (by simp)
  intro literal' eq
  cases eq
  exact ⟨takes, finite⟩

theorem clear_cases :
    Refused scene (Edit.clear id slot) ∨
      ∃ node, scene.node? id = some node ∧ slot < node.inputs.length := by
  cases found : scene.node? id with
  | none => exact .inl ⟨.notFound id, by simp, by simp [Edit.clear, Scene.node, found]⟩
  | some node =>
    by_cases lt : slot < node.inputs.length
    · exact .inr ⟨node, rfl, lt⟩
    · exact .inl ⟨.slotOutOfRange slot node.inputs.length, by simp,
        by simp [Edit.clear, node_eq_ok_iff.mpr found, lt]⟩

theorem Forest.run_clear (h : scene.Forest loose) (found : scene.node? id = some node)
    (entry : node.inputs[slot]? = some value) (unfolds : scene.Unfolds [value] branches) :
    (Edit.clear id slot).run scene = .ok () (scene.cleared id slot branches) := by
  have lt := (List.getElem?_eq_some_iff.mp entry).1
  obtain ⟨discarded, -⟩ := h.clear found entry unfolds
  simp only [Edit.clear, EStateM.run_bind, Edit.run_get, node_eq_ok_iff.mpr found, Edit.run_check_ok,
    lt, if_true, discarded]

theorem rename_cases :
    Refused scene (Edit.rename id name) ∨ validName name ∧ ∃ node, scene.node? id = some node ∧
      ∀ parent, node.parent = some parent →
        scene.checkSiblingName parent node.slot name (some id) = .ok () := by
  cases valid : checkName name with
  | error error =>
    exact .inl (refused_of_check (local_of_checkName valid) (by simp [Edit.rename, valid]))
  | ok =>
    cases found : scene.node? id with
    | none => exact .inl ⟨.notFound id, by simp, by simp [Edit.rename, valid, Scene.node, found]⟩
    | some node =>
      cases up : node.parent with
      | none => exact .inr ⟨checkName_eq_ok_iff.mp valid, node, rfl, by simp [up]⟩
      | some parent =>
        cases unused : scene.checkSiblingName parent node.slot name (some id) with
        | error error =>
          exact .inl (refused_of_check (local_of_checkSiblingName unused)
            (by simp [Edit.rename, valid, node_eq_ok_iff.mpr found, up, unused]))
        | ok =>
          refine .inr ⟨checkName_eq_ok_iff.mp valid, node, rfl, fun parent' eq => ?_⟩
          obtain rfl := Option.some.inj (up.symm.trans eq)
          exact unused

theorem run_rename (valid : validName name) (found : scene.node? id = some node)
    (unused : ∀ parent, node.parent = some parent →
      scene.checkSiblingName parent node.slot name (some id) = .ok ()) :
    (Edit.rename id name).run scene = .ok () (scene.update id fun node => { node with name }) := by
  have renamed : (Edit.modifyNode id fun node => { node with name }).run scene =
      .ok () (scene.update id fun node => { node with name }) := run_modifyNode found
  cases up : node.parent with
  | none =>
    simp only [Edit.rename, EStateM.run_bind, Edit.run_get, checkName_eq_ok_iff.mpr valid,
      Edit.run_check_ok, node_eq_ok_iff.mpr found, up, renamed]
  | some parent =>
    simp only [Edit.rename, EStateM.run_bind, Edit.run_get, checkName_eq_ok_iff.mpr valid,
      Edit.run_check_ok, node_eq_ok_iff.mpr found, up, unused parent up, renamed]

theorem Forest.rename (h : scene.Forest loose) (valid : validName name)
    (found : scene.node? id = some node)
    (unused : ∀ parent, node.parent = some parent →
      scene.checkSiblingName parent node.slot name (some id) = .ok ()) :
    (scene.update id fun node => { node with name }).Forest loose := by
  have fits := h.fits found
  refine h.relabel found rfl rfl { fits with validName := fun _ => valid } (.inr ⟨rfl, rfl⟩) ?_
  intro parent slot place other held held' same
  obtain ⟨-, above, below, foundAbove, foundBelow, up, here, -⟩ := h.held held
  obtain rfl := Option.some.inj (found.symm.trans foundBelow)
  have unused : scene.Unused parent node.slot name (some id) :=
    (h.checkSiblingName_eq_ok_iff ⟨above, foundAbove⟩).mp (unused parent up)
  by_contra ne
  rw [here] at unused
  refine unused held' (Ne.symm ne) (fun eq => ne ?_) same
  obtain rfl := Option.some.inj eq
  exact (h.holder_unique held held').2

end DistanceField.Scene
