import DistanceField.Proofs.Scene.Branches

/-!
# Steps between forests

Each write of an edit leads from one forest to another: a node comes loose, an input is filled, a
loose node is hung up, a loose node and all that is below it is erased, a new node is added loose.
-/

namespace DistanceField.Scene
open Relation (ReflTransGen TransGen)

variable {scene other : Scene} {loose : List NodeId} {id parent child : NodeId} {slot place : Nat}
  {node above below : Node} {value : Slot} {branches : Branches} {change : Node → Node}

@[simp] theorem root_put : (scene.put id slot value).root = scene.root := by simp [root]

@[simp] theorem root_update : (scene.update id change).root = scene.root := by
  simp [root]

@[simp] theorem root_without {ids : List NodeId} : (scene.without ids).root = scene.root := by
  simp [root]

theorem exists_node?_put (parent : NodeId) (slot : Nat) (value : Slot)
    (found : scene.node? id = some node) :
    ∃ inputs, (scene.put parent slot value).node? id = some { node with inputs } := by
  rw [node?_put]
  by_cases same : id = parent
  · subst same
    exact ⟨_, by rw [if_pos rfl, found, Option.map_some]⟩
  · exact ⟨node.inputs, by rw [if_neg same, found]⟩

theorem exists_of_node?_put (found : (scene.put parent slot value).node? id = some node) :
    ∃ inputs, scene.node? id = some { node with inputs } := by
  rw [node?_put] at found
  by_cases same : id = parent
  · rw [if_pos same] at found
    obtain ⟨old, was, rfl⟩ := Option.map_eq_some_iff.mp found
    exact ⟨old.inputs, same ▸ was⟩
  · rw [if_neg same] at found
    exact ⟨node.inputs, found⟩

@[simp] theorem live_put_iff : (scene.put parent slot value).Live id ↔ scene.Live id := by
  constructor
  · rintro ⟨node, found⟩
    obtain ⟨inputs, found⟩ := exists_of_node?_put found
    exact ⟨_, found⟩
  · rintro ⟨node, found⟩
    obtain ⟨inputs, found⟩ := exists_node?_put parent slot value found
    exact ⟨_, found⟩

@[simp] theorem name?_put : (scene.put parent slot value).name? id = scene.name? id := by
  rw [name?, name?, node?_put]
  by_cases same : id = parent
  · simp [same, Function.comp_def]
  · simp [same]

theorem Fastened.put (h : scene.Fastened parent slot child) (id : NodeId) (place : Nat)
    (value : Slot) : (scene.put id place value).Fastened parent slot child := by
  obtain ⟨above, below, found, found', up, here, fits⟩ := h
  obtain ⟨inputs, found⟩ := exists_node?_put id place value found
  obtain ⟨inputs', found'⟩ := exists_node?_put id place value found'
  exact ⟨_, _, found, found', up, here, fits⟩

/-- An input may get the content, since it is no literal or one that suits. -/
def Suits (node : Node) (slot : Nat) (value : Slot) : Prop :=
  ∀ literal, value = .literal literal →
    node.operator.inputs[slot]? = some literal.type ∧ literal.isFinite

theorem Fits.put (h : Forest scene loose) (found : scene.node? parent = some above)
    (suits : Suits above slot value) (found' : (scene.put parent slot value).node? id = some node) :
    Fits scene.root id node := by
  rw [node?_put] at found'
  by_cases same : id = parent
  · subst same
    rw [if_pos rfl, found, Option.map_some, Option.some.injEq] at found'
    subst found'
    have old := h.fits found
    refine { old with length_inputs := by simpa using old.length_inputs, literal := ?_ }
    intro place literal entry
    rw [List.getElem?_set] at entry
    split at entry
    · split at entry
      · obtain rfl : slot = place := by assumption
        exact suits literal (Option.some.inj entry)
      · cases entry
    · exact old.literal entry
  · rw [if_neg same] at found'
    exact h.fits found'

theorem node?_update_self (found : scene.node? id = some node) :
    (scene.update id change).node? id = some (change node) := by
  rw [node?_update, if_pos rfl, found, Option.map_some]

theorem node?_update_ne (ne : child ≠ id) :
    (scene.update id change).node? child = scene.node? child := by
  rw [node?_update, if_neg ne]

@[simp] theorem live_update_iff : (scene.update id change).Live child ↔ scene.Live child := by
  rw [Live, Live, node?_update]
  by_cases same : child = id
  · simp [same]
  · simp [same]

theorem name?_update_self (found : scene.node? id = some node) :
    (scene.update id change).name? id = some (change node).name := by
  rw [name?, node?_update_self found, Option.map_some]

theorem name?_update_ne (ne : child ≠ id) :
    (scene.update id change).name? child = scene.name? child := by
  rw [name?, name?, node?_update_ne ne]

theorem Fastened.update (h : scene.Fastened parent slot child) (found : scene.node? id = some node)
    (operator : (change node).operator = node.operator)
    (links : child = id → (change node).parent = node.parent ∧ (change node).slot = node.slot) :
    (scene.update id change).Fastened parent slot child := by
  obtain ⟨above, below, foundAbove, foundBelow, up, here, suits⟩ := h
  have ⟨above', foundAbove', eq⟩ : ∃ above', (scene.update id change).node? parent = some above' ∧
      above'.operator = above.operator := by
    by_cases same : parent = id
    · subst same
      obtain rfl := Option.some.inj (found.symm.trans foundAbove)
      exact ⟨_, node?_update_self found, operator⟩
    · exact ⟨above, (node?_update_ne same).trans foundAbove, rfl⟩
  by_cases same : child = id
  · subst same
    obtain rfl := Option.some.inj (found.symm.trans foundBelow)
    obtain ⟨up', here'⟩ := links rfl
    exact ⟨above', _, foundAbove', node?_update_self found, up'.trans up, here'.trans here,
      by rw [eq, suits, operator]⟩
  · exact ⟨above', below, foundAbove', (node?_update_ne same).trans foundBelow, up, here,
      by rw [eq, suits]⟩

/-- Only the two ends of a link matter for it. -/
theorem Fastened.congr (h : scene.Fastened parent slot child)
    (above : other.node? parent = scene.node? parent)
    (below : other.node? child = scene.node? child) : other.Fastened parent slot child := by
  obtain ⟨a, b, foundAbove, foundBelow, rest⟩ := h
  exact ⟨a, b, above.trans foundAbove, below.trans foundBelow, rest⟩

theorem Live.ne_nextId (live : scene.Live id) : id ≠ scene.nextId := by
  rintro rfl
  obtain ⟨node, found⟩ := live
  simp [node?_nextId] at found

namespace Forest

/-- What has to be shown after a write to an input, in terms of the nodes before. -/
theorem of_put {rest : List NodeId} (h : scene.Forest loose) (found : scene.node? parent = some above)
    (suits : Suits above slot value) (nodup : rest.Nodup)
    (loose_live : ∀ {id}, id ∈ rest → id ≠ scene.root ∧ scene.Live id)
    (held : ∀ {q t x}, (scene.put parent slot value).Holds q t x → x ∉ rest ∧ scene.Fastened q t x)
    (hung : ∀ {id node}, scene.node? id = some node → id ≠ scene.root → id ∉ rest →
      ∃ up, node.parent = some up ∧ (scene.put parent slot value).Holds up node.slot id)
    (anchored : ∀ {id}, scene.Live id →
      ∃ top, (top = scene.root ∨ top ∈ rest) ∧ (scene.put parent slot value).Reaches top id)
    (siblings : ∀ {q t t' x y}, (scene.put parent slot value).Holds q t x →
      (scene.put parent slot value).Holds q t' y → scene.name? x = scene.name? y → t = t') :
    (scene.put parent slot value).Forest rest where
  counted := h.counted.update _ _
  nodup := nodup
  root_live := by simpa using h.root_live
  loose_live mem := by simpa using loose_live mem
  fits found' := by
    rw [root_put]
    exact Fits.put h found suits found'
  held link := (held link).imp_right fun fastened => fastened.put _ _ _
  hung found' notRoot notLoose := by
    obtain ⟨inputs, was⟩ := exists_of_node?_put found'
    obtain ⟨up, eq, link⟩ := hung was (by simpa using notRoot) notLoose
    exact ⟨up, eq, link⟩
  anchored live := by simpa using anchored (live_put_iff.mp live)
  siblings link link' same := siblings link link' (by simpa using same)

theorem detach (h : scene.Forest loose) (held : scene.Holds parent slot child) :
    (scene.put parent slot .empty).Forest (child :: loose) := by
  obtain ⟨free, -⟩ := h.held held
  obtain ⟨above, found, entry⟩ := id held
  have lt : slot < above.inputs.length := (List.getElem?_eq_some_iff.mp entry).1
  have links : ∀ {q t x}, (scene.put parent slot .empty).Holds q t x ↔
      ¬ (q = parent ∧ t = slot) ∧ scene.Holds q t x := by
    intro q t x
    rw [holds_put_iff found lt]
    by_cases here : q = parent ∧ t = slot <;> simp [here]
  apply h.of_put found (fun literal eq => by cases eq) (List.nodup_cons.mpr ⟨free, h.nodup⟩)
  case loose_live =>
    intro id mem
    rcases List.mem_cons.mp mem with rfl | mem
    · exact ⟨fun eq => h.not_parentOf_top (.inl eq) held.parentOf, h.live_of_holds held⟩
    · exact h.loose_live mem
  case held =>
    intro q t x held'
    obtain ⟨ne, held'⟩ := links.mp held'
    obtain ⟨free', fastened'⟩ := h.held held'
    refine ⟨?_, fastened'⟩
    rintro (_ | ⟨_, mem⟩)
    · exact ne (h.holder_unique held' held)
    · exact free' mem
  case hung =>
    intro id node found' notRoot notLoose
    rw [List.mem_cons, not_or] at notLoose
    obtain ⟨up, eq, held'⟩ := h.hung found' notRoot notLoose.2
    refine ⟨up, eq, links.mpr ⟨?_, held'⟩⟩
    rintro ⟨rfl, same⟩
    rw [same, holds_iff found, entry] at held'
    cases held'
    exact notLoose.1 rfl
  -- what was reached through the link is now reached from the child, which is loose
  case anchored =>
    intro id live
    obtain ⟨top, isTop, path⟩ := h.anchored live
    rcases reaches_put_empty held path with path | path
    · exact ⟨top, isTop.imp_right (List.mem_cons_of_mem child), path⟩
    · exact ⟨child, .inr List.mem_cons_self, path⟩
  case siblings =>
    intro q t t' x y held₁ held₂ same
    exact h.siblings (links.mp held₁).2 (links.mp held₂).2 same

/-- An input without a child gets other content, which is no child either. -/
theorem fill (h : scene.Forest loose) (found : scene.node? parent = some above)
    (lt : slot < above.inputs.length) (vacant : ∀ child, ¬ scene.Holds parent slot child)
    (noChild : ∀ child, value ≠ .child child) (suits : Suits above slot value) :
    (scene.put parent slot value).Forest loose := by
  have links : ∀ {q t x}, (scene.put parent slot value).Holds q t x ↔ scene.Holds q t x := by
    intro q t x
    rw [holds_put_iff found lt]
    by_cases here : q = parent ∧ t = slot
    · simp [here, vacant, noChild]
    · simp [here]
  apply h.of_put found suits h.nodup h.loose_live
  case held =>
    intro q t x held
    exact h.held (links.mp held)
  case hung =>
    intro id node found' notRoot notLoose
    obtain ⟨up, eq, held⟩ := h.hung found' notRoot notLoose
    exact ⟨up, eq, links.mpr held⟩
  case anchored =>
    intro id live
    obtain ⟨top, isTop, path⟩ := h.anchored live
    exact ⟨top, isTop, path.mono fun ⟨t, held⟩ => ⟨t, links.mpr held⟩⟩
  case siblings =>
    intro q t t' x y held held' same
    exact h.siblings (links.mp held) (links.mp held') same

/-- A loose node is hung into a vacant input to which its links lead already. -/
theorem hang (h : scene.Forest (child :: loose)) (found : scene.node? parent = some above)
    (lt : slot < above.inputs.length) (vacant : ∀ child, ¬ scene.Holds parent slot child)
    (fastened : scene.Fastened parent slot child) (apart : ¬ scene.Reaches child parent)
    (distinct : ∀ {place other}, place ≠ slot → scene.Holds parent place other →
      scene.name? other ≠ scene.name? child) :
    (scene.put parent slot (.child child)).Forest loose := by
  obtain ⟨free, nodup⟩ := List.nodup_cons.mp h.nodup
  have links : ∀ {q t x}, (scene.put parent slot (.child child)).Holds q t x ↔
      (q = parent ∧ t = slot) ∧ x = child ∨ scene.Holds q t x := by
    intro q t x
    rw [holds_put_iff found lt]
    by_cases here : q = parent ∧ t = slot
    · simp [here, vacant, eq_comm]
    · simp [here]
  have new : (scene.put parent slot (.child child)).Holds parent slot child :=
    links.mpr (.inl ⟨⟨rfl, rfl⟩, rfl⟩)
  have kept : ∀ {q x}, scene.ParentOf q x → (scene.put parent slot (.child child)).ParentOf q x :=
    fun ⟨t, held⟩ => ⟨t, links.mpr (.inr held)⟩
  apply h.of_put found (fun literal eq => by cases eq) nodup
  case loose_live =>
    intro id mem
    exact h.loose_live (List.mem_cons_of_mem _ mem)
  case held =>
    intro q t x held
    rcases links.mp held with ⟨⟨rfl, rfl⟩, rfl⟩ | held
    · exact ⟨free, fastened⟩
    · obtain ⟨free', fastened'⟩ := h.held held
      exact ⟨fun mem => free' (List.mem_cons_of_mem _ mem), fastened'⟩
  case hung =>
    intro id node found' notRoot notLoose
    by_cases same : id = child
    · subst same
      obtain ⟨_, below, _, there, up, here, _⟩ := fastened
      obtain rfl := Option.some.inj (found'.symm.trans there)
      exact ⟨parent, up, (show node.slot = slot from here) ▸ new⟩
    · obtain ⟨up, eq, held⟩ := h.hung found' notRoot (by simp [same, notLoose])
      exact ⟨up, eq, links.mpr (.inr held)⟩
  case anchored =>
    intro id live
    obtain ⟨top, isTop, path⟩ := h.anchored live
    have path := path.mono kept
    by_cases same : top = child
    · -- what was below the loose node is now below whatever its new parent is below
      subst same
      obtain ⟨top', isTop', path'⟩ := h.anchored ⟨above, found⟩
      have ne : top' ≠ top := fun eq => apart (eq ▸ path')
      refine ⟨top', ?_, (path'.mono kept).trans (.head new.parentOf path)⟩
      simpa [ne] using isTop'
    · exact ⟨top, by simpa [same] using isTop, path⟩
  case siblings =>
    intro q t t' x y held held' same
    by_contra ne
    rcases links.mp held with ⟨⟨rfl, rfl⟩, rfl⟩ | first
    · rcases links.mp held' with ⟨⟨-, here⟩, -⟩ | second
      · exact ne here.symm
      · exact distinct (Ne.symm ne) second same.symm
    · rcases links.mp held' with ⟨⟨rfl, rfl⟩, rfl⟩ | second
      · exact distinct ne first same
      · exact ne (h.siblings first second same)

/-- A loose node and all that is below it is erased. -/
theorem prune (h : scene.Forest (child :: loose)) (unfolds : scene.Unfolds [.child child] branches) :
    (scene.without branches.ids).Forest loose := by
  have tag : ∀ id ∈ branches.ids, id.tag = scene.tag := fun id mem => unfolds.tag_of_mem mem
  have gone : ∀ {id}, id ∈ branches.ids ↔ scene.Reaches child id := by simp [unfolds.mem_ids_iff]
  have kept : ∀ id, ¬ scene.Reaches child id →
      (scene.without branches.ids).node? id = scene.node? id :=
    fun id apart => by rw [node?_without tag, if_neg (mt gone.mp apart)]
  have survives : ∀ {id node}, (scene.without branches.ids).node? id = some node ↔
      ¬ scene.Reaches child id ∧ scene.node? id = some node := by
    simp [node?_without_eq_some_iff tag, gone]
  obtain ⟨free, nodup⟩ := List.nodup_cons.mp h.nodup
  have tops : ∀ {top}, top = scene.root ∨ top ∈ loose → ¬ scene.Reaches child top := by
    intro top isTop
    apply h.not_reaches_top (isTop.imp_right (List.mem_cons_of_mem child))
    rintro rfl
    rcases isTop with eq | mem
    · exact (h.loose_live List.mem_cons_self).1 eq
    · exact free mem
  -- a link that is left leads from a node that is left to a node that is left
  have linked : ∀ {q t x}, (scene.without branches.ids).Holds q t x →
      scene.Holds q t x ∧ ¬ scene.Reaches child q ∧ ¬ scene.Reaches child x := by
    rintro q t x ⟨node, found, entry⟩
    obtain ⟨apart, found⟩ := survives.mp found
    have held : scene.Holds q t x := ⟨node, found, entry⟩
    refine ⟨held, apart, fun path => ?_⟩
    rcases ReflTransGen.cases_tail path with eq | ⟨last, up, edge⟩
    · exact (h.held held).1 (by simp [eq])
    · exact apart (h.parent_unique edge held.parentOf ▸ up)
  refine
    { counted := ?counted
      nodup := nodup
      root_live := ?root_live
      loose_live := ?loose_live
      fits := ?fits
      held := ?held
      hung := ?hung
      anchored := ?anchored
      siblings := ?siblings }
  case counted =>
    exact h.counted.without (h.nodup_ids_slot unfolds) fun id mem => unfolds.live_of_mem mem
  case root_live =>
    obtain ⟨node, found⟩ := h.root_live
    exact ⟨node, by rw [root_without, kept _ (tops (.inl rfl)), found]⟩
  case loose_live =>
    intro id mem
    obtain ⟨notRoot, node, found⟩ := h.loose_live (List.mem_cons_of_mem child mem)
    exact ⟨by simpa using notRoot, node, by rw [kept _ (tops (.inr mem)), found]⟩
  case fits =>
    intro id node found
    rw [root_without]
    exact h.fits (survives.mp found).2
  case held =>
    intro q t x held'
    obtain ⟨held, apart, apart'⟩ := linked held'
    obtain ⟨free', fastened⟩ := h.held held
    exact ⟨fun mem => free' (List.mem_cons_of_mem _ mem),
      fastened.congr (kept q apart) (kept x apart')⟩
  case hung =>
    intro id node found notRoot notLoose
    obtain ⟨apart, was⟩ := survives.mp found
    have ne : id ≠ child := fun eq => apart (eq ▸ .refl)
    obtain ⟨up, eq, held⟩ := h.hung was (by simpa using notRoot) (by simp [ne, notLoose])
    refine ⟨up, eq, (holds_congr (kept up fun path => ?_)).mpr held⟩
    exact apart (path.tail held.parentOf)
  case anchored =>
    rintro id ⟨node, found⟩
    obtain ⟨apart, was⟩ := survives.mp found
    obtain ⟨top, isTop, path⟩ := h.anchored ⟨node, was⟩
    have ne : top ≠ child := fun eq => apart (eq ▸ path)
    exact ⟨top, by simpa [ne] using isTop, reaches_of_erased kept path apart⟩
  case siblings =>
    intro q t t' x y held held' same
    obtain ⟨held, -, apart⟩ := linked held
    obtain ⟨held', -, apart'⟩ := linked held'
    rw [name?, name?, kept x apart, kept y apart'] at same
    exact h.siblings held held' same

theorem relabel (h : scene.Forest loose) (found : scene.node? id = some node)
    (inputs : (change node).inputs = node.inputs) (operator : (change node).operator = node.operator)
    (fits : Fits scene.root id (change node))
    (links : id ∈ loose ∨ (change node).parent = node.parent ∧ (change node).slot = node.slot)
    (distinct : ∀ {parent slot place other}, scene.Holds parent slot id →
      scene.Holds parent place other → scene.name? other = some (change node).name →
      slot = place) : (scene.update id change).Forest loose := by
  have here : (scene.update id change).node? id = some (change node) := node?_update_self found
  have there : ∀ {x}, x ≠ id → (scene.update id change).node? x = scene.node? x := node?_update_ne
  have holds : ∀ {q t x}, (scene.update id change).Holds q t x ↔ scene.Holds q t x :=
    holds_update found inputs
  refine
    { counted := h.counted.update _ _
      nodup := h.nodup
      root_live := ?root_live
      loose_live := ?loose_live
      fits := ?fits
      held := ?held
      hung := ?hung
      anchored := ?anchored
      siblings := ?siblings }
  case root_live =>
    simpa using h.root_live
  case loose_live =>
    intro x mem
    simpa using h.loose_live mem
  case fits =>
    intro x node' found'
    rw [root_update]
    by_cases same : x = id
    · rw [same, here, Option.some.injEq] at found'
      exact same ▸ found' ▸ fits
    · exact h.fits (there same ▸ found')
  -- only a loose node may get other links, and what hangs somewhere is not loose
  case held =>
    intro q t x held
    obtain ⟨free, fastened⟩ := h.held (holds.mp held)
    refine ⟨free, fastened.update found operator fun same => ?_⟩
    exact links.resolve_left (same ▸ free)
  case hung =>
    intro x node' found' notRoot notLoose
    by_cases same : x = id
    · subst same
      obtain rfl := Option.some.inj (here.symm.trans found')
      obtain ⟨up', slot'⟩ := links.resolve_left notLoose
      rw [up', slot']
      obtain ⟨up, eq, held⟩ := h.hung found (by simpa using notRoot) notLoose
      exact ⟨up, eq, holds.mpr held⟩
    · obtain ⟨up, eq, held⟩ := h.hung (there same ▸ found') (by simpa using notRoot) notLoose
      exact ⟨up, eq, holds.mpr held⟩
  case anchored =>
    intro x alive
    obtain ⟨top, isTop, path⟩ := h.anchored (live_update_iff.mp alive)
    exact ⟨top, by simpa using isTop, path.mono fun ⟨t, held⟩ => ⟨t, holds.mpr held⟩⟩
  case siblings =>
    intro q t t' x y held held' same
    have names : ∀ {z}, z ≠ id → (scene.update id change).name? z = scene.name? z := name?_update_ne
    have renamed : (scene.update id change).name? id = some (change node).name :=
      name?_update_self found
    by_cases first : x = id
    · by_cases second : y = id
      · exact (h.holder_unique (first ▸ holds.mp held) (second ▸ holds.mp held')).2
      · rw [first, renamed, names second] at same
        exact distinct (first ▸ holds.mp held) (holds.mp held') same.symm
    · by_cases second : y = id
      · rw [second, renamed, names first] at same
        exact (distinct (second ▸ holds.mp held') (holds.mp held) same).symm
      · rw [names first, names second] at same
        exact h.siblings (holds.mp held) (holds.mp held') same

/-- A new node without children is added and hangs nowhere yet. -/
theorem grow (h : scene.Forest loose) (fits : Fits scene.root scene.nextId node)
    (noChild : ∀ (slot : Nat) child, node.inputs[slot]? ≠ some (.child child))
    (parent : node.parent ≠ none) : (scene.push node).Forest (scene.nextId :: loose) := by
  have here : (scene.push node).node? scene.nextId = some node := by rw [node?_push, if_pos rfl]
  have there : ∀ {id}, id ≠ scene.nextId → (scene.push node).node? id = scene.node? id :=
    fun ne => by rw [node?_push, if_neg ne]
  have kept : ∀ {id}, scene.Live id → (scene.push node).Live id :=
    fun live => live.imp fun node' found => (there live.ne_nextId).trans found
  -- a node without children links to nobody
  have holds : ∀ {q t x}, (scene.push node).Holds q t x ↔ scene.Holds q t x := by
    intro q t x
    by_cases same : q = scene.nextId
    · rw [same, holds_iff here]
      refine iff_of_false (noChild t x) ?_
      rintro ⟨node', found, -⟩
      simp [node?_nextId] at found
    · exact holds_congr (there same)
  refine
    { counted := h.counted.push node
      nodup := List.nodup_cons.mpr ⟨?fresh, h.nodup⟩
      root_live := kept h.root_live
      loose_live := ?loose_live
      fits := ?fits
      held := ?held
      hung := ?hung
      anchored := ?anchored
      siblings := ?siblings }
  case fresh =>
    exact fun mem => (h.loose_live mem).2.ne_nextId rfl
  case loose_live =>
    intro id mem
    rcases List.mem_cons.mp mem with rfl | mem
    · exact ⟨fun eq => parent (fits.parent_iff.mpr eq), node, here⟩
    · exact (h.loose_live mem).imp_right kept
  case fits =>
    intro id node' found
    by_cases same : id = scene.nextId
    · rw [same, here, Option.some.injEq] at found
      exact same ▸ found ▸ fits
    · exact h.fits (there same ▸ found)
  case held =>
    intro q t x held
    have held := holds.mp held
    obtain ⟨free, fastened⟩ := h.held held
    have below := (h.live_of_holds held).ne_nextId
    have above : q ≠ scene.nextId := Live.ne_nextId (held.imp fun node link => link.1)
    exact ⟨by simp [below, free], fastened.congr (there above) (there below)⟩
  case hung =>
    intro id node' found notRoot notLoose
    rw [List.mem_cons, not_or] at notLoose
    obtain ⟨up, eq, held⟩ := h.hung (there notLoose.1 ▸ found) notRoot notLoose.2
    exact ⟨up, eq, holds.mpr held⟩
  case anchored =>
    intro id live
    by_cases same : id = scene.nextId
    · exact ⟨id, .inr (same ▸ List.mem_cons_self), .refl⟩
    · obtain ⟨top, isTop, path⟩ := h.anchored (live.imp fun node' found => there same ▸ found)
      refine ⟨top, isTop.imp_right (List.mem_cons_of_mem _), ?_⟩
      exact path.mono fun ⟨t, held⟩ => ⟨t, holds.mpr held⟩
  case siblings =>
    intro q t t' x y held held' same
    have names : ∀ {z}, scene.Live z → (scene.push node).name? z = scene.name? z :=
      fun live => by rw [name?, name?, there live.ne_nextId]
    rw [names (h.live_of_holds (holds.mp held)), names (h.live_of_holds (holds.mp held'))] at same
    exact h.siblings (holds.mp held) (holds.mp held') same

end Forest

end DistanceField.Scene
