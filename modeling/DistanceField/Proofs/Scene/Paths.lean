import DistanceField.Proofs.Program.Variables
import DistanceField.Proofs.Scene.Census
import DistanceField.Proofs.Scene.Runs

/-!
# Paths as names

The local name of a node is made of the names on the way to it. Siblings bear different names, so
the way can be read off the local name and no two nodes have one local name.
-/

namespace DistanceField

/-- A word that the shading language takes as a name: it begins with a letter, no two underscores
stand together in it, and it is none of the names that the language keeps for itself. -/
structure IsPlainIdentifier (text : String) : Prop where
  word : IsWord text
  letter : ∀ c, text.toList.head? = some c → c.isAlpha
  single : ¬ ['_', '_'] <:+: text.toList
  unclaimed : ¬ "gl_".toList <+: text.toList

theorem Text.nil_mem_splitOn {α : Type} [DecidableEq α] {separator : α} {xs : List α}
    (double : [separator, separator] <:+: xs) : [] ∈ xs.splitOn separator := by
  obtain ⟨before, after, rfl⟩ := double
  rw [List.append_assoc, List.cons_append, List.splitOn_append_cons_self, List.singleton_append,
    ← List.nil_append (separator :: after), List.splitOn_append_cons_self]
  simp

section Joined

variable {names : List String}

theorem notMem_node_cons (valid : ∀ name ∈ names, Scene.validName name) :
    ∀ name ∈ "node" :: names, '_' ∉ name.toList := by
  intro name mem
  rcases List.mem_cons.mp mem with rfl | mem
  · decide
  · exact Scene.notMem_of_validName (valid name mem)

/-- What stands between the underscores of a joined path are its names. -/
theorem split_intercalate (valid : ∀ name ∈ names, Scene.validName name) :
    (("_".intercalate ("node" :: names)).split '_').toList.map String.Slice.copy =
      "node" :: names := by
  simpa using String.toList_split_intercalate (notMem_node_cons valid)

theorem head?_intercalate (names : List String) :
    ("_".intercalate ("node" :: names)).toList.head? = some 'n' := by
  cases names <;> simp [String.toList_intercalate, List.intercalate]

theorem isWord_intercalate (valid : ∀ name ∈ names, Scene.validName name) :
    IsWord ("_".intercalate ("node" :: names)) := by
  constructor
  · intro empty
    have first := head?_intercalate names
    rw [empty] at first
    cases first
  · intro c mem
    rw [String.toList_intercalate] at mem
    rcases Text.mem_of_mem_intercalate mem with mem | ⟨piece, listed, mem⟩
    · exact .inr (List.mem_singleton.mp mem)
    · obtain ⟨name, among, rfl⟩ := List.mem_map.mp listed
      rcases List.mem_cons.mp among with rfl | among
      · exact isWord_node.2 c mem
      · exact .inl ((Scene.validName_iff.mp (valid name among)).2 c mem)

theorem isPlainIdentifier_intercalate (valid : ∀ name ∈ names, Scene.validName name) :
    IsPlainIdentifier ("_".intercalate ("node" :: names)) where
  word := isWord_intercalate valid
  letter c eq := by
    rw [head?_intercalate] at eq
    cases eq
    decide
  single double := by
    have split := List.splitOn_intercalate '_'
      (List.forall_mem_map.mpr (notMem_node_cons valid)) (by simp)
    have empty := Text.nil_mem_splitOn double
    rw [String.toList_intercalate, show "_".toList = ['_'] from rfl, split] at empty
    obtain ⟨name, mem, eq⟩ := List.mem_map.mp empty
    rcases List.mem_cons.mp mem with rfl | mem
    · cases eq
    · exact (Scene.validName_iff.mp (valid name mem)).1 eq
  unclaimed claimed := by
    obtain ⟨rest, eq⟩ := claimed
    have first := head?_intercalate names
    rw [← eq] at first
    cases first

/-- Below the root an underscore follows. -/
theorem isPrefix_intercalate (some : names ≠ []) :
    "node_".toList <+: ("_".intercalate ("node" :: names)).toList := by
  obtain ⟨name, names, rfl⟩ := List.exists_cons_of_ne_nil some
  rw [String.intercalate_cons_of_ne_nil some, String.toList_append, String.toList_append]
  exact List.prefix_append _ _

end Joined

namespace Scene

/-- The names from the child of the root on the way to a node down to its own. -/
inductive NamesTo (scene : Scene) : NodeId → List String → Prop
  | root : scene.NamesTo scene.root []
  | child {parent child : NodeId} {slot : Nat} {node : Node} {names : List String} :
    scene.NamesTo parent names → scene.Holds parent slot child → scene.node? child = some node →
      scene.NamesTo child (names ++ [node.name])

variable {scene : Scene} {id other low : NodeId} {place : Nat} {node : Node} {slots : List Slot}
  {branches : Branches} {names more : List String} {name : String}

theorem Forest.unique_namesTo (h : scene.Forest []) (first : scene.NamesTo id names)
    (second : scene.NamesTo id more) : names = more := by
  induction first generalizing more with
  | root =>
    cases second with
    | root => rfl
    | child above held found => exact absurd held.parentOf (h.not_parentOf_top (.inl rfl))
  | child above held found ih =>
    cases second with
    | root => exact absurd held.parentOf (h.not_parentOf_top (.inl rfl))
    | child above' held' found' =>
      obtain ⟨rfl, -⟩ := h.holder_unique held held'
      obtain rfl := Option.some.inj (found.symm.trans found')
      rw [ih above']

/-- Two nodes to which the same names lead are one. -/
theorem Forest.eq_of_namesTo (h : scene.Forest []) (first : scene.NamesTo id names)
    (second : scene.NamesTo other names) : id = other := by
  induction first generalizing other with
  | root =>
    generalize none : ([] : List String) = names at second
    cases second with
    | root => rfl
    | child => simp at none
  | @child parent id slot node names above held found ih =>
    generalize eq : names ++ [node.name] = all at second
    cases second with
    | root => simp at eq
    | @child parent' _ place node' names' above' held' found' =>
      obtain ⟨rfl, same⟩ := List.append_inj' eq rfl
      obtain rfl := ih above'
      obtain rfl := h.siblings held held' (by simpa [name?, found, found'] using same)
      obtain ⟨above, here, entry⟩ := held
      obtain ⟨above', here', entry'⟩ := held'
      obtain rfl := Option.some.inj (here.symm.trans here')
      exact Slot.child.inj (Option.some.inj (entry.symm.trans entry'))

theorem Forest.validName_of_namesTo (h : scene.Forest []) (way : scene.NamesTo id names) :
    ∀ name ∈ names, validName name := by
  induction way with
  | root => simp
  | @child parent child slot node names _ held found ih =>
    have notRoot : child ≠ scene.root :=
      fun eq => h.not_parentOf_top (.inl rfl) (eq ▸ held.parentOf)
    rw [List.forall_mem_append, List.forall_mem_singleton]
    exact ⟨ih, (h.fits found).validName notRoot⟩

/-- The local name of what hangs somewhere in a node joins the names on the way to it. -/
theorem Unfolds.exists_namesTo (unfolds : scene.Unfolds slots branches)
    (named : branches.Named scene ("_".intercalate ("node" :: names)))
    (found : scene.node? id = some node) (left : node.inputs.drop place = slots)
    (way : scene.NamesTo id names) (mem : low ∈ branches.ids) : ∃ names,
      scene.NamesTo low names ∧ scene.localName low = .ok ("_".intercalate ("node" :: names)) := by
  induction unfolds generalizing id node place names with
  | nil => simp at mem
  | empty _ ih => exact ih named found (next_of_drop left).2 way mem
  | literal _ ih => exact ih named found (next_of_drop left).2 way mem
  | @child top slots below rest there _ _ ihBelow ihRest =>
    obtain ⟨here, left⟩ := next_of_drop left
    obtain ⟨self, namedBelow, namedRest⟩ := named
    rw [← Branches.variableBelow_intercalate] at self namedBelow
    have onward : scene.NamesTo top.id (names ++ [top.name]) :=
      .child way ⟨node, found, here⟩ there
    rw [Branches.ids_child, List.mem_cons, List.mem_append] at mem
    rcases mem with rfl | mem | mem
    · exact ⟨_, onward, self⟩
    · exact ihBelow namedBelow there List.drop_zero onward mem
    · exact ihRest namedRest found left way mem

theorem Forest.exists_namesTo (h : scene.Forest []) (live : scene.Live id) : ∃ names,
    scene.NamesTo id names ∧ scene.localName id = .ok ("_".intercalate ("node" :: names)) := by
  obtain ⟨root, found⟩ := h.root_live
  obtain ⟨branches, unfolds⟩ := h.exists_unfolds found
  obtain ⟨atRoot, named⟩ := h.named_root found unfolds
  obtain ⟨node, here⟩ := live
  have listed : node ∈ root :: branches.nodes := by
    rw [(h.perm_liveNodes found unfolds).mem_iff, h.mem_liveNodes_iff, (h.fits here).id_eq]
    exact here
  rcases List.mem_cons.mp listed with rfl | listed
  · obtain rfl := (h.fits here).id_eq.symm.trans (h.fits found).id_eq
    exact ⟨[], .root, atRoot⟩
  · have mem : id ∈ branches.ids := (h.fits here).id_eq ▸ List.mem_map_of_mem listed
    have joined : branches.Named scene ("_".intercalate ["node"]) := named
    exact unfolds.exists_namesTo joined found List.drop_zero .root mem

theorem live_of_localName (named : scene.localName id = .ok name) : scene.Live id := by
  cases found : scene.node? id with
  | some node => exact ⟨node, found⟩
  | none => simp [localName, Scene.path, Scene.node, found, bind, Except.bind, Except.map] at named

theorem Forest.namesTo_of_localName (h : scene.Forest []) (named : scene.localName id = .ok name) :
    ∃ names, scene.NamesTo id names ∧ name = "_".intercalate ("node" :: names) := by
  obtain ⟨names, way, eq⟩ := h.exists_namesTo (live_of_localName named)
  exact ⟨names, way, Except.ok.inj (named.symm.trans eq)⟩

/-- What is promised of the local names of a scene. -/
structure LocalNames (scene : Scene) : Prop where
  identifier : ∀ {id}, scene.Live id →
    ∃ name, scene.localName id = .ok name ∧ IsPlainIdentifier name
  unique : ∀ {id other name}, scene.localName id = .ok name → scene.localName other = .ok name →
    id = other
  /-- The local name can be cut into the names on the way to the node. -/
  split : ∀ {id name}, scene.localName id = .ok name → ∃! names : List String,
    scene.NamesTo id names ∧ (name.split '_').toList.map String.Slice.copy = "node" :: names
  /-- Below the root nobody else has the name. -/
  apart : ∀ {id name}, scene.localName id = .ok name → id ≠ scene.root →
    "node_".toList <+: name.toList ∧
      (∀ operator : Operator, operator.Accepted → name ≠ operator.symbol) ∧
        name ∉ Shader.declaredSymbols

theorem isReserved_of_isPrefix (start : "node_".toList <+: name.toList) :
    Shader.isReserved name := by
  have first := List.isPrefixOf_iff_prefix.mpr start
  simp only [Shader.isReserved, first, Bool.true_or]

theorem localNames_of_reachable (reachable : scene.Reachable) : scene.LocalNames := by
  have h := reachable.forest
  refine { identifier := ?_, unique := ?_, split := ?_, apart := ?_ }
  · intro id live
    obtain ⟨names, way, named⟩ := h.exists_namesTo live
    exact ⟨_, named, isPlainIdentifier_intercalate (h.validName_of_namesTo way)⟩
  · intro id other name named named'
    obtain ⟨names, way, rfl⟩ := h.namesTo_of_localName named
    obtain ⟨more, way', same⟩ := h.namesTo_of_localName named'
    have split := split_intercalate (h.validName_of_namesTo way)
    rw [same, split_intercalate (h.validName_of_namesTo way')] at split
    obtain rfl := List.tail_eq_of_cons_eq split
    exact h.eq_of_namesTo way way'
  · intro id name named
    obtain ⟨names, way, rfl⟩ := h.namesTo_of_localName named
    refine ⟨names, ⟨way, split_intercalate (h.validName_of_namesTo way)⟩, ?_⟩
    rintro more ⟨way', -⟩
    exact h.unique_namesTo way' way
  · intro id name named notRoot
    obtain ⟨names, way, rfl⟩ := h.namesTo_of_localName named
    have some : names ≠ [] := by
      rintro rfl
      exact notRoot (h.eq_of_namesTo way .root)
    have start := isPrefix_intercalate some
    refine ⟨start, ?_, ?_⟩
    · rintro operator accepted same
      have free := accepted.checked.unreserved
      rw [← same, isReserved_of_isPrefix start] at free
      cases free
    · have fresh : ∀ symbol ∈ Shader.declaredSymbols,
          ¬ "node_".toList <+: symbol.toList := by decide
      exact fun mem => fresh _ mem start

theorem localNames_ball : ball.Reachable ∧ ball.LocalNames ∧
    ball.localName ⟨7, 2⟩ = .ok "node_ball_p" ∧ ball.NamesTo ⟨7, 2⟩ ["ball", "p"] ∧
      (("node_ball_p".split '_').toList.map String.Slice.copy = ["node", "ball", "p"]) := by
  have names := localNames_of_reachable reachable_ball
  have named : ball.localName ⟨7, 2⟩ = .ok "node_ball_p" := by decide +kernel
  have first : ball.Holds ball.root 0 ⟨7, 1⟩ := ⟨_, rfl, rfl⟩
  have second : ball.Holds ⟨7, 1⟩ 0 ⟨7, 2⟩ := ⟨_, rfl, rfl⟩
  have way : ball.NamesTo ⟨7, 2⟩ ["ball", "p"] := .child (.child .root first rfl) second rfl
  obtain ⟨more, ⟨way', split⟩, unique⟩ := names.split named
  obtain rfl := reachable_ball.forest.unique_namesTo way way'
  exact ⟨reachable_ball, names, named, way, split⟩

end Scene

end DistanceField
