import DistanceField.Proofs.Operator.Accepted
import DistanceField.Proofs.Scene.Links
import Mathlib.Data.Finset.Card
import Mathlib.Order.WellFounded

/-!
# Forests

Between its writes an edit leaves nodes that hang nowhere. The invariant of a scene is therefore
stated for a forest: everything hangs below the root or below one of the loose nodes. What the
parent link of a loose node says does not matter.
-/

namespace DistanceField.Scene
open Relation (ReflTransGen TransGen)

variable {scene : Scene} {loose : List NodeId} {id parent child other top : NodeId}
  {slot place : Nat} {node : Node}

/-- An identifier names a node. -/
def Live (scene : Scene) (id : NodeId) : Prop := ∃ node, scene.node? id = some node

def name? (scene : Scene) (id : NodeId) : Option String := (scene.node? id).map Node.name

/-- What holds of a node by itself. -/
structure Fits (root id : NodeId) (node : Node) : Prop where
  id_eq : node.id = id
  kind_iff : node.kind = .root ↔ id = root
  parent_iff : node.parent = none ↔ id = root
  operator_root : id = root → node.operator = .sceneRoot
  accepted : id ≠ root → node.operator.Accepted
  validName : id ≠ root → validName node.name
  length_inputs : node.inputs.length = node.operator.arity
  literal : ∀ {slot : Nat} {value : Literal}, node.inputs[slot]? = some (.literal value) →
    node.operator.inputs[slot]? = some value.type ∧ value.isFinite

theorem Fits.isRoot_iff {root id : NodeId} {node : Node} (fits : Fits root id node) :
    node.isRoot ↔ id = root := by
  rw [Node.isRoot, decide_eq_true_iff]
  exact fits.kind_iff

/-- A child knows where it hangs, and its operator yields what is expected there. -/
def Fastened (scene : Scene) (parent : NodeId) (slot : Nat) (child : NodeId) : Prop :=
  ∃ above below, scene.node? parent = some above ∧ scene.node? child = some below ∧
    below.parent = some parent ∧ below.slot = slot ∧
    above.operator.inputs[slot]? = some below.operator.output

/-- All links fit together, but the loose nodes hang nowhere. -/
structure Forest (scene : Scene) (loose : List NodeId) : Prop where
  counted : scene.Counted
  nodup : loose.Nodup
  root_live : scene.Live scene.root
  loose_live : ∀ {id}, id ∈ loose → id ≠ scene.root ∧ scene.Live id
  fits : ∀ {id node}, scene.node? id = some node → Fits scene.root id node
  held : ∀ {parent slot child}, scene.Holds parent slot child →
    child ∉ loose ∧ scene.Fastened parent slot child
  hung : ∀ {id node}, scene.node? id = some node → id ≠ scene.root → id ∉ loose →
    ∃ parent, node.parent = some parent ∧ scene.Holds parent node.slot id
  anchored : ∀ {id}, scene.Live id → ∃ top, (top = scene.root ∨ top ∈ loose) ∧ scene.Reaches top id
  siblings : ∀ {parent slot place child other}, scene.Holds parent slot child →
    scene.Holds parent place other → scene.name? child = scene.name? other → slot = place

namespace Forest

theorem live_of_holds (h : scene.Forest loose) (held : scene.Holds parent slot child) :
    scene.Live child := by
  obtain ⟨-, above, below, -, found, -⟩ := h.held held
  exact ⟨below, found⟩

theorem holder_unique (h : scene.Forest loose) (first : scene.Holds parent slot child)
    (second : scene.Holds other place child) : parent = other ∧ slot = place := by
  obtain ⟨-, -, below, -, found, up, here, -⟩ := h.held first
  obtain ⟨-, -, below', -, found', up', here', -⟩ := h.held second
  obtain rfl : below = below' := Option.some.inj (found.symm.trans found')
  exact ⟨Option.some.inj (up.symm.trans up'), here.symm.trans here'⟩

theorem parent_unique (h : scene.Forest loose) (first : scene.ParentOf parent child)
    (second : scene.ParentOf other child) : parent = other := by
  obtain ⟨slot, first⟩ := first
  obtain ⟨place, second⟩ := second
  exact (h.holder_unique first second).1

theorem not_parentOf_top (h : scene.Forest loose) (isTop : top = scene.root ∨ top ∈ loose) :
    ¬ scene.ParentOf parent top := by
  rintro ⟨slot, held⟩
  obtain ⟨free, -, below, -, found, up, -⟩ := h.held held
  rcases isTop with rfl | mem
  · rw [(h.fits found).parent_iff.mpr rfl] at up
    cases up
  · exact free mem

theorem not_transGen_top (h : scene.Forest loose) (isTop : top = scene.root ∨ top ∈ loose) :
    ¬ TransGen scene.ParentOf id top := by
  intro path
  obtain ⟨last, -, edge⟩ := TransGen.tail'_iff.mp path
  exact h.not_parentOf_top isTop edge

theorem not_reaches_top (h : scene.Forest loose) (isTop : top = scene.root ∨ top ∈ loose)
    (ne : id ≠ top) : ¬ scene.Reaches id top := by
  intro path
  rcases ReflTransGen.cases_tail path with eq | ⟨last, -, edge⟩
  · exact ne eq.symm
  · exact h.not_parentOf_top isTop edge

theorem acyclic (h : scene.Forest loose) (id : NodeId) : ¬ TransGen scene.ParentOf id id := by
  by_cases live : scene.Live id
  · obtain ⟨top, isTop, path⟩ := h.anchored live
    clear live
    induction path with
    | refl => exact h.not_transGen_top isTop
    | @tail a b _ edge ih =>
      -- the last edge of a cycle through `b` comes from `a`, so `a` would lie on a cycle as well
      intro cycle
      obtain ⟨last, up, edge'⟩ := TransGen.tail'_iff.mp cycle
      obtain rfl := h.parent_unique edge edge'
      exact ih (TransGen.head' edge up)
  · intro cycle
    obtain ⟨last, -, slot, held⟩ := TransGen.tail'_iff.mp cycle
    exact live (h.live_of_holds held)

theorem ne_of_parentOf (h : scene.Forest loose) (edge : scene.ParentOf parent child) :
    parent ≠ child := by
  rintro rfl
  exact h.acyclic parent (.single edge)

theorem not_reaches_parent (h : scene.Forest loose) (edge : scene.ParentOf parent child) :
    ¬ scene.Reaches child parent := fun path => h.acyclic parent (TransGen.head' edge path)

/-- Of two nodes above a third one, one is above the other. -/
theorem reaches_total (h : scene.Forest loose) {a b : NodeId} (first : scene.Reaches a id)
    (second : scene.Reaches b id) : scene.Reaches a b ∨ scene.Reaches b a := by
  have unique : Relator.RightUnique (Function.swap scene.ParentOf) :=
    fun _ _ _ up up' => h.parent_unique up up'
  have total := ReflTransGen.total_of_right_unique unique
    (Relation.reflTransGen_swap.mpr first) (Relation.reflTransGen_swap.mpr second)
  exact total.symm.imp Relation.reflTransGen_swap.mp Relation.reflTransGen_swap.mp

/-- Children in different inputs of a node have nothing below them in common. -/
theorem disjoint_below (h : scene.Forest loose) (first : scene.Holds parent slot child)
    (second : scene.Holds parent place other) (ne : slot ≠ place)
    (below : scene.Reaches child id) : ¬ scene.Reaches other id := by
  have key : ∀ {a b s t}, scene.Holds parent s a → scene.Holds parent t b → s ≠ t →
      ¬ scene.Reaches a b := by
    intro a b s t held held' ne path
    rcases ReflTransGen.cases_tail path with eq | ⟨last, up, edge⟩
    · exact ne (h.holder_unique held (eq ▸ held')).2
    · obtain rfl := h.parent_unique edge held'.parentOf
      exact h.not_reaches_parent held.parentOf up
  intro below'
  rcases h.reaches_total below below' with path | path
  · exact key first second ne path
  · exact key second first ne.symm path

theorem live_iff_mem_ids (h : scene.Forest loose) : scene.Live id ↔ id ∈ scene.ids := by
  simp only [ids, List.mem_map, mem_liveNodes]
  constructor
  · rintro ⟨node, found⟩
    obtain ⟨tag, entry⟩ := node?_eq_some_iff.mp found
    exact ⟨node, ⟨id.index, by simp [nodeAt?, entry]⟩, (h.fits found).id_eq⟩
  · rintro ⟨node, ⟨index, found⟩, rfl⟩
    rw [nodeAt?_eq_node?] at found
    exact ⟨node, (h.fits found).id_eq ▸ found⟩

theorem wellFounded (h : scene.Forest loose) :
    WellFounded fun child parent => scene.ParentOf parent child := by
  classical
  -- on the way down there are fewer and fewer nodes that hang below
  let weight (id : NodeId) :=
    (scene.ids.toFinset.filter fun low => TransGen scene.ParentOf id low).card
  refine Subrelation.wf (r := InvImage (· < ·) weight) ?_ (InvImage.wf weight wellFounded_lt)
  intro child parent edge
  obtain ⟨slot, held⟩ := edge
  have mem : child ∈ scene.ids := h.live_iff_mem_ids.mp (h.live_of_holds held)
  apply Finset.card_lt_card
  refine Finset.ssubset_iff_of_subset ?_ |>.mpr ⟨child, ?_, ?_⟩
  · intro low below
    simp only [Finset.mem_filter] at below ⊢
    exact ⟨below.1, TransGen.head held.parentOf below.2⟩
  · simpa [mem] using TransGen.single held.parentOf
  · simpa using fun _ => h.acyclic child

end Forest

end DistanceField.Scene
