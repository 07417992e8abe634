import DistanceField.Proofs.Scene.Clearing
import Mathlib.Order.Defs.Unbundled

/-!
# What edits never undo

The arena only grows. A place that was given out once holds the node that was created there or a
hole, and no edit ever puts another node into it. This needs no tree: it holds of every single
write, and so of whatever is put together from writes, of failing edits as well.
-/

namespace DistanceField

section Keeps

variable {ε ε' σ α β : Type} {R : σ → σ → Prop}

def remains : EStateM.Result ε σ α → σ
  | .ok _ state => state
  | .error _ state => state

/-- However a computation ends, the state it leaves is related to the one it began with. -/
def Keeps (R : σ → σ → Prop) (run : EStateM ε σ α) : Prop :=
  ∀ state, R state (remains (run.run state))

namespace Keeps

theorem pure [Std.Refl R] (value : α) : Keeps R (pure value : EStateM ε σ α) :=
  fun state => refl_of R state

theorem get [Std.Refl R] : Keeps R (get : EStateM ε σ σ) := fun state => refl_of R state

theorem throw [Std.Refl R] (error : ε) : Keeps R (throw error : EStateM ε σ α) :=
  fun state => refl_of R state

theorem bind [IsTrans σ R] {run : EStateM ε σ α} {next : α → EStateM ε σ β} (first : Keeps R run)
    (second : ∀ value, Keeps R (next value)) : Keeps R (run >>= next) := by
  intro state
  have here := first state
  rw [EStateM.run_bind]
  cases ended : run.run state with
  | ok value after =>
    rw [ended] at here
    exact trans_of R here (second value after)
  | error error after =>
    rw [ended] at here
    exact here

/-- What would come after an error does not matter. -/
theorem throw_bind [Std.Refl R] (error : ε) (next : α → EStateM ε σ β) :
    Keeps R ((MonadExcept.throw error : EStateM ε σ α) >>= next) := fun state => refl_of R state

theorem adaptExcept {run : EStateM ε σ α} (kept : Keeps R run) (adapt : ε → ε') :
    Keeps R (run.adaptExcept adapt) := by
  intro state
  have same : remains ((run.adaptExcept adapt).run state) = remains (run.run state) := by
    simp only [EStateM.run, EStateM.adaptExcept]
    cases run state <;> rfl
  rw [same]
  exact kept state

end Keeps

end Keeps

namespace Scene

/-- What a scene may have become: it has its tag and all its places, and who is in one of them was
there before, under the same identifier and with the same operator. -/
structure Later (scene later : Scene) : Prop where
  tag : later.tag = scene.tag
  size : scene.nodes.size ≤ later.nodes.size
  node : ∀ {id node}, later.node? id = some node → id.index < scene.nodes.size →
    ∃ old, scene.node? id = some old ∧ node.id = old.id ∧ node.operator = old.operator

variable {scene later last : Scene} {id : NodeId} {node : Node}

theorem Later.refl (scene : Scene) : scene.Later scene where
  tag := rfl
  size := Nat.le_refl _
  node found _ := ⟨_, found, rfl, rfl⟩

theorem Later.trans (h : scene.Later later) (h' : later.Later last) : scene.Later last where
  tag := h'.tag.trans h.tag
  size := Nat.le_trans h.size h'.size
  node := by
    intro id node found lt
    obtain ⟨between, found, id_eq, operator⟩ := h'.node found (Nat.lt_of_lt_of_le lt h.size)
    obtain ⟨old, found, id_eq', operator'⟩ := h.node found lt
    exact ⟨old, found, id_eq.trans id_eq', operator.trans operator'⟩

instance : IsPreorder Scene Later where
  refl := Later.refl
  trans _ _ _ := Later.trans

theorem Later.update {change : Node → Node} (scene : Scene) (id : NodeId)
    (same : ∀ node, (change node).id = node.id ∧ (change node).operator = node.operator) :
    scene.Later (scene.update id change) where
  tag := tag_update ..
  size := Nat.le_of_eq (size_nodes_update ..).symm
  node := by
    intro target node found _
    rw [node?_update] at found
    by_cases here : target = id
    · rw [if_pos here] at found
      obtain ⟨old, was, rfl⟩ := Option.map_eq_some_iff.mp found
      exact ⟨old, here ▸ was, (same old).1, (same old).2⟩
    · rw [if_neg here] at found
      exact ⟨node, found, rfl, rfl⟩

theorem Later.push (scene : Scene) (node : Node) : scene.Later (scene.push node) where
  tag := rfl
  size := by simp [Scene.push]
  node := by
    intro target other found lt
    have old : target ≠ scene.nextId := fun eq => Nat.lt_irrefl _ (eq ▸ lt)
    rw [node?_push, if_neg old] at found
    exact ⟨other, found, rfl, rfl⟩

/-- An arena of the same size with fewer nodes in it. -/
structure Fewer (nodes left : Array (Option Node)) : Prop where
  size : left.size = nodes.size
  kept : ∀ {index : Nat} {node}, left[index]? = some (some node) → nodes[index]? = some (some node)

namespace Fewer

variable {nodes left : Array (Option Node)}

theorem refl (nodes : Array (Option Node)) : Fewer nodes nodes := ⟨rfl, id⟩

theorem next {a b : Array (Option Node) × List NodeId × Nat} (h : Fewer nodes a.1)
    (turn : destroyStep a = .next b) : Fewer nodes b.1 := by
  obtain ⟨left, _ | ⟨top, stack⟩, count⟩ := a
  · cases turn
  rw [destroyStep] at turn
  cases here : left[top.index]?.join with
  | none =>
    rw [here] at turn
    cases turn
    exact h
  | some node =>
    rw [here] at turn
    cases turn
    refine ⟨by simpa using h.size, fun {index other} entry => ?_⟩
    rw [Array.getElem?_setIfInBounds] at entry
    split at entry
    · split at entry <;> simp at entry
    · exact h.kept entry

theorem done {a : Array (Option Node) × List NodeId × Nat} {answer : Array (Option Node) × Nat}
    (h : Fewer nodes a.1) (turn : destroyStep a = .done answer) : Fewer nodes answer.1 := by
  obtain ⟨left, _ | ⟨top, stack⟩, count⟩ := a
  · cases turn
    exact h
  · rw [destroyStep] at turn
    split at turn <;> cases turn

theorem isLater (h : Fewer scene.nodes left) (live : Nat) :
    scene.Later { scene with nodes := left, live } where
  tag := rfl
  size := Nat.le_of_eq h.size.symm
  node := by
    intro id node found _
    obtain ⟨tag, entry⟩ := node?_eq_some_iff.mp found
    exact ⟨node, node?_eq_some_iff.mpr ⟨tag, h.kept entry⟩, rfl, rfl⟩

end Fewer

end Scene

namespace Edit
open Scene

theorem keeps_check {α : Type} (checked : Except SceneError α) : Keeps Later (check checked) := by
  cases checked with
  | ok value => exact .pure value
  | error error => exact .throw error

theorem keeps_modifyNode {change : Node → Node} (id : NodeId)
    (same : ∀ node, (change node).id = node.id ∧ (change node).operator = node.operator) :
    Keeps Later (modifyNode id change) := by
  intro scene
  cases found : scene.node? id with
  | none =>
    have stops : (modifyNode id change).run scene = .error (.notFound id) scene := by
      simp [modifyNode, Scene.node, found]
    rw [stops]
    exact Later.refl scene
  | some node =>
    rw [run_modifyNode found]
    exact Later.update scene id same

theorem keeps_writeSlot (id : NodeId) (slot : Nat) (value : Slot) :
    Keeps Later (writeSlot id slot value) := by
  intro scene
  cases found : scene.node? id with
  | none =>
    have stops : (writeSlot id slot value).run scene = .error (.notFound id) scene := by
      simp [writeSlot, Scene.node, found]
    rw [stops]
    exact Later.refl scene
  | some node =>
    by_cases lt : slot < node.inputs.length
    · rw [run_writeSlot value found lt]
      exact Later.update scene id fun _ => ⟨rfl, rfl⟩
    · have stops : (writeSlot id slot value).run scene = .error .inconsistent scene := by
        simp [writeSlot, node_eq_ok_iff.mpr found, lt]
      rw [stops]
      exact Later.refl scene

theorem keeps_destroy (top : NodeId) : Keeps Later (destroy top) := by
  intro scene
  cases run : Turn.run destroyStep (scene.slotCount + 2) (scene.nodes, [top], 0) with
  | none =>
    have stops : (destroy top).run scene = .error .inconsistent scene := by simp [destroy, run]
    rw [stops]
    exact Later.refl scene
  | some result =>
    obtain ⟨⟨nodes, destroyed⟩, turns⟩ := result
    have fewer : Fewer scene.nodes nodes :=
      Turn.answer_of_run (Fewer scene.nodes ·.1) (Fewer scene.nodes ·.1) Fewer.next Fewer.done
        (Fewer.refl _) run
    by_cases le : destroyed ≤ scene.live
    · have ends : (destroy top).run scene =
          .ok () { scene with nodes, live := scene.live - destroyed } := by
        simp [destroy, run, le]
      rw [ends]
      exact fewer.isLater _
    · have stops : (destroy top).run scene = .error .inconsistent scene := by
        simp [destroy, run, le]
      rw [stops]
      exact Later.refl scene

theorem keeps_allocate (make : NodeId → Node) : Keeps Later (allocate make) := fun scene =>
  Later.push scene (make scene.nextId)

theorem keeps_discard (id : NodeId) (slot : Nat) : Keeps Later (discard id slot) := by
  refine .bind .get fun scene => .bind (keeps_check _) fun node =>
    .bind (keeps_writeSlot _ _ _) fun _ => ?_
  split
  · exact keeps_destroy _
  · exact .pure _

theorem keeps_attach (name : String) (operator : Operator) (parent : NodeId) (slot : Nat) :
    Keeps Later (attach name operator parent slot) := by
  refine .bind .get fun scene => .bind (keeps_check _) fun _ => .bind (keeps_check _) fun _ =>
    .bind (keeps_check _) fun _ => .bind (keeps_discard _ _) fun _ =>
      .bind (keeps_allocate _) fun id => .bind (keeps_writeSlot _ _ _) fun _ => .pure _

theorem keeps_move (id target : NodeId) (slot : Nat) : Keeps Later (move id target slot) := by
  refine .bind .get fun scene => .bind (keeps_check _) fun node => ?_
  dsimp only
  split
  · exact .throw_bind _ _
  refine .bind (keeps_check _) fun _ => ?_
  split
  · exact .pure _
  split
  · exact .throw_bind _ _
  refine .bind (keeps_check _) fun _ => ?_
  have hang : Keeps Later (do
      discard target slot
      writeSlot target slot (.child id)
      modifyNode id fun node => { node with parent := some target, slot }) :=
    .bind (keeps_discard _ _) fun _ => .bind (keeps_writeSlot _ _ _) fun _ =>
      keeps_modifyNode id fun _ => ⟨rfl, rfl⟩
  split
  · exact .bind (keeps_writeSlot _ _ _) fun _ => hang
  · exact hang

theorem keeps_delete (id : NodeId) : Keeps Later (delete id) := by
  refine .bind .get fun scene => .bind (keeps_check _) fun node => ?_
  dsimp only
  split
  · exact .throw_bind _ _
  split
  · exact .bind (keeps_writeSlot _ _ _) fun _ => keeps_destroy id
  · exact keeps_destroy id

theorem keeps_setLiteral (id : NodeId) (slot : Nat) (literal : Literal) :
    Keeps Later (setLiteral id slot literal) := by
  refine .bind .get fun scene => .bind (keeps_check _) fun _ => ?_
  dsimp only
  split
  · exact .throw_bind _ _
  · exact .bind (keeps_discard _ _) fun _ => keeps_writeSlot _ _ _

theorem keeps_clear (id : NodeId) (slot : Nat) : Keeps Later (clear id slot) := by
  refine .bind .get fun scene => .bind (keeps_check _) fun node => ?_
  split
  · exact keeps_discard _ _
  · exact .throw _

theorem keeps_rename (id : NodeId) (name : String) : Keeps Later (rename id name) := by
  refine .bind .get fun scene => .bind (keeps_check _) fun _ => .bind (keeps_check _) fun node => ?_
  split
  · exact .bind (keeps_check _) fun _ => keeps_modifyNode id fun _ => ⟨rfl, rfl⟩
  · exact keeps_modifyNode id fun _ => ⟨rfl, rfl⟩

end Edit

end DistanceField
