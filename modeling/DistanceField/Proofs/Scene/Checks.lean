import DistanceField.Proofs.Scene.Growth
import DistanceField.Proofs.Scene.Outcome

/-!
# The checks before the first write

Each check is passed exactly when what it is there for holds. Those that look at single nodes and
inputs say nothing about cycles, and none of them ever finds the scene inconsistent.
-/

namespace DistanceField

/-- An error of a check that looks at single nodes and inputs. -/
def SceneError.Local : SceneError → Prop
  | cycleDetected .. | inconsistent => False
  | _ => True

namespace Scene

variable {scene : Scene} {loose : List NodeId} {id parent : NodeId} {slot : Nat} {name : String}
  {type : ValueType} {ignore : Option NodeId} {node : Node} {inputs : List Slot}
  {error : SceneError}

/-- No child in another input of `parent`, `ignore` left out, bears the name. -/
def Unused (scene : Scene) (parent : NodeId) (slot : Nat) (name : String) (ignore : Option NodeId) :
    Prop :=
  ∀ {place child}, scene.Holds parent place child → place ≠ slot → some child ≠ ignore →
    scene.name? child ≠ some name

theorem checkName_eq_ok_iff : checkName name = .ok () ↔ validName name := by
  by_cases h : validName name <;> simp [checkName, h]

theorem local_of_checkName (failed : checkName name = .error error) : error.Local := by
  rw [checkName] at failed
  split at failed <;> cases failed
  trivial

theorem checkSlot_eq (scene : Scene) (parent : NodeId) (slot : Nat) (type : ValueType) :
    scene.checkSlot parent slot type = match scene.node? parent with
      | none => .error (.notFound parent)
      | some node => match node.operator.inputs[slot]? with
        | none => .error (.slotOutOfRange slot node.operator.arity)
        | some expected =>
          if expected = type then .ok () else .error (.typeMismatch expected type) := by
  cases found : scene.node? parent with
  | none => simp [checkSlot, node, found, bind, Except.bind]
  | some node =>
    cases entry : node.operator.inputs[slot]? with
    | none =>
      simp [checkSlot, node_eq_ok_iff.mpr found, entry, bind, Except.bind, throw, throwThe,
        MonadExceptOf.throw]
    | some expected =>
      by_cases same : expected = type <;>
        simp [checkSlot, node_eq_ok_iff.mpr found, entry, same, bind, Except.bind, pure, Except.pure,
          throw, throwThe, MonadExceptOf.throw]

theorem checkSlot_eq_ok_iff : scene.checkSlot parent slot type = .ok () ↔
    ∃ node, scene.node? parent = some node ∧ node.operator.inputs[slot]? = some type := by
  rw [checkSlot_eq]
  cases scene.node? parent with
  | none => simp
  | some node =>
    cases entry : node.operator.inputs[slot]? with
    | none => simp [entry]
    | some expected => by_cases same : expected = type <;> simp [entry, same]

theorem local_of_checkSlot (failed : scene.checkSlot parent slot type = .error error) :
    error.Local := by
  rw [checkSlot_eq] at failed
  split at failed
  · cases failed
    trivial
  · split at failed
    · cases failed
      trivial
    · split at failed <;> cases failed
      trivial

theorem checkSiblings_child (index : Nat) (child : NodeId) :
    scene.checkSiblings slot name ignore index (.child child :: inputs) =
      if index ≠ slot ∧ some child ≠ ignore then
        match scene.node? child with
        | none => .error (.notFound child)
        | some sibling =>
          if sibling.name = name then .error (.duplicateName name)
          else scene.checkSiblings slot name ignore (index + 1) inputs
      else scene.checkSiblings slot name ignore (index + 1) inputs := by
  by_cases counts : index ≠ slot ∧ some child ≠ ignore
  · cases found : scene.node? child with
    | none => simp [checkSiblings, counts, node, found, bind, Except.bind]
    | some sibling =>
      by_cases same : sibling.name = name <;>
        simp [checkSiblings, counts, node_eq_ok_iff.mpr found, same, bind, Except.bind, throw,
          throwThe, MonadExceptOf.throw]
  · simp only [checkSiblings, counts, if_false]

theorem checkSiblings_eq_ok_iff (index : Nat)
    (live : ∀ child, Slot.child child ∈ inputs → scene.Live child) :
    scene.checkSiblings slot name ignore index inputs = .ok () ↔
      ∀ (place : Nat) child, inputs[place]? = some (.child child) → index + place ≠ slot →
        some child ≠ ignore → scene.name? child ≠ some name := by
  induction inputs generalizing index with
  | nil => simp [checkSiblings]
  | cons value inputs ih =>
    have rest := ih (index + 1) fun child mem => live child (List.mem_cons_of_mem _ mem)
    have parts : (∀ (place : Nat) child, (value :: inputs)[place]? = some (.child child) →
        index + place ≠ slot → some child ≠ ignore → scene.name? child ≠ some name) ↔
        (∀ child, value = .child child → index ≠ slot → some child ≠ ignore →
          scene.name? child ≠ some name) ∧
        scene.checkSiblings slot name ignore (index + 1) inputs = .ok () := by
      rw [rest]
      constructor
      · intro h
        refine ⟨fun child eq => h 0 child (by simp [eq]), fun place child entry ne => ?_⟩
        exact h (place + 1) child (by simpa using entry) (by omega)
      · rintro ⟨first, later⟩ (_ | place) child entry ne
        · exact first child (by simpa using entry) ne
        · exact later place child (by simpa using entry) (by omega)
    rw [parts]
    cases value with
    | empty => simp [checkSiblings]
    | literal value => simp [checkSiblings]
    | child child =>
      obtain ⟨sibling, found⟩ := live child List.mem_cons_self
      rw [checkSiblings_child]
      by_cases counts : index ≠ slot ∧ some child ≠ ignore
      · by_cases same : sibling.name = name <;> simp [counts, found, same, name?]
      · simp only [counts, if_false, Slot.child.injEq, forall_eq', iff_and_self]
        exact fun _ ne ne' => absurd ⟨ne, ne'⟩ counts

theorem local_of_checkSiblings {index : Nat}
    (failed : scene.checkSiblings slot name ignore index inputs = .error error) : error.Local := by
  induction inputs generalizing index with
  | nil => cases failed
  | cons value inputs ih =>
    cases value with
    | empty => exact ih failed
    | literal value => exact ih failed
    | child child =>
      rw [checkSiblings_child] at failed
      split at failed
      · split at failed
        · cases failed
          trivial
        · split at failed
          · cases failed
            trivial
          · exact ih failed
      · exact ih failed

theorem checkSiblingName_eq (found : scene.node? parent = some node) :
    scene.checkSiblingName parent slot name ignore =
      scene.checkSiblings slot name ignore 0 node.inputs := by
  simp [checkSiblingName, node_eq_ok_iff.mpr found, bind, Except.bind]

theorem Forest.checkSiblingName_eq_ok_iff (h : scene.Forest loose) (live : scene.Live parent) :
    scene.checkSiblingName parent slot name ignore = .ok () ↔
      scene.Unused parent slot name ignore := by
  obtain ⟨node, found⟩ := live
  have children : ∀ child, Slot.child child ∈ node.inputs → scene.Live child := by
    intro child mem
    obtain ⟨slot, entry⟩ := List.mem_iff_getElem?.mp mem
    exact h.live_of_holds ⟨node, found, entry⟩
  rw [checkSiblingName_eq found, checkSiblings_eq_ok_iff 0 children]
  simp [Unused, holds_iff found]

theorem local_of_checkSiblingName
    (failed : scene.checkSiblingName parent slot name ignore = .error error) : error.Local := by
  cases found : scene.node? parent with
  | none =>
    simp only [checkSiblingName, node, found, bind, Except.bind] at failed
    cases failed
    trivial
  | some node =>
    rw [checkSiblingName_eq found] at failed
    exact local_of_checkSiblings failed

end Scene

end DistanceField
