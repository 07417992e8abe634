import DistanceField.Program.Compile
import DistanceField.Proofs.Scene.Enumeration
import DistanceField.Proofs.Scene.Removal

/-!
# Edits that commute

An edit that neither creates nor moves a node changes one node and destroys what hangs in one input,
if anything. Two such edits that go through in either order do not destroy what the other one needs,
so that their subtrees have nothing in common and both orders come to the same scene.
-/

namespace DistanceField

/-- What an edit writes into a node: the content of an input, or the name. -/
inductive Change where
  | fill (slot : Nat) (content : Slot)
  | rename (name : String)

namespace Change

def apply : Change → Node → Node
  | fill slot content, node => { node with inputs := node.inputs.set slot content }
  | rename name, node => { node with name }

/-- The two changes write into different inputs, or one into an input and one the name. -/
def Apart : Change → Change → Prop
  | fill slot _, fill place _ => slot ≠ place
  | rename _, rename _ => False
  | _, _ => True

theorem Apart.symm {first second : Change} (apart : first.Apart second) : second.Apart first := by
  cases first with
  | fill slot content =>
    cases second with
    | fill place other => exact Ne.symm apart
    | rename name => trivial
  | rename name =>
    cases second with
    | fill place other => trivial
    | rename other => exact apart

theorem Apart.getElem?_inputs {first : Change} {slot : Nat} {content : Slot}
    (apart : first.Apart (.fill slot content)) (node : Node) :
    (first.apply node).inputs[slot]? = node.inputs[slot]? := by
  cases first with
  | fill place other => exact List.getElem?_set_ne apart
  | rename name => rfl

theorem apply_comm {first second : Change} (apart : first.Apart second) (node : Node) :
    first.apply (second.apply node) = second.apply (first.apply node) := by
  cases first with
  | fill slot content =>
    cases second with
    | fill place other => simp only [apply, List.set_comm other content (Ne.symm apart)]
    | rename name => rfl
  | rename name =>
    cases second with
    | fill place other => rfl
    | rename other => exact apart.elim

@[simp] theorem parent_apply (change : Change) (node : Node) :
    (change.apply node).parent = node.parent := by
  cases change <;> rfl

@[simp] theorem slot_apply (change : Change) (node : Node) :
    (change.apply node).slot = node.slot := by
  cases change <;> rfl

end Change

namespace Command

/-- The command neither creates nor moves a node. -/
def InPlace : Command → Prop
  | attach .. | move .. => False
  | _ => True

theorem InPlace.allowed {command : Command} (inPlace : command.InPlace) : command.Allowed := by
  cases command with
  | attach => exact inPlace.elim
  | _ => trivial

def place? : Command → Option (NodeId × Nat)
  | setLiteral id slot _ | clear id slot => some (id, slot)
  | _ => none

def renamed? : Command → Option NodeId
  | rename id _ => some id
  | _ => none

/-- Two commands that leave all nodes where they are, do not both write to one input and do not both
rename one node. -/
structure Independent (first second : Command) : Prop where
  inPlace : first.InPlace
  inPlace' : second.InPlace
  place : ∀ place, first.place? = some place → second.place? ≠ some place
  renamed : ∀ id, first.renamed? = some id → second.renamed? ≠ some id

/-- The node that a command changes, and how. To delete a node is to empty the input in which it
hangs. -/
def change? (scene : Scene) : Command → Option (NodeId × Change)
  | delete id => do
    let node ← scene.node? id
    let parent ← node.parent
    return (parent, .fill node.slot .empty)
  | setLiteral id slot literal => some (id, .fill slot (.literal literal))
  | clear id slot => some (id, .fill slot .empty)
  | rename id name => some (id, .rename name)
  | _ => none

end Command

namespace Scene

variable {scene after : Scene} {id low : NodeId} {slot : Nat} {node : Node} {content : Slot}
  {change : Change} {gone : List NodeId} {command : Command} {branches : Branches} {value : Slot}

/-- The nodes that go when a change is made: all that hangs in the input that is filled. -/
inductive Destroys (scene : Scene) (id : NodeId) : Change → List NodeId → Prop
  | fill {node : Node} {slot : Nat} {value content : Slot} {branches : Branches}
    (found : scene.node? id = some node) (entry : node.inputs[slot]? = some value)
    (unfolds : scene.Unfolds [value] branches) :
    Destroys scene id (.fill slot content) branches.ids
  | rename {name : String} : Destroys scene id (.rename name) []

namespace Destroys

theorem unique {more : List NodeId} (h : scene.Destroys id change gone)
    (h' : scene.Destroys id change more) : gone = more := by
  cases h with
  | fill found entry unfolds =>
    cases h' with
    | fill found' entry' unfolds' =>
      obtain rfl := Option.some.inj (found.symm.trans found')
      obtain rfl := Option.some.inj (entry.symm.trans entry')
      rw [unfolds.unique unfolds']
  | rename => cases h'; rfl

theorem tag (h : scene.Destroys id change gone) : ∀ low ∈ gone, low.tag = scene.tag := by
  cases h with
  | fill found entry unfolds => exact fun low mem => unfolds.tag_of_mem mem
  | rename => simp

theorem mem_fill_iff (h : scene.Destroys id (.fill slot content) gone) :
    low ∈ gone ↔ scene.Under id slot low := by
  cases h with
  | fill found entry unfolds => exact unfolds.mem_ids_iff_under found entry

end Destroys

def changed (scene : Scene) (id : NodeId) (change : Change) (gone : List NodeId) : Scene :=
  (scene.update id change.apply).without gone

theorem node?_changed (tags : ∀ low ∈ gone, low.tag = scene.tag) (low : NodeId) :
    (scene.changed id change gone).node? low =
      if low ∈ gone then none
      else if low = id then (scene.node? id).map change.apply else scene.node? low := by
  rw [changed, node?_without (by simpa using tags), node?_update]

theorem Forest.put_cleared (h : scene.Forest []) (found : scene.node? id = some node)
    (entry : node.inputs[slot]? = some value) (unfolds : scene.Unfolds [value] branches)
    (content : Slot) : (scene.cleared id slot branches).put id slot content =
      scene.changed id (.fill slot content) branches.ids := by
  have tags : ∀ low ∈ branches.ids, low.tag = (scene.put id slot .empty).tag := by
    simpa using fun low mem => unfolds.tag_of_mem mem
  rw [cleared, put, update_without (h.notMem_ids found entry unfolds) tags, put, update_update]
  simp only [List.set_set]
  rfl

/-- A command that goes through makes its change, and what hung in the input is gone. -/
theorem Forest.exists_changed (h : scene.Forest []) (inPlace : command.InPlace)
    (run : command.edit.run scene = .ok () after) : ∃ id change gone,
      command.change? scene = some (id, change) ∧ scene.Live id ∧
        scene.Destroys id change gone ∧ after = scene.changed id change gone := by
  -- what was computed to be the outcome is the outcome
  have same : ∀ {result : Scene}, command.edit.run scene = .ok () result → after = result := by
    intro result run'
    rw [run] at run'
    cases run'
    rfl
  have goes : ¬ Refused scene command.edit := by
    rintro ⟨error, -, failed⟩
    rw [run] at failed
    cases failed
  cases command with
  | attach => exact inPlace.elim
  | move => exact inPlace.elim
  | delete id =>
    obtain ⟨⟨node, found⟩, notRoot⟩ := h.delete_cases.resolve_left goes
    obtain ⟨parent, above, up, foundAbove, entry⟩ := h.exists_above found notRoot
    obtain ⟨branches, unfolds⟩ := h.exists_unfolds_slot foundAbove entry
    exact ⟨parent, .fill node.slot .empty, branches.ids, by simp [Command.change?, found, up],
      ⟨above, foundAbove⟩, .fill foundAbove entry unfolds,
      same (h.run_delete found notRoot up foundAbove entry unfolds)⟩
  | setLiteral id slot literal =>
    obtain ⟨⟨node, found, takes⟩, finite⟩ := setLiteral_cases.resolve_left goes
    obtain ⟨value, branches, entry, unfolds⟩ := h.exists_site found takes
    refine ⟨id, .fill slot (.literal literal), branches.ids, rfl, ⟨node, found⟩,
      .fill found entry unfolds, ?_⟩
    rw [← h.put_cleared found entry unfolds]
    exact same (h.run_setLiteral found takes finite entry unfolds)
  | clear id slot =>
    obtain ⟨node, found, lt⟩ := clear_cases.resolve_left goes
    have entry := List.getElem?_eq_getElem lt
    obtain ⟨branches, unfolds⟩ := h.exists_unfolds_slot found entry
    exact ⟨id, .fill slot .empty, branches.ids, rfl, ⟨node, found⟩, .fill found entry unfolds,
      same (h.run_clear found entry unfolds)⟩
  | rename id name =>
    obtain ⟨valid, node, found, unused⟩ := rename_cases.resolve_left goes
    exact ⟨id, .rename name, [], rfl, ⟨node, found⟩, .rename, same (run_rename valid found unused)⟩

section Pairs

variable {a b : NodeId} {first second : Change} {goneFirst goneSecond : List NodeId}

/-- Two changes that do not get in each other's way: they write to different places, and neither
destroys the node that the other one changes. -/
structure Compatible (scene : Scene) (a : NodeId) (first : Change) (goneFirst : List NodeId)
    (b : NodeId) (second : Change) (goneSecond : List NodeId) : Prop where
  destroys : scene.Destroys a first goneFirst
  destroys' : scene.Destroys b second goneSecond
  apart : a = b → first.Apart second
  left : a ∉ goneSecond
  left' : b ∉ goneFirst

theorem Compatible.symm (h : scene.Compatible a first goneFirst b second goneSecond) :
    scene.Compatible b second goneSecond a first goneFirst where
  destroys := h.destroys'
  destroys' := h.destroys
  apart same := (h.apart same.symm).symm
  left := h.left'
  left' := h.left

/-- Nothing hangs in two inputs none of which is destroyed together with the other. -/
theorem Forest.not_under_both (h : scene.Forest []) {slot place : Nat}
    (apart : ¬ (a = b ∧ slot = place)) (left : ¬ scene.Under b place a)
    (left' : ¬ scene.Under a slot b) (under : scene.Under a slot low) :
    ¬ scene.Under b place low := by
  -- of two subtrees with a common node one holds the other, and then the node above it
  have inside : ∀ {a b child other : NodeId} {slot place : Nat}, ¬ (a = b ∧ slot = place) →
      scene.Holds a slot child → scene.Holds b place other → ¬ scene.Under a slot b →
        ¬ scene.Reaches child other := by
    intro a b child other slot place apart held held' left path
    rcases Relation.ReflTransGen.cases_tail path with rfl | ⟨last, up, edge⟩
    · exact apart (h.holder_unique held held')
    · obtain rfl := h.parent_unique edge held'.parentOf
      exact left ⟨child, held, up⟩
  obtain ⟨child, held, path⟩ := under
  rintro ⟨other, held', path'⟩
  rcases h.reaches_total path path' with up | up
  · exact inside apart held held' left' up
  · exact inside (fun same => apart ⟨same.1.symm, same.2.symm⟩) held' held left up

/-- What the second change destroys is not what the first one does. -/
theorem Compatible.disjoint (compatible : scene.Compatible a first goneFirst b second goneSecond)
    (h : scene.Forest []) (mem : low ∈ goneSecond) : low ∉ goneFirst := by
  obtain ⟨destroys, destroys', apart, left, left'⟩ := compatible
  cases first with
  | rename => cases destroys; simp
  | fill slot content =>
    cases second with
    | rename => cases destroys'; simp at mem
    | fill place other =>
      rw [destroys'.mem_fill_iff] at mem left
      rw [destroys.mem_fill_iff] at left' ⊢
      exact fun under => h.not_under_both (fun same => apart same.1 same.2) left left' under mem

theorem Compatible.destroys_changed
    (compatible : scene.Compatible a first goneFirst b second goneSecond) (h : scene.Forest []) :
    (scene.changed a first goneFirst).Destroys b second goneSecond := by
  have look (low : NodeId) : (scene.changed a first goneFirst).node? low =
      if low ∈ goneFirst then none
      else if low = a then (scene.node? a).map first.apply else scene.node? low :=
    node?_changed compatible.destroys.tag low
  cases second with
  | rename =>
    cases compatible.destroys'
    exact .rename
  | fill place other =>
    have below : ∀ low ∈ goneSecond,
        (scene.changed a first goneFirst).node? low = scene.node? low := by
      intro low mem
      have ne : low ≠ a := fun eq => compatible.left (eq ▸ mem)
      rw [look, if_neg (compatible.disjoint h mem), if_neg ne]
    have owner := look b
    rw [if_neg compatible.left'] at owner
    have apart := compatible.apart
    cases compatible.destroys' with
    | fill found entry unfolds =>
      by_cases same : b = a
      · subst same
        rw [if_pos rfl, found, Option.map_some] at owner
        exact .fill owner (by rwa [(apart rfl).getElem?_inputs]) (unfolds.congr below)
      · rw [if_neg same, found] at owner
        exact .fill owner entry (unfolds.congr below)

theorem changed_changed (tags : ∀ low ∈ goneFirst, low.tag = scene.tag) (left : b ∉ goneFirst) :
    (scene.changed a first goneFirst).changed b second goneSecond =
      ((scene.update a first.apply).update b second.apply).without (goneFirst ++ goneSecond) := by
  rw [changed, changed, update_without left (by simpa using tags), without_append]

theorem Compatible.changed_comm
    (compatible : scene.Compatible a first goneFirst b second goneSecond) :
    (scene.changed a first goneFirst).changed b second goneSecond =
      (scene.changed b second goneSecond).changed a first goneFirst := by
  have tags := compatible.destroys.tag
  have tags' := compatible.destroys'.tag
  have swap : (scene.update a first.apply).update b second.apply =
      (scene.update b second.apply).update a first.apply := by
    by_cases same : a = b
    · subst same
      rw [update_update, update_update]
      exact congrArg _ (funext fun node => (Change.apply_comm (compatible.apart rfl) node).symm)
    · exact update_comm scene same _ _
  rw [changed_changed tags compatible.left', changed_changed tags' compatible.left, swap]
  apply without_perm List.perm_append_comm
  intro low mem
  rw [tag_update, tag_update]
  exact (List.mem_append.mp mem).elim (tags' low) (tags low)

end Pairs

variable {a b : NodeId} {change' : Change} {gone' : List NodeId} {first second : Command}

/-- What a command is to change does not depend on changes made before. -/
theorem change?_of_changed (tags : ∀ low ∈ gone, low.tag = scene.tag)
    (aims : command.change? (scene.changed a change gone) = some (b, change')) :
    command.change? scene = some (b, change') := by
  cases command with
  | delete low =>
    simp only [Command.change?, node?_changed tags] at aims ⊢
    by_cases mem : low ∈ gone
    · simp [mem] at aims
    by_cases same : low = a
    · subst same
      cases found : scene.node? low with
      | none => simp [mem, found] at aims
      | some node => simpa [mem, found] using aims
    · simpa [mem, same] using aims
  | _ => exact aims

theorem not_live_of_mem (tags : ∀ low ∈ gone, low.tag = scene.tag) (mem : low ∈ gone) :
    ¬ (scene.changed id change gone).Live low := by
  rintro ⟨node, found⟩
  rw [node?_changed tags, if_pos mem] at found
  cases found

/-- A command fills an input because it is told so, or because the node in it is to be deleted. -/
theorem Forest.place_or_delete (h : scene.Forest [])
    (aims : command.change? scene = some (id, .fill slot content)) :
    command.place? = some (id, slot) ∨
      ∃ low, command = .delete low ∧ scene.Holds id slot low := by
  cases command with
  | attach => cases aims
  | move => cases aims
  | rename => simp [Command.change?] at aims
  | setLiteral => left; simp_all [Command.change?, Command.place?]
  | clear => left; simp_all [Command.change?, Command.place?]
  | delete low =>
    right
    obtain ⟨node, found, links⟩ := Option.bind_eq_some_iff.mp aims
    obtain ⟨parent, up, eq⟩ := Option.bind_eq_some_iff.mp links
    obtain ⟨rfl, rfl, -⟩ : parent = id ∧ node.slot = slot ∧ Slot.empty = content := by
      simpa using eq
    exact ⟨low, rfl, (h.holds_self_iff found).mpr ⟨up, rfl⟩⟩

/-- A node that was destroyed cannot be deleted. -/
theorem Destroys.not_delete
    (destroys : scene.Destroys id (.fill slot content) gone) (held : scene.Holds id slot low)
    (aims : (Command.delete low).change? (scene.changed id (.fill slot content) gone) =
      some (b, change')) : False := by
  obtain ⟨node, found, -⟩ := Option.bind_eq_some_iff.mp aims
  exact not_live_of_mem destroys.tag (destroys.mem_fill_iff.mpr ⟨low, held, .refl⟩) ⟨node, found⟩

/-- Independent commands that can follow each other do not write to one place. -/
theorem Forest.apart_of_independent (h : scene.Forest []) (independent : first.Independent second)
    (aims : first.change? scene = some (id, change))
    (aims' : second.change? scene = some (id, change')) (destroys : scene.Destroys id change gone)
    (destroys' : scene.Destroys id change' gone')
    (onward : ∃ target, second.change? (scene.changed id change gone) = some target)
    (onward' : ∃ target, first.change? (scene.changed id change' gone') = some target) :
    change.Apart change' := by
  obtain ⟨⟨b, next⟩, onward⟩ := onward
  obtain ⟨⟨a, next'⟩, onward'⟩ := onward'
  cases change with
  | rename name =>
    cases change' with
    | fill => trivial
    | rename name' =>
      have renamed : ∀ {command : Command} {name : String},
          command.change? scene = some (id, .rename name) → command.renamed? = some id := by
        intro command name aims
        cases command with
        | delete => simp [Command.change?, Option.bind_eq_some_iff] at aims
        | rename => simp_all [Command.change?, Command.renamed?]
        | _ => simp [Command.change?] at aims
      exact independent.renamed id (renamed aims) (renamed aims')
  | fill slot content =>
    cases change' with
    | rename => trivial
    | fill place content' =>
      rintro rfl
      rcases h.place_or_delete aims with first | ⟨low, rfl, held⟩
      · rcases h.place_or_delete aims' with second | ⟨low, rfl, held⟩
        · exact independent.place _ first second
        · exact destroys.not_delete held onward
      · exact destroys'.not_delete held onward'

theorem Forest.of_run (h : scene.Forest []) (inPlace : command.InPlace)
    (run : command.edit.run scene = .ok () after) : after.Forest [] := by
  have forest := h.after inPlace.allowed
  rwa [Command.after, run] at forest

/-- Of two edits that go through in either order it does not matter which is made first, unless both
write to one input or both rename one node. -/
theorem commute_of_independent (reachable : Reachable scene)
    (independent : first.Independent second) {afterFirst afterSecond forth back : Scene}
    (runFirst : first.edit.run scene = .ok () afterFirst)
    (runForth : second.edit.run afterFirst = .ok () forth)
    (runSecond : second.edit.run scene = .ok () afterSecond)
    (runBack : first.edit.run afterSecond = .ok () back) :
    forth = back ∧ forth.mapSource = back.mapSource := by
  have h := reachable.forest
  have forest := h.of_run independent.inPlace runFirst
  have forest' := h.of_run independent.inPlace' runSecond
  obtain ⟨a, change, gone, aims, -, destroys, rfl⟩ := h.exists_changed independent.inPlace runFirst
  obtain ⟨b, change', gone', aims', -, destroys', rfl⟩ :=
    h.exists_changed independent.inPlace' runSecond
  obtain ⟨b', onward', more', aimsForth, live', makes', rfl⟩ :=
    forest.exists_changed independent.inPlace' runForth
  obtain ⟨a', onward, more, aimsBack, live, makes, rfl⟩ :=
    forest'.exists_changed independent.inPlace runBack
  -- behind the other one each command still aims at the same node and place
  cases aims'.symm.trans (change?_of_changed destroys.tag aimsForth)
  cases aims.symm.trans (change?_of_changed destroys'.tag aimsBack)
  have compatible : scene.Compatible a change gone b change' gone' :=
    { destroys := destroys
      destroys' := destroys'
      apart := by
        rintro rfl
        exact h.apart_of_independent independent aims aims' destroys destroys' ⟨_, aimsForth⟩
          ⟨_, aimsBack⟩
      left := fun mem => not_live_of_mem destroys'.tag mem live
      left' := fun mem => not_live_of_mem destroys.tag mem live' }
  obtain rfl := makes'.unique (compatible.destroys_changed h)
  obtain rfl := makes.unique (compatible.symm.destroys_changed h)
  have same := compatible.changed_comm
  exact ⟨same, congrArg mapSource same⟩

theorem commute_twoBalls : Reachable twoBalls ∧
    Command.Independent (.clear ⟨7, 1⟩ 0) (.rename ⟨7, 2⟩ "moon") ∧
      ∃ cleared renamed forth back, (Edit.clear ⟨7, 1⟩ 0).run twoBalls = .ok () cleared ∧
        (Edit.rename ⟨7, 2⟩ "moon").run cleared = .ok () forth ∧
          (Edit.rename ⟨7, 2⟩ "moon").run twoBalls = .ok () renamed ∧
            (Edit.clear ⟨7, 1⟩ 0).run renamed = .ok () back ∧ forth = back ∧
              twoBalls.size = 5 ∧ forth.size = 3 := by
  have independent : Command.Independent (.clear ⟨7, 1⟩ 0) (.rename ⟨7, 2⟩ "moon") :=
    ⟨trivial, trivial, by simp [Command.place?], by simp [Command.renamed?]⟩
  have clears : (Edit.clear ⟨7, 1⟩ 0).run twoBalls =
      .ok () (Command.after (.clear ⟨7, 1⟩ 0) twoBalls) := rfl
  have renames : (Edit.rename ⟨7, 2⟩ "moon").run twoBalls =
      .ok () (Command.after (.rename ⟨7, 2⟩ "moon") twoBalls) := rfl
  obtain ⟨same, -⟩ := commute_of_independent reachable_twoBalls independent clears rfl renames rfl
  exact ⟨reachable_twoBalls, independent, _, _, _, _, clears, rfl, renames, rfl, same,
    by decide +kernel, by decide +kernel⟩

end Scene

end DistanceField
