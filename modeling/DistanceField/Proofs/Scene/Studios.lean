import DistanceField.Proofs.Scene.Setups
import DistanceField.Scene.Studio

/-!
# Several scenes at once

Scenes are created, copied and edited in any order. Each of them becomes what its own edits make of
it, as if the others were not there, and what one scene gives out names nothing in another, unless
both go back to one creation.
-/

namespace DistanceField

namespace Studio

inductive Event where
  | create
  | createDefault (registry : Registry)
  | copy (number : Nat)
  | edit (number : Nat) (command : Command)

namespace Event

def Allowed : Event → Prop
  | createDefault registry => registry.Reached
  | edit _ command => command.Allowed
  | _ => True

/-- The command for a scene, if the event is an edit of it. -/
def command? (number : Nat) : Event → Option Command
  | edit target command => if target = number then some command else none
  | _ => none

end Event

/-- The studio after an event. An edit of a scene that does not exist changes nothing. -/
def after (studio : Studio) : Event → Studio
  | .create => studio.create
  | .createDefault registry => (studio.createDefault registry).2
  | .copy number => studio.copy number
  | .edit number command =>
    match studio.edit number command.edit with
    | some (_, studio) => studio
    | none => studio

def afterAll (studio : Studio) (events : List Event) : Studio := events.foldl after studio

variable {studio : Studio} {number : Nat} {scene : Scene} {event : Event} {events : List Event}
  {command : Command}

theorem after_edit (found : studio.scenes[number]? = some scene) :
    studio.after (.edit number command) =
      { studio with scenes := studio.scenes.setIfInBounds number (command.after scene) } := by
  simp only [after, edit, found, Command.after]
  cases run : command.edit.run scene <;> simp [run]

theorem after_edit_of_none (missing : studio.scenes[number]? = none) :
    studio.after (.edit number command) = studio := by
  simp [after, edit, missing]

theorem scene_after (found : studio.scenes[number]? = some scene) (event : Event) :
    (studio.after event).scenes[number]? =
      some (scene.afterAll (event.command? number).toList) := by
  obtain ⟨lt, rfl⟩ := Array.getElem?_eq_some_iff.mp found
  cases event with
  | create => simp [after, create, Event.command?, Array.getElem?_push_lt lt]
  | createDefault registry =>
    simp only [after, createDefault]
    split <;> simp [Event.command?, Array.getElem?_push_lt lt, found]
  | copy original =>
    simp only [after, copy]
    split <;> simp [Event.command?, Array.getElem?_push_lt lt, found]
  | edit target command =>
    by_cases here : target = number
    · subst here
      rw [after_edit found]
      simp [Event.command?, lt]
    · cases other : studio.scenes[target]? with
      | none => rw [after_edit_of_none other]; simp [Event.command?, here, found]
      | some scene => rw [after_edit other]; simp [Event.command?, here, found]

/-- After any events a scene is what its own commands have made of it. -/
theorem scene_afterAll (found : studio.scenes[number]? = some scene) (events : List Event) :
    (studio.afterAll events).scenes[number]? =
      some (scene.afterAll (events.filterMap (Event.command? number))) := by
  induction events generalizing studio scene with
  | nil => exact found
  | cons event events ih =>
    rw [afterAll, List.foldl_cons, ← afterAll, ih (scene_after found event)]
    cases onScene : event.command? number <;> simp [onScene]

end Studio

namespace Scene

/-- A scene gives out an identifier: that of its root, of a node, of the parent or of a child of a
node, or the one that a command returns. -/
inductive Gives (scene : Scene) : NodeId → Prop
  | root : scene.Gives scene.root
  | node {id : NodeId} {node : Node} (found : scene.node? id = some node) : scene.Gives node.id
  | parent {id up : NodeId} {node : Node} (found : scene.node? id = some node)
    (link : node.parent = some up) : scene.Gives up
  | child {parent child : NodeId} {slot : Nat} (held : scene.Holds parent slot child) :
    scene.Gives child
  | returned {command : Command} {id : NodeId} (returned : command.returned? scene = some id) :
    scene.Gives id

variable {scene : Scene} {id : NodeId}

theorem Live.tag (live : scene.Live id) : id.tag = scene.tag := by
  obtain ⟨node, found⟩ := live
  exact (node?_eq_some_iff.mp found).1

theorem Forest.tag_of_gives (h : scene.Forest []) (given : scene.Gives id) :
    id.tag = scene.tag := by
  cases given with
  | root => rfl
  | @node id node found => exact (h.fits found).id_eq ▸ Live.tag ⟨node, found⟩
  | @parent id up node found link =>
    have notRoot : id ≠ scene.root := by
      rintro rfl
      rw [(h.fits found).parent_iff.mpr rfl] at link
      cases link
    obtain ⟨_, above, here, foundAbove, -⟩ := h.exists_above found notRoot
    obtain rfl := Option.some.inj (here.symm.trans link)
    exact Live.tag ⟨_, foundAbove⟩
  | child held => exact (h.live_of_holds held).tag
  | returned returned => exact (h.returned?_index returned).1 ▸ rfl

end Scene

/-- A studio, how many new scenes were begun in it, and for each scene the number of the creation
that it goes back to. -/
structure Chronicle where
  studio : Studio
  creations : Nat
  origins : Array Nat

namespace Chronicle
open Studio (Event)

def empty : Chronicle := ⟨.empty, 0, #[]⟩

/-- A new scene is an origin, a copy shares the origin of the original. A default scene that cannot
be built was begun nevertheless. -/
def after (chronicle : Chronicle) (event : Event) : Chronicle where
  studio := chronicle.studio.after event
  creations :=
    match event with
    | .create | .createDefault _ => chronicle.creations + 1
    | .copy _ | .edit .. => chronicle.creations
  origins :=
    match event with
    | .create => chronicle.origins.push chronicle.creations
    | .createDefault registry =>
      match (chronicle.studio.createDefault registry).1 with
      | .ok () => chronicle.origins.push chronicle.creations
      | .error _ => chronicle.origins
    | .copy number =>
      match chronicle.origins[number]? with
      | some origin => chronicle.origins.push origin
      | none => chronicle.origins
    | .edit .. => chronicle.origins

def afterAll (chronicle : Chronicle) (events : List Event) : Chronicle :=
  events.foldl after chronicle

variable {chronicle : Chronicle} {event : Event} {events : List Event} {number origin : Nat}
  {scene : Scene} {command : Command}

theorem studio_afterAll (chronicle : Chronicle) (events : List Event) :
    (chronicle.afterAll events).studio = chronicle.studio.afterAll events := by
  induction events generalizing chronicle with
  | nil => rfl
  | cons event events ih => exact ih (chronicle.after event)

/-- A scene has the tag of its origin, and commands lead to it. -/
structure Descends (scene : Scene) (origin : Nat) : Prop where
  tag : scene.tag = (UInt32.ofNat origin).toNat
  reachable : scene.Reachable

/-- What holds of every chronicle. -/
structure Sound (chronicle : Chronicle) : Prop where
  size : chronicle.origins.size = chronicle.studio.scenes.size
  nextTag : chronicle.studio.nextTag = UInt32.ofNat chronicle.creations
  lt : ∀ {number origin : Nat}, chronicle.origins[number]? = some origin →
    origin < chronicle.creations
  descends : ∀ {number origin : Nat} {scene}, chronicle.origins[number]? = some origin →
    chronicle.studio.scenes[number]? = some scene → Descends scene origin

theorem sound_empty : empty.Sound where
  size := rfl
  nextTag := rfl
  lt found := by simp [empty] at found
  descends found := by simp [empty] at found

theorem Descends.step (h : Descends scene origin) (allowed : command.Allowed) :
    Descends (command.after scene) origin :=
  ⟨(Scene.later_after command scene).tag.trans h.tag, h.reachable.step allowed⟩

/-- A scene joins the others, with an origin that is known or just begun. -/
theorem Sound.add (h : chronicle.Sound) {creations : Nat} {nextTag : UInt32}
    (le : chronicle.creations ≤ creations) (next : nextTag = UInt32.ofNat creations)
    (lt : origin < creations) (descends : Descends scene origin) :
    Sound ⟨⟨chronicle.studio.scenes.push scene, nextTag⟩, creations,
      chronicle.origins.push origin⟩ where
  size := by simp [h.size]
  nextTag := next
  lt := by
    intro number other known
    rw [Array.getElem?_push] at known
    split at known
    · cases known
      exact lt
    · exact Nat.lt_of_lt_of_le (h.lt known) le
  descends := by
    intro number other found known present
    rw [Array.getElem?_push] at known present
    rw [h.size] at known
    split at known
    · rename_i last
      rw [if_pos last] at present
      cases known
      cases present
      exact descends
    · rename_i old
      rw [if_neg old] at present
      exact h.descends known present

theorem Sound.skip (h : chronicle.Sound) :
    Sound { chronicle with
      studio.nextTag := chronicle.studio.nextTag + 1
      creations := chronicle.creations + 1 } where
  size := h.size
  nextTag := by simp [h.nextTag, UInt32.ofNat_add]
  lt known := Nat.lt_succ_of_lt (h.lt known)
  descends := h.descends

theorem Sound.edit (h : chronicle.Sound) (allowed : command.Allowed)
    (found : chronicle.studio.scenes[number]? = some scene) :
    Sound { chronicle with
      studio.scenes := chronicle.studio.scenes.setIfInBounds number (command.after scene) } where
  size := by simp [h.size]
  nextTag := h.nextTag
  lt := h.lt
  descends := by
    intro other origin stranger known present
    rw [Array.getElem?_setIfInBounds] at present
    split at present
    · rename_i here
      subst here
      split at present
      · cases present
        exact (h.descends known found).step allowed
      · cases present
    · exact h.descends known present

theorem Sound.after (h : chronicle.Sound) (allowed : event.Allowed) :
    (chronicle.after event).Sound := by
  -- only a creation uses up a tag; a copy bears the tag of its original
  have next : chronicle.studio.nextTag + 1 = UInt32.ofNat (chronicle.creations + 1) := by
    simp [h.nextTag, UInt32.ofNat_add]
  have begun {scene : Scene} (tag : scene.tag = chronicle.studio.nextTag.toNat)
      (reachable : scene.Reachable) : Descends scene chronicle.creations :=
    ⟨by rw [tag, h.nextTag], reachable⟩
  cases event with
  | create => exact h.add (Nat.le_succ _) next (Nat.lt_succ_self _) (begun rfl (.new _))
  | createDefault registry =>
    cases built : Scene.default registry chronicle.studio.nextTag.toNat with
    | ok scene =>
      simp only [Chronicle.after, Studio.after, Studio.createDefault, built]
      exact h.add (Nat.le_succ _) next (Nat.lt_succ_self _)
        (begun (Scene.tag_default allowed built) (Scene.reachable_default allowed built))
    | error error =>
      simp only [Chronicle.after, Studio.after, Studio.createDefault, built]
      exact h.skip
  | copy number =>
    cases known : chronicle.origins[number]? with
    | some origin =>
      obtain ⟨lt, -⟩ := Array.getElem?_eq_some_iff.mp known
      have found := Array.getElem?_eq_getElem (h.size ▸ lt)
      simp only [Chronicle.after, Studio.after, Studio.copy, known, found]
      exact h.add (Nat.le_refl _) h.nextTag (h.lt known) (h.descends known found)
    | none =>
      have missing : chronicle.studio.scenes[number]? = none := by
        rwa [Array.getElem?_eq_none_iff, ← h.size, ← Array.getElem?_eq_none_iff]
      simpa only [Chronicle.after, Studio.after, Studio.copy, known, missing] using h
  | edit number command =>
    cases found : chronicle.studio.scenes[number]? with
    | some scene =>
      simp only [Chronicle.after, Studio.after_edit found]
      exact h.edit allowed found
    | none => simpa only [Chronicle.after, Studio.after_edit_of_none found] using h

theorem Sound.afterAll (h : chronicle.Sound) (allowed : ∀ event ∈ events, event.Allowed) :
    (chronicle.afterAll events).Sound := by
  induction events generalizing chronicle with
  | nil => exact h
  | cons event events ih =>
    obtain ⟨first, onward⟩ := List.forall_mem_cons.mp allowed
    exact ih (h.after first) onward

theorem origin_after (known : chronicle.origins[number]? = some origin) (event : Event) :
    (chronicle.after event).origins[number]? = some origin := by
  have pushed (last : Nat) : (chronicle.origins.push last)[number]? = some origin := by
    obtain ⟨lt, rfl⟩ := Array.getElem?_eq_some_iff.mp known
    exact Array.getElem?_push_lt lt
  cases event with
  | create => exact pushed _
  | createDefault registry =>
    simp only [Chronicle.after]
    split
    · exact pushed _
    · exact known
  | copy original =>
    simp only [Chronicle.after]
    split
    · exact pushed _
    · exact known
  | edit number command => exact known

theorem origin_afterAll (known : chronicle.origins[number]? = some origin) (events : List Event) :
    (chronicle.afterAll events).origins[number]? = some origin := by
  induction events generalizing chronicle with
  | nil => exact known
  | cons event events ih => exact ih (origin_after known event)

/-- Different origins have different tags as long as the tags do not repeat. -/
theorem Sound.tag_ne (h : chronicle.Sound) (few : chronicle.creations ≤ UInt32.size)
    {other place : Nat} {stranger : Scene} (known : chronicle.origins[number]? = some origin)
    (known' : chronicle.origins[place]? = some other) (ne : origin ≠ other)
    (descends : Descends scene origin) (descends' : Descends stranger other) :
    scene.tag ≠ stranger.tag := by
  have lt := Nat.lt_of_lt_of_le (h.lt known) few
  have lt' := Nat.lt_of_lt_of_le (h.lt known') few
  rw [descends.tag, descends'.tag, UInt32.toNat_ofNat_of_lt' lt, UInt32.toNat_ofNat_of_lt' lt']
  exact ne

/-- What is promised of the scenes of a studio for a later time. -/
structure Separate (before later : List Event) : Prop where
  /-- What a scene has given out names nothing in a scene that goes back to another creation. -/
  unknown : ∀ {number other : Nat} {scene stranger : Scene} {id : NodeId},
    (empty.afterAll before).studio.scenes[number]? = some scene → scene.Gives id →
      (empty.afterAll (before ++ later)).studio.scenes[other]? = some stranger →
        (empty.afterAll (before ++ later)).origins[number]? ≠
          (empty.afterAll (before ++ later)).origins[other]? →
            stranger.Unknown id ∧ stranger.find stranger.root id = .error (.notFound id)
  /-- No scene is touched by what is done to the others, be they copies of it or not. -/
  alone : ∀ {number : Nat} {scene : Scene},
    (empty.afterAll before).studio.scenes[number]? = some scene →
      (empty.afterAll (before ++ later)).studio.scenes[number]? =
        some (scene.afterAll (later.filterMap (Event.command? number)))

theorem afterAll_append (chronicle : Chronicle) (before later : List Event) :
    chronicle.afterAll (before ++ later) = (chronicle.afterAll before).afterAll later :=
  List.foldl_append

theorem Sound.exists_origin (h : chronicle.Sound)
    (found : chronicle.studio.scenes[number]? = some scene) :
    ∃ origin, chronicle.origins[number]? = some origin ∧ Descends scene origin := by
  obtain ⟨lt, -⟩ := Array.getElem?_eq_some_iff.mp found
  have known := Array.getElem?_eq_getElem (h.size.symm ▸ lt)
  exact ⟨_, known, h.descends known found⟩

/-- Identifiers stay within the scenes that share an origin, and edits within the one scene they are
made of. -/
theorem separate_of_creations_le {before later : List Event}
    (allowed : ∀ event ∈ before ++ later, event.Allowed)
    (few : (empty.afterAll (before ++ later)).creations ≤ UInt32.size) : Separate before later := by
  have earlier := sound_empty.afterAll (List.forall_mem_append.mp allowed).1
  have final := sound_empty.afterAll allowed
  refine { unknown := ?_, alone := ?_ }
  · intro number other scene stranger id found given found' apart
    obtain ⟨origin, known, descends⟩ := earlier.exists_origin found
    obtain ⟨origin', known', descends'⟩ := final.exists_origin found'
    have kept : (empty.afterAll (before ++ later)).origins[number]? = some origin := by
      rw [afterAll_append]
      exact origin_afterAll known later
    have ne : origin ≠ origin' := by
      rintro rfl
      exact apart (kept.trans known'.symm)
    have forest := descends'.reachable.forest
    have tags := final.tag_ne few kept known' ne descends descends'
    have gone : ¬ stranger.Live id := fun live =>
      tags ((descends.reachable.forest.tag_of_gives given).symm.trans live.tag)
    have unknown := forest.unknown gone
    exact ⟨unknown, unknown.find forest.root_live⟩
  · intro number scene found
    rw [afterAll_append, studio_afterAll]
    exact Studio.scene_afterAll found later

def rivals : List Event :=
  [.create, .create, .copy 0,
    .edit 0 (.attach "ball" (Builtin.sphere.named "sdf_sphere") ⟨0, 0⟩ 0)]

def rivalry : List Event := [.edit 1 (.attach "ball" (Builtin.sphere.named "sdf_sphere") ⟨1, 0⟩ 0)]

theorem separate_rivals : (∀ event ∈ rivals ++ rivalry, event.Allowed) ∧
    (empty.afterAll (rivals ++ rivalry)).creations ≤ UInt32.size ∧ Separate rivals rivalry ∧
      ∃ stranger, (empty.afterAll (rivals ++ rivalry)).studio.scenes[1]? = some stranger ∧
        stranger.Live ⟨1, 1⟩ ∧ stranger.Unknown ⟨0, 1⟩ := by
  have allowed : ∀ event ∈ rivals ++ rivalry, event.Allowed := by
    simp [rivals, rivalry, Event.Allowed, Command.Allowed, Operator.accepted_sphere]
  have few : (empty.afterAll (rivals ++ rivalry)).creations ≤ UInt32.size := by decide +kernel
  have separate := separate_of_creations_le allowed few
  obtain ⟨scene, found, ball⟩ : ∃ scene, (empty.afterAll rivals).studio.scenes[0]? = some scene ∧
      ∃ node, scene.node? ⟨0, 1⟩ = some node ∧ node.id = ⟨0, 1⟩ := ⟨_, rfl, _, rfl, rfl⟩
  obtain ⟨stranger, found', live⟩ : ∃ stranger,
      (empty.afterAll (rivals ++ rivalry)).studio.scenes[1]? = some stranger ∧
        stranger.Live ⟨1, 1⟩ := ⟨_, rfl, _, rfl⟩
  obtain ⟨node, here, id_eq⟩ := ball
  have apart : (empty.afterAll (rivals ++ rivalry)).origins[0]? ≠
      (empty.afterAll (rivals ++ rivalry)).origins[1]? := by decide +kernel
  have unknown := separate.unknown found (.node here) found' apart
  exact ⟨allowed, few, separate, stranger, found', live, id_eq ▸ unknown.1⟩

end Chronicle

end DistanceField
