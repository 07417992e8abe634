import DistanceField.Scene.Default

/-!
# Studios

A studio holds several scenes. It gives every new scene a tag that no scene had before, so an
identifier of one scene names nothing in another. Only a copy shares the tag of what it was copied
from, and with it the identifiers that were given out until then. Tags have 32 bits: they begin to
repeat after as many creations.
-/

namespace DistanceField

/-- Scenes in the order of their creation, and the tag of the next new one. -/
structure Studio where
  scenes : Array Scene
  nextTag : UInt32

namespace Studio

def empty : Studio := ⟨#[], 0⟩

def create (studio : Studio) : Studio :=
  ⟨studio.scenes.push (.new studio.nextTag.toNat), studio.nextTag + 1⟩

/-- Adds the default scene. The tag is used up even if the scene cannot be built. -/
def createDefault (studio : Studio) (registry : Registry) : Except SetupError Unit × Studio :=
  match Scene.default registry studio.nextTag.toNat with
  | .ok scene => (.ok (), ⟨studio.scenes.push scene, studio.nextTag + 1⟩)
  | .error error => (.error error, { studio with nextTag := studio.nextTag + 1 })

def copy (studio : Studio) (number : Nat) : Studio :=
  match studio.scenes[number]? with
  | some scene => { studio with scenes := studio.scenes.push scene }
  | none => studio

/-- The identifier with an index that a scene has given out, be its node destroyed or not. -/
def handle? (studio : Studio) (number index : Nat) : Option NodeId := do
  let scene ← studio.scenes[number]?
  if index < scene.nodes.size then some ⟨scene.tag, index⟩ else none

/-- Runs an edit on a scene and keeps what it leaves behind, also if it fails. -/
def edit {ε α : Type} (studio : Studio) (number : Nat) (run : EStateM ε Scene α) :
    Option (Except ε α × Studio) := do
  let scene ← studio.scenes[number]?
  let store (scene : Scene) : Studio :=
    { studio with scenes := studio.scenes.setIfInBounds number scene }
  match run.run scene with
  | .ok value scene => some (.ok value, store scene)
  | .error error scene => some (.error error, store scene)

end Studio

end DistanceField
