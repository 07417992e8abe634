import DistanceField.Proofs.Operator.Registered
import DistanceField.Proofs.Scene.Lifetimes
import DistanceField.Scene.Default

/-!
# Scenes that are built from a registry

The default scene is put together by edits with registered operators, so it is one of the scenes
that commands lead to, whatever the registry holds.
-/

namespace DistanceField

namespace Scene

/-- The later scene has the same tag, and commands lead to it if they lead to the earlier one. -/
structure Inherits (scene later : Scene) : Prop where
  tag : later.tag = scene.tag
  reachable : Reachable scene → Reachable later

instance : IsPreorder Scene Inherits where
  refl _ := ⟨rfl, id⟩
  trans _ _ _ first second := ⟨second.tag.trans first.tag, second.reachable ∘ first.reachable⟩

theorem inherits_command (command : Command) (allowed : command.Allowed) :
    Keeps Inherits command.edit := by
  intro scene
  rw [← command.after_eq_remains]
  exact ⟨(later_after command scene).tag, fun h => h.step allowed⟩

/-- The identifier that an attachment returns does not matter for what it leaves behind. -/
theorem inherits_attach {operator : Operator} (accepted : operator.Accepted) (name : String)
    (parent : NodeId) (slot : Nat) : Keeps Inherits (Edit.attach name operator parent slot) := by
  intro scene
  have whole := inherits_command (.attach name operator parent slot) (.inl accepted) scene
  simp only [Command.edit, EStateM.run_bind] at whole
  cases run : (Edit.attach name operator parent slot).run scene with
  | ok id after =>
    rw [run] at whole
    exact whole
  | error error after =>
    rw [run] at whole
    exact whole

end Scene

namespace Setup
open Scene

variable {registry : Registry}

theorem keeps_attach (reached : registry.Reached) (name symbol : String) (parent : NodeId)
    (slot : Nat) : Keeps Inherits (attach registry name symbol parent slot) := by
  unfold attach
  split
  · rename_i operator found
    have accepted := reached.accepted (List.mem_of_find?_eq_some found)
    exact .adaptExcept (inherits_attach accepted name parent slot) _
  · exact .throw _

theorem keeps_setLiteral (id : NodeId) (slot : Nat) (literal : Literal) :
    Keeps Inherits (edit (Edit.setLiteral id slot literal)) :=
  .adaptExcept (inherits_command (.setLiteral id slot literal) trivial) _

theorem keeps_defaultScene (reached : registry.Reached) (root : NodeId) :
    Keeps Inherits (defaultScene registry root) :=
  have attaches := keeps_attach reached
  .bind (attaches _ _ _ _) fun _ => .bind (attaches _ _ _ _) fun _ => .bind (attaches _ _ _ _)
    fun _ => .bind (attaches _ _ _ _) fun _ => .bind (keeps_setLiteral _ _ _) fun _ =>
      .bind (attaches _ _ _ _) fun _ => .bind (attaches _ _ _ _) fun _ =>
        .bind (keeps_setLiteral _ _ _) fun _ => keeps_setLiteral _ _ _

end Setup

namespace Scene

variable {registry : Registry} {tag : Nat} {scene : Scene}

theorem inherits_default (reached : registry.Reached)
    (built : Scene.default registry tag = .ok scene) :
    (Scene.new tag).Inherits scene := by
  have kept := Setup.keeps_defaultScene reached (Scene.new tag).root (Scene.new tag)
  rw [Scene.default] at built
  split at built
  · rename_i run
    cases built
    rwa [run] at kept
  · cases built

theorem reachable_default (reached : registry.Reached)
    (built : Scene.default registry tag = .ok scene) : Reachable scene :=
  (inherits_default reached built).reachable (.new tag)

theorem tag_default (reached : registry.Reached)
    (built : Scene.default registry tag = .ok scene) : scene.tag = tag :=
  (inherits_default reached built).tag

end Scene

end DistanceField
