import DistanceField.Scene.Edit

/-! # Outcomes of the elementary steps of an edit -/

namespace DistanceField.Edit

variable {α : Type} {scene after : Scene} {value : α} {error : SceneError}

@[simp] theorem run_get : (get : Edit Scene).run scene = .ok scene scene := rfl

@[simp] theorem run_set : (set after : Edit PUnit).run scene = .ok ⟨⟩ after := rfl

@[simp] theorem run_pure : (pure value : Edit α).run scene = .ok value scene := rfl

@[simp] theorem run_throw : (throw error : Edit α).run scene = .error error scene := rfl

@[simp] theorem run_check_ok : (check (.ok value)).run scene = .ok value scene := rfl

@[simp] theorem run_check_error :
    (check (.error error) : Edit α).run scene = .error error scene := rfl

end DistanceField.Edit
