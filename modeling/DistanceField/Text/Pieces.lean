/-!
# Pieces between separators

A list is cut at every separator. There is one piece more than there are separators, so a list
without separators is one piece, and separators that stand together leave empty pieces.
-/

namespace DistanceField.Text

/-- The pieces of a list between its separators. -/
def pieces {α : Type} (isSeparator : α → Bool) : List α → List (List α)
  | [] => [[]]
  | x :: xs =>
    if isSeparator x then [] :: pieces isSeparator xs
    else
      match pieces isSeparator xs with
      | [] => [[x]]
      | piece :: rest => (x :: piece) :: rest

theorem pieces_ne_nil {α : Type} (isSeparator : α → Bool) (xs : List α) :
    pieces isSeparator xs ≠ [] := by
  fun_cases pieces isSeparator xs <;> simp

theorem not_isSeparator_of_mem_pieces {α : Type} {isSeparator : α → Bool} {xs piece : List α}
    {x : α} (hp : piece ∈ pieces isSeparator xs) (hx : x ∈ piece) : isSeparator x = false := by
  induction xs generalizing piece with
  | nil => simp_all [pieces]
  | cons y ys ih =>
    simp only [pieces] at hp
    split at hp
    · rcases List.mem_cons.mp hp with rfl | hp
      · simp at hx
      · exact ih hp hx
    · rename_i separates
      split at hp
      · simp_all
      · rename_i first rest eq
        rcases List.mem_cons.mp hp with rfl | hp
        · rcases List.mem_cons.mp hx with rfl | hx
          · simpa using separates
          · exact ih (eq ▸ List.mem_cons_self) hx
        · exact ih (eq ▸ List.mem_cons_of_mem _ hp) hx

end DistanceField.Text
