import DistanceField.Proofs.Text.Cuts
import DistanceField.Text.Lines

/-!
# The lines of a text

How a text falls into lines, said without reading it character by character: a line stands before
each line feed, without one carriage return at its end, and what is behind the last line feed is a
line unless it is empty. Every text falls into lines in one way, and these are the lines that are
read.
-/

namespace DistanceField.Text

/-- What stands before a line feed, and the line that this is. -/
inductive Stripped : List Char → List Char → Prop
  | kept {line : List Char} (ends : line.getLast? ≠ some '\r') : Stripped line line
  | cut (line : List Char) : Stripped (line ++ ['\r']) line

/-- A text and the lines that it falls into. -/
inductive HasLines : List Char → List (List Char) → Prop
  | nil : HasLines [] []
  | last {line : List Char} (some : line ≠ []) (free : '\n' ∉ line) : HasLines line [line]
  | feed {chars line rest : List Char} {lines : List (List Char)} (free : '\n' ∉ chars)
    (stripped : Stripped chars line) (onward : HasLines rest lines) :
    HasLines (chars ++ '\n' :: rest) (line :: lines)

variable {text chars line : List Char} {lines : List (List Char)}

theorem stripped_iff : Stripped chars line ↔ dropReturn chars = line := by
  constructor
  · rintro (ends | _)
    · exact if_neg ends
    · simp [dropReturn]
  · rintro rfl
    by_cases ends : chars.getLast? = some '\r'
    · obtain ⟨line, rfl⟩ := List.getLast?_eq_some_iff.mp ends
      simpa [dropReturn] using Stripped.cut line
    · rw [dropReturn, if_neg ends]
      exact .kept ends

theorem Stripped.subset (stripped : Stripped chars line) : line ⊆ chars := by
  cases stripped with
  | kept => exact List.Subset.refl _
  | cut => exact List.subset_append_left _ _

theorem HasLines.notMem_feed (falls : HasLines text lines) : ∀ line ∈ lines, '\n' ∉ line := by
  induction falls with
  | nil => simp
  | last _ free => simpa using free
  | feed free stripped _ ih =>
    exact List.forall_mem_cons.mpr ⟨fun mem => free (stripped.subset mem), ih⟩

theorem linesFrom_line {rest : List Char} (free : '\n' ∉ line) (current : List Char) :
    linesFrom current (line ++ '\n' :: rest) =
      dropReturn (current.reverse ++ line) :: linesFrom [] rest := by
  induction line generalizing current with
  | nil => simp [linesFrom]
  | cons c line ih =>
    obtain ⟨here, free⟩ := List.ne_and_not_mem_of_not_mem_cons free
    rw [List.cons_append, linesFrom, ih free]
    · simp
    · exact here.symm

theorem linesFrom_last (current : List Char) (free : '\n' ∉ line)
    (some : current.reverse ++ line ≠ []) : linesFrom current line = [current.reverse ++ line] := by
  induction line generalizing current with
  | nil => simpa [linesFrom] using some
  | cons c line ih =>
    obtain ⟨here, free⟩ := List.ne_and_not_mem_of_not_mem_cons free
    rw [linesFrom, ih (c :: current) free (by simp)]
    · simp
    · exact here.symm

theorem hasLines_linesFrom (text : List Char) : HasLines text (linesFrom [] text) := by
  induction length : text.length using Nat.strongRecOn generalizing text with
  | ind n ih =>
    by_cases feeds : '\n' ∈ text
    · obtain ⟨rest, cut, free⟩ := eq_takeWhile_append feeds
      rw [cut, linesFrom_line free]
      have shorter : rest.length < n := by
        rw [← length, cut, List.length_append, List.length_cons]
        omega
      exact .feed free (stripped_iff.mpr rfl) (ih _ shorter rest rfl)
    · by_cases some : text = []
      · subst some
        exact .nil
      · rw [linesFrom_last [] feeds some]
        exact .last some feeds

theorem hasLines_iff : HasLines text lines ↔ lines = linesFrom [] text := by
  constructor
  · intro falls
    induction falls with
    | nil => rfl
    | last some free => exact (linesFrom_last [] free some).symm
    | feed free stripped _ ih =>
      rw [linesFrom_line free, ← ih, List.reverse_nil, List.nil_append, stripped_iff.mp stripped]
  · rintro rfl
    exact hasLines_linesFrom text

end DistanceField.Text
