import DistanceField.Proofs.Text.Lines
import DistanceField.Shader.Validation
import Mathlib.Data.List.Forall2

/-!
# The listing of a source

A listing is cut at its line feeds into rows. Between the marks stands one row for each line of the
source, with the number of the line in front. The lines can be read back from the rows whatever they
hold, so two sources have one listing exactly if they have the same lines.
-/

namespace DistanceField.Shader
open Text
open List (Forall₂)

variable {listed : String} {field line row : List Char} {lines lines' rows rows' : List (List Char)}
  {width number start : Nat}

/-- A field with a word at its right end and blanks before it. Only a word that does not fit makes
it wider. -/
structure RightAligned (width : Nat) (word field : List Char) : Prop where
  blanks : ∃ count, field = List.replicate count ' ' ++ word
  length : field.length = max width word.length

/-- A row that shows a line with its number: the decimal in a field of four columns or more, a bar
between blanks, and the line as it is. -/
def IsRow (numbered : List Char × Nat) (row : List Char) : Prop :=
  ∃ field, RightAligned 4 (Nat.toDigits 10 numbered.2) field ∧
    row = field ++ " | ".toList ++ numbered.1

/-- What stands behind the first bar between blanks. -/
def lineOf? (row : List Char) : Option (List Char) := (row.dropInfix? " | ".toList).map Prod.snd

theorem rightAligned_padLeft (width : Nat) (word : String) :
    RightAligned width word.toList (padLeft width word).toList where
  blanks := ⟨width - word.length, by simp [padLeft]⟩
  length := by
    simp only [padLeft, String.toList_append, String.toList_ofList, List.length_append,
      List.length_replicate, String.length_toList]
    omega

theorem RightAligned.notMem (aligned : RightAligned width (Nat.toDigits 10 number) field) {c : Char}
    (blank : c ≠ ' ') (digit : c.isDigit = false) : c ∉ field := by
  obtain ⟨count, rfl⟩ := aligned.blanks
  intro mem
  rcases List.mem_append.mp mem with mem | mem
  · exact blank (List.eq_of_mem_replicate mem)
  · rw [Nat.isDigit_of_mem_toDigits (by decide) (by decide) mem] at digit
    cases digit

/-- The bar behind a field that holds none is the first one. -/
theorem dropInfix?_bar (free : '|' ∉ field) (line : List Char) :
    (field ++ " | ".toList ++ line).dropInfix? " | ".toList = some (field, line) := by
  refine List.dropInfix?_eq_some_iff.mpr ⟨⟨_, rfl, BEq.rfl⟩, ?_⟩
  intro before mark behind cut same
  obtain rfl := eq_of_beq same
  by_contra shorter
  rw [List.append_assoc, List.append_assoc, List.append_eq_append_iff] at cut
  rcases cut with ⟨more, rfl, -⟩ | ⟨more, rfl, onward⟩
  · simp at shorter
  · -- An earlier bar would stand in the field, or where the blank before the bar is.
    match more with
    | [] => simp at shorter
    | [c] => simp at onward
    | c :: d :: more =>
      have bar : '|' = d := (List.cons.inj (List.cons.inj onward).2).1
      exact free (by simp [← bar])

theorem IsRow.lineOf?_eq (shows : IsRow (line, number) row) : lineOf? row = some line := by
  obtain ⟨field, aligned, rfl⟩ := shows
  rw [lineOf?, dropInfix?_bar (aligned.notMem (by decide) (by decide)), Option.map_some]

theorem map_lineOf? (shown : Forall₂ IsRow (lines.zipIdx start) rows) :
    rows.map lineOf? = lines.map some := by
  induction lines generalizing start rows with
  | nil =>
    cases shown
    rfl
  | cons line lines ih =>
    cases shown with
    | cons here onward => rw [List.map_cons, List.map_cons, here.lineOf?_eq, ih onward]

theorem IsRow.notMem_feed (shows : IsRow (line, number) row) (free : '\n' ∉ line) :
    '\n' ∉ row := by
  obtain ⟨field, aligned, rfl⟩ := shows
  have clear : '\n' ∉ field := aligned.notMem (by decide) (by decide)
  simp [clear, free]

theorem exists_row (number : Nat) (line : String) :
    ∃ row, (numberedLine number line).toList = row ++ ['\n'] ∧ IsRow (line.toList, number) row := by
  have aligned := rightAligned_padLeft 4 (toString number)
  rw [Nat.toString_eq_repr, Nat.toList_repr] at aligned
  exact ⟨_, by simp [numberedLine], _, aligned, rfl⟩

theorem exists_rows {lines : List String} (free : ∀ line ∈ lines, '\n' ∉ line.toList)
    (start : Nat) (rest : List Char) :
    ∃ rows, pieces (· = '\n') ((numberedFrom start lines).toList ++ rest) =
        rows ++ pieces (· = '\n') rest ∧
      Forall₂ IsRow ((lines.map String.toList).zipIdx start) rows := by
  induction lines generalizing start with
  | nil => exact ⟨[], rfl, .nil⟩
  | cons line lines ih =>
    obtain ⟨here, free⟩ := List.forall_mem_cons.mp free
    obtain ⟨row, shown, shows⟩ := exists_row start line
    obtain ⟨rows, cut, onward⟩ := ih free (start + 1)
    refine ⟨row :: rows, ?_, .cons shows onward⟩
    rw [numberedFrom, String.toList_append, shown, List.append_assoc, List.append_assoc,
      List.singleton_append, pieces_append_cons (shows.notMem_feed here), cut, List.cons_append]

/-- The rows of a listing, which show lines between the marks. -/
structure Shows (listed : String) (lines rows : List (List Char)) : Prop where
  cut : pieces (· = '\n') listed.toList =
    "Generated GLSL:".toList :: "---".toList :: (rows ++ ["---".toList, []])
  rows : Forall₂ IsRow (lines.zipIdx 1) rows

theorem toList_listing (source : String) : (listing source).toList =
    "Generated GLSL:".toList ++ '\n' :: ("---".toList ++ '\n' ::
      ((numberedFrom 1 (Text.lines source)).toList ++ "---\n".toList)) := by
  have marks : "Generated GLSL:\n---\n".toList =
      "Generated GLSL:".toList ++ '\n' :: ("---".toList ++ ['\n']) := by decide
  unfold listing
  simp only [String.toList_append, marks, List.append_assoc, List.cons_append, List.nil_append]

theorem toList_lines (source : String) :
    (Text.lines source).map String.toList = linesFrom [] source.toList := by
  simp [Text.lines, Function.comp_def]

theorem exists_shows (source : String) :
    ∃ rows, Shows (listing source) (linesFrom [] source.toList) rows := by
  have free : ∀ line ∈ Text.lines source, '\n' ∉ line.toList := by
    intro line mem
    apply (hasLines_linesFrom source.toList).notMem_feed
    exact toList_lines source ▸ List.mem_map_of_mem mem
  obtain ⟨rows, cut, shown⟩ := exists_rows free 1 "---\n".toList
  refine ⟨rows, ?_, toList_lines source ▸ shown⟩
  rw [toList_listing, pieces_append_cons (by decide), pieces_append_cons (by decide), cut]
  rfl

theorem Shows.unique (shows : Shows listed lines rows) (shows' : Shows listed lines' rows') :
    lines = lines' := by
  have same : rows = rows' := by
    have cut := shows.cut.symm.trans shows'.cut
    simpa using cut
  subst same
  have back := (map_lineOf? shows.rows).symm.trans (map_lineOf? shows'.rows)
  exact (List.map_inj_right fun _ _ => Option.some.inj).mp back

/-- A listing shows the lines of its source with their numbers, and the lines are what stands behind
the first bars of the rows. Sources with other lines have other listings. -/
theorem listing_unambiguous (source : String) :
    ∃ lines rows : List (List Char), (∀ cut, HasLines source.toList cut ↔ cut = lines) ∧
      Shows (listing source) lines rows ∧ rows.map lineOf? = lines.map some ∧
      ∀ other, listing other = listing source ↔ HasLines other.toList lines := by
  obtain ⟨rows, shows⟩ := exists_shows source
  refine ⟨_, rows, fun _ => hasLines_iff, shows, map_lineOf? shows.rows, fun other => ?_⟩
  rw [hasLines_iff]
  constructor
  · intro same
    obtain ⟨rows', shows'⟩ := exists_shows other
    exact shows.unique (same ▸ shows')
  · intro same
    unfold listing Text.lines
    rw [same]

example : listing "---\r\n   1 | a\r\r\n\nb\r" =
    "Generated GLSL:\n---\n   1 | ---\n   2 |    1 | a\r\n   3 | \n   4 | b\r\n---\n" := by
  decide +kernel

end DistanceField.Shader
