import DistanceField.Files.Tree
import DistanceField.Proofs.Steps
import Mathlib.Data.List.Basic

/-!
# Writing a file

A file that is written holds its new content under the path it was written to, and no other place of
the tree is different afterwards.
-/

namespace DistanceField.FileTree

variable {tree after : FileTree} {place other : List String} {entry : FileEntry} {path : String}
  {content : ByteArray} {parts more : List String}

theorem lookup_filter_ne {entries : List (List String × FileEntry)} (apart : other ≠ place) :
    (entries.filter (·.1 ≠ place)).lookup other = entries.lookup other := by
  induction entries with
  | nil => rfl
  | cons head entries ih =>
    by_cases same : head.1 = place
    · have different : (other == head.1) = false := by simpa [same] using apart
      rw [List.filter_cons_of_neg (by simp [same]), ih, List.lookup_cons, different]
    · rw [List.filter_cons_of_pos (by simp [same]), List.lookup_cons, List.lookup_cons, ih]

theorem entry?_set_self (named : place ≠ []) :
    FileTree.entry? (tree.set place entry) place = some entry := by
  simp [set, entry?, named]

theorem entry?_set_of_ne (apart : other ≠ place) :
    FileTree.entry? (tree.set place entry) other = tree.entry? other := by
  have different : (other == place) = false := by simpa using apart
  simp only [set, entry?]
  split
  · rfl
  · rw [List.lookup_cons, different, lookup_filter_ne apart]

theorem checkDirectory_eq_ok_iff :
    tree.checkDirectory place = .ok () ↔ tree.entry? place = some .directory := by
  rw [checkDirectory]
  split <;> simp [*]

theorem walk_append (tree : FileTree) (place parts more : List String) :
    tree.walk place (parts ++ more) =
      tree.walk place parts >>= fun between => tree.walk between more := by
  induction parts generalizing place with
  | nil => rfl
  | cons part parts ih =>
    simp only [List.cons_append, walk, ih]
    cases tree.checkDirectory place with
    | error fault => rfl
    | ok =>
      cases step place part with
      | error fault => rfl
      | ok next => rfl

/-- A way leads through directories, so it does not change with what is no directory. -/
theorem walk_set (vacant : tree.entry? place ≠ some .directory) {start goal : List String}
    (leads : tree.walk start parts = .ok goal) :
    (tree.set place entry).walk start parts = .ok goal := by
  induction parts generalizing start with
  | nil => exact leads
  | cons part parts ih =>
    rw [walk] at leads ⊢
    cases checked : tree.checkDirectory start with
    | error fault =>
      rw [checked] at leads
      cases leads
    | ok =>
      have directory := checkDirectory_eq_ok_iff.mp checked
      have apart : start ≠ place := fun same => vacant (same ▸ directory)
      have still : (tree.set place entry).checkDirectory start = .ok () := by
        rw [checkDirectory_eq_ok_iff, entry?_set_of_ne apart, directory]
      rw [checked] at leads
      rw [still]
      cases stepped : step start part with
      | error fault =>
        rw [stepped] at leads
        cases leads
      | ok next =>
        rw [stepped] at leads
        exact ih leads

/-- A path leads to a place where a file may stand: through directories to one of them, and from
there by a name. -/
structure LeadsTo (tree : FileTree) (path : String) (place : List String) : Prop where
  valid : checkPath path = .ok ()
  way : ∃ front last directory, Path.parts path = front ++ [last] ∧
    tree.walk (tree.start path) front = .ok directory ∧
      tree.entry? directory = some .directory ∧ step directory last = .ok place
  named : place ≠ []
  vacant : tree.entry? place ≠ some .directory

theorem reverse_dropWhile_eq {last : String}
    (full : ¬ (parts.reverse.dropWhile (· = "")).reverse.length < parts.length)
    (found : (parts.reverse.dropWhile (· = "")).reverse.getLast? = some last) :
    (parts.reverse.dropWhile (· = "")).reverse = parts ∧ last ≠ "" := by
  constructor
  · have suffix : parts.reverse.dropWhile (· = "") <:+ parts.reverse := List.dropWhile_suffix _
    have same := suffix.eq_of_length_le (by simpa using full)
    rw [same, List.reverse_reverse]
  · rw [List.getLast?_reverse] at found
    rintro rfl
    have first := List.head?_dropWhile_not (fun part => decide (part = "")) parts.reverse
    rw [found] at first
    simp at first

theorem leadsTo_of_write (written : tree.write path content = .ok after) :
    ∃ place, tree.LeadsTo path place ∧ after = tree.set place (.file content) := by
  simp only [write, bind_eq_ok_iff] at written
  obtain ⟨⟨⟩, valid, written⟩ := written
  split at written
  · rename_i last found
    simp only [bind_eq_ok_iff, guard_eq_ok_iff, not_or] at written
    obtain ⟨directory, way, ⟨⟩, checked, ⟨full, single, double⟩, place, stepped, vacant, done⟩ :=
      written
    obtain ⟨whole, filled⟩ := reverse_dropWhile_eq full found
    rw [whole] at found way
    have named : place ≠ [] := by
      simp only [step, filled, single, double, or_self, if_false] at stepped
      split at stepped
      · cases stepped
      · cases stepped
        simp
    exact ⟨place, ⟨valid, ⟨_, last, directory, (List.dropLast_append_getLast? last found).symm, way,
      checkDirectory_eq_ok_iff.mp checked, stepped⟩, named, vacant⟩, (Except.ok.inj done).symm⟩
  · cases written

/-- A path reads what stands where it leads. -/
theorem LeadsTo.read_set (leads : tree.LeadsTo path place) :
    (tree.set place (.file content)).read path = .ok content := by
  obtain ⟨valid, ⟨front, last, directory, parts, way, held, stepped⟩, named, vacant⟩ := leads
  have apart : directory ≠ place := fun same => vacant (same ▸ held)
  have still : (tree.set place (.file content)).checkDirectory directory = .ok () := by
    rw [checkDirectory_eq_ok_iff, entry?_set_of_ne apart, held]
  have arrives : (tree.set place (.file content)).walk (tree.start path) (Path.parts path) =
      .ok place := by
    rw [parts, walk_append, walk_set vacant way]
    simp only [bind, Except.bind, walk, still, stepped]
  have starts : (tree.set place (.file content)).start path = tree.start path := rfl
  simp only [read, valid, starts, arrives, bind, Except.bind, entry?_set_self named]
  rfl

end DistanceField.FileTree
