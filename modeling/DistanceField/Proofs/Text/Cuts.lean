import DistanceField.Text.Pieces
import Mathlib.Data.List.TakeWhile

/-!
# Texts that fall apart in one way

Texts put together can be told apart again where each part ends at a character that the part itself
does not hold.
-/

namespace DistanceField.Text

variable {α : Type} {p : α → Bool} {xs ys us vs : List α}

/-- A list ends, or goes on with an element that stops what is told by `p`. -/
def StopsAt (p : α → Bool) (us : List α) : Prop := ∀ x, us.head? = some x → p x = false

theorem stopsAt_cons {x : α} (h : p x = false) : StopsAt p (x :: us) := by simpa [StopsAt] using h

theorem takeWhile_append_stop (stops : StopsAt p us) : (xs ++ us).takeWhile p = xs.takeWhile p := by
  induction xs with
  | nil =>
    cases us with
    | nil => rfl
    | cons u us => simp [stops u rfl]
  | cons x xs ih => by_cases h : p x <;> simp [h, ih]

theorem dropWhile_append_stop (stops : StopsAt p us) :
    (xs ++ us).dropWhile p = xs.dropWhile p ++ us := by
  induction xs with
  | nil =>
    cases us with
    | nil => rfl
    | cons u us => simp [stops u rfl]
  | cons x xs ih => by_cases h : p x <;> simp [h, ih]

/-- Parts that run up to the first stop are told apart from what follows. -/
theorem append_inj_of_stop (all : ∀ x ∈ xs, p x) (all' : ∀ y ∈ ys, p y) (stops : StopsAt p us)
    (stops' : StopsAt p vs) (h : xs ++ us = ys ++ vs) : xs = ys ∧ us = vs := by
  have same : xs = ys := by
    have first := congrArg (List.takeWhile p) h
    rwa [takeWhile_append_stop stops, takeWhile_append_stop stops',
      List.takeWhile_eq_self_iff.mpr all, List.takeWhile_eq_self_iff.mpr all'] at first
  subst same
  exact ⟨rfl, List.append_cancel_left h⟩

theorem ne_of_free [DecidableEq α] {x : α} (free : x ∉ xs) : ∀ y ∈ xs, decide (y ≠ x) = true := by
  intro y mem
  apply decide_eq_true
  rintro rfl
  exact free mem

/-- Parts are told apart by an element behind each that neither holds. -/
theorem append_cons_inj_of_free [DecidableEq α] {x : α} (free : x ∉ xs) (free' : x ∉ ys)
    (h : xs ++ x :: us = ys ++ x :: vs) : xs = ys ∧ us = vs := by
  have stops : ∀ {us : List α}, StopsAt (fun y => decide (y ≠ x)) (x :: us) :=
    stopsAt_cons (by simp)
  obtain ⟨same, rest⟩ := append_inj_of_stop (ne_of_free free) (ne_of_free free') stops stops h
  exact ⟨same, List.tail_eq_of_cons_eq rest⟩

theorem eq_takeWhile_append [DecidableEq α] {x : α} (mem : x ∈ xs) :
    ∃ after, xs = xs.takeWhile (· ≠ x) ++ x :: after ∧ x ∉ xs.takeWhile (· ≠ x) := by
  have free : x ∉ xs.takeWhile (· ≠ x) := by
    intro mem
    simpa using List.mem_takeWhile_imp mem
  have whole : xs.takeWhile (· ≠ x) ++ xs.dropWhile (· ≠ x) = xs := List.takeWhile_append_dropWhile
  cases left : xs.dropWhile (· ≠ x) with
  | nil =>
    rw [left, List.append_nil] at whole
    exact absurd mem (whole ▸ free)
  | cons y after =>
    have first := List.head?_dropWhile_not (fun y => decide (y ≠ x)) xs
    simp only [left, List.head?_cons, decide_eq_false_iff_not, not_not] at first
    rw [left, first] at whole
    exact ⟨after, whole.symm, free⟩

theorem takeWhile_append_of_free [DecidableEq α] {x : α} (free : x ∉ xs) :
    (xs ++ x :: ys).takeWhile (· ≠ x) = xs := by
  rw [takeWhile_append_stop (stopsAt_cons (by simp))]
  exact List.takeWhile_eq_self_iff.mpr (ne_of_free free)

theorem ne_of_apart {x y : α} (h : p x) (h' : p y = false) : x ≠ y := by
  rintro rfl
  rw [h] at h'
  cases h'

theorem notMem_of_apart {y : α} (all : ∀ x ∈ xs, p x) (other : p y = false) : y ∉ xs :=
  fun mem => ne_of_apart (all y mem) other rfl

theorem mem_of_mem_intercalate {separator : List α} {pieces : List (List α)} {x : α}
    (mem : x ∈ separator.intercalate pieces) : x ∈ separator ∨ ∃ piece ∈ pieces, x ∈ piece := by
  induction pieces with
  | nil => simp at mem
  | cons piece pieces ih =>
    cases pieces with
    | nil => exact .inr ⟨piece, List.mem_cons_self, by simpa using mem⟩
    | cons next pieces =>
      rw [List.intercalate_cons_cons, List.mem_append, List.mem_append] at mem
      rcases mem with (mem | mem) | mem
      · exact .inr ⟨piece, List.mem_cons_self, mem⟩
      · exact .inl mem
      · exact (ih mem).imp_right fun ⟨piece, here, mem⟩ => ⟨piece, List.mem_cons_of_mem _ here, mem⟩

theorem mem_intercalate {separator piece : List α} {pieces : List (List α)} {x : α}
    (mem : piece ∈ pieces) (here : x ∈ piece) : x ∈ separator.intercalate pieces := by
  induction pieces with
  | nil => cases mem
  | cons first pieces ih =>
    cases pieces with
    | nil =>
      obtain rfl := List.mem_singleton.mp mem
      simpa using here
    | cons second pieces =>
      rw [List.intercalate_cons_cons]
      rcases List.mem_cons.mp mem with rfl | mem
      · simp [here]
      · simp [ih mem]

theorem pieces_eq_splitOn [DecidableEq α] (separator : α) (xs : List α) :
    pieces (· = separator) xs = xs.splitOn separator := by
  induction xs with
  | nil => rfl
  | cons x xs ih =>
    rw [pieces, List.splitOn_cons_eq_if_modifyHead, ih]
    by_cases separates : x = separator
    · simp [separates]
    · cases cut : xs.splitOn separator with
      | nil => exact absurd cut (List.splitOn_ne_nil _ _)
      | cons piece pieces => simp [separates]

theorem pieces_append_cons [DecidableEq α] {separator : α} (free : separator ∉ xs) :
    pieces (· = separator) (xs ++ separator :: ys) = xs :: pieces (· = separator) ys := by
  induction xs with
  | nil => simp [pieces]
  | cons x xs ih =>
    obtain ⟨here, free⟩ := List.ne_and_not_mem_of_not_mem_cons free
    simp [pieces, ih free, here.symm]

/-- The pieces put together again with separators between them are the list. -/
theorem pieces_eq_iff [DecidableEq α] {separator : α} {parts : List (List α)} :
    pieces (· = separator) xs = parts ↔
      parts ≠ [] ∧ (∀ part ∈ parts, separator ∉ part) ∧ [separator].intercalate parts = xs := by
  constructor
  · rintro rfl
    refine ⟨pieces_ne_nil _ _, ?_, ?_⟩
    · intro part mem here
      simpa using not_isSeparator_of_mem_pieces mem here
    · rw [pieces_eq_splitOn]
      exact List.intercalate_splitOn separator
  · rintro ⟨some, free, rfl⟩
    rw [pieces_eq_splitOn]
    exact List.splitOn_intercalate separator free some

def IsLine (text : String) : Prop := ∃ line : List Char, text.toList = line ++ ['\n'] ∧ '\n' ∉ line

theorem IsLine.append_inj {text text' rest rest' : String} (line : IsLine text)
    (line' : IsLine text') (h : text ++ rest = text' ++ rest') : text = text' ∧ rest = rest' := by
  obtain ⟨chars, eq, free⟩ := line
  obtain ⟨chars', eq', free'⟩ := line'
  have whole : chars ++ '\n' :: rest.toList = chars' ++ '\n' :: rest'.toList := by
    have lists := congrArg String.toList h
    simpa [eq, eq'] using lists
  obtain ⟨rfl, same⟩ := append_cons_inj_of_free free free' whole
  exact ⟨String.toList_inj.mp (eq.trans eq'.symm), String.toList_inj.mp same⟩

/-- Lines put together are told apart. -/
theorem join_inj {texts texts' : List String} (lines : ∀ text ∈ texts, IsLine text)
    (lines' : ∀ text ∈ texts', IsLine text) (h : String.join texts = String.join texts') :
    texts = texts' := by
  have nonempty : ∀ {text : String} {texts : List String}, IsLine text →
      String.join (text :: texts) ≠ String.join [] := by
    rintro text texts ⟨chars, eq, -⟩ empty
    have lists := congrArg String.toList empty
    simp [eq] at lists
  induction texts generalizing texts' with
  | nil =>
    cases texts' with
    | nil => rfl
    | cons text' texts' => exact absurd h.symm (nonempty (lines' _ List.mem_cons_self))
  | cons text texts ih =>
    obtain ⟨line, lines⟩ := List.forall_mem_cons.mp lines
    cases texts' with
    | nil => exact absurd h (nonempty line)
    | cons text' texts' =>
      obtain ⟨line', onward⟩ := List.forall_mem_cons.mp lines'
      rw [String.join_cons, String.join_cons] at h
      obtain ⟨rfl, rest⟩ := line.append_inj line' h
      rw [ih lines onward rest]

end DistanceField.Text
