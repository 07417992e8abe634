import DistanceField.Glsl.Token
import Mathlib.Data.List.Infix

/-!
# Comments that are closed

A block comment that nothing closes takes whatever follows the text. A text without one reads the
same before any other text that cannot continue its last token.
-/

namespace DistanceField.Glsl

variable {lineStart : Bool} {c : Char} {text rest : List Char}

theorem dropBlock_suffix (lineStart : Bool) (text : List Char) :
    (dropBlock lineStart text).2 <:+ text := by
  fun_induction dropBlock lineStart text with
  | case1 => exact List.suffix_rfl
  | case2 lineStart rest => exact (List.suffix_cons ..).trans (List.suffix_cons ..)
  | case3 lineStart c rest _ ih => exact ih.trans (List.suffix_cons ..)

theorem dropBlock_append (lineStart : Bool) (closed : ['*', '/'] <:+: text) (rest : List Char) :
    dropBlock lineStart (text ++ rest) =
      ((dropBlock lineStart text).1, (dropBlock lineStart text).2 ++ rest) := by
  fun_induction dropBlock lineStart text with
  | case1 => simp at closed
  | case2 => rfl
  | case3 lineStart c text unclosed ih =>
    have later : ['*', '/'] <:+: text := by
      rcases List.infix_cons_iff.mp closed with first | later
      · obtain ⟨after, eq⟩ := first
        obtain ⟨rfl, rest⟩ := List.cons.inj eq
        exact absurd rest.symm (unclosed after rfl)
      · exact later
    have unclosed' : ∀ after, c = '*' → text ++ rest = '/' :: after → False := by
      intro after star slash
      cases text with
      | nil => simp at later
      | cons d text => exact unclosed text star (by rw [(List.cons.inj slash).1])
    rw [List.cons_append, dropBlock.eq_3 _ _ _ unclosed', ih later]

/-- What closes a comment lies on one side of a cut that no slash follows. -/
theorem infix_or_infix_of_append (noSlash : rest.head? ≠ some '/')
    (closed : ['*', '/'] <:+: text ++ rest) : ['*', '/'] <:+: text ∨ ['*', '/'] <:+: rest := by
  induction text with
  | nil => exact .inr closed
  | cons c text ih =>
    rcases List.infix_cons_iff.mp closed with first | later
    · left
      obtain ⟨rfl, slash⟩ := List.cons_prefix_cons.mp first
      cases text with
      | nil =>
        obtain ⟨after, eq⟩ := slash
        exact absurd (congrArg List.head? eq).symm noSlash
      | cons d text =>
        obtain ⟨rfl, -⟩ := List.cons_prefix_cons.mp slash
        exact ⟨[], text, rfl⟩
    · exact (ih later).imp_left fun inner => inner.trans (List.suffix_cons c text).isInfix

/-- Whether a text ends within a block comment that nothing closes; `lineStart` tells whether no
token precedes the text on its line. -/
def endsInBlockFrom (lineStart : Bool) : List Char → Bool
  | [] => false
  | c :: rest =>
    (c = '/' && rest.head? = some '*' && !decide (['*', '/'] <:+: rest.tail)) ||
      endsInBlockFrom (scan lineStart c rest).lineStart (scan lineStart c rest).rest
termination_by text => text.length
decreasing_by exact Nat.lt_succ_of_le (length_scan_le lineStart c rest)

def endsInBlock (source : String) : Bool := endsInBlockFrom true source.toList

@[simp] theorem endsInBlockFrom_nil : endsInBlockFrom lineStart [] = false := by
  rw [endsInBlockFrom]

/-- A comment at the beginning is closed, and what follows the first lexeme does not end in a
comment either. -/
theorem endsInBlockFrom_cons_eq_false_iff : endsInBlockFrom lineStart (c :: text) = false ↔
    (c = '/' → text.head? = some '*' → ['*', '/'] <:+: text.tail) ∧
      endsInBlockFrom (scan lineStart c text).lineStart (scan lineStart c text).rest = false := by
  rw [endsInBlockFrom, Bool.or_eq_false_iff]
  simp only [Bool.and_eq_false_iff, decide_eq_false_iff_not, Bool.not_eq_false', decide_eq_true_eq]
  tauto

end DistanceField.Glsl
