import DistanceField.Proofs.Glsl.Tokens

/-!
# Names that a text declares and applies

The tokens of a text are read from left to right. Outside of all function bodies a name is declared
where it follows another word and comes before parameters, members, a value or the end of the
declaration; anywhere a name is applied where a parenthesis follows it.
-/

namespace DistanceField.Glsl

/-- Words of the language that parentheses may follow although they are no functions. -/
def keywords : List String := ["layout", "for", "if", "while", "switch"]

/-- What has been read: how many braces of a function body are open, whether the last token was a
closing parenthesis, and the words since the last token of another kind, the last first. -/
structure Place where
  depth : Nat
  closed : Bool
  words : List String
  deriving DecidableEq

namespace Place

def start : Place := ⟨0, false, []⟩

/-- The place behind a token. Only a brace behind a parenthesis opens the body of a function. -/
def next (place : Place) : Token → Place
  | .identifier word => ⟨place.depth, false, word :: place.words⟩
  | .number _ => ⟨place.depth, false, []⟩
  | .punctuation c =>
    if c = '{' ∧ (place.closed ∨ 0 < place.depth) then ⟨place.depth + 1, false, []⟩
    else if c = '}' then ⟨place.depth - 1, false, []⟩
    else ⟨place.depth, c = ')', []⟩

def after (place : Place) (tokens : List Token) : Place := tokens.foldl next place

def declares (place : Place) : Token → Option String
  | .punctuation c =>
    match place.words with
    | name :: _ :: _ =>
      if place.depth = 0 ∧ c ∈ ['(', '{', '=', ';'] then some name else none
    | _ => none
  | _ => none

def applies (place : Place) : Token → Option String
  | .punctuation '(' => place.words.head?.filter (· ∉ keywords)
  | _ => none

def collect (found : Place → Token → Option String) (place : Place) : List Token → List String
  | [] => []
  | token :: tokens => (found place token).toList ++ collect found (place.next token) tokens

end Place

def globals (tokens : List Token) : List String := Place.start.collect Place.declares tokens

def applied (tokens : List Token) : List String := Place.start.collect Place.applies tokens

namespace Place

variable {found : Place → Token → Option String} {place : Place} {tokens more : List Token}

theorem collect_append : place.collect found (tokens ++ more) =
    place.collect found tokens ++ (place.after tokens).collect found more := by
  induction tokens generalizing place with
  | nil => rfl
  | cons token tokens ih =>
    rw [List.cons_append, collect, collect, ih, List.append_assoc]
    rfl

theorem after_append : place.after (tokens ++ more) = (place.after tokens).after more :=
  List.foldl_append

theorem collect_applies_of_free (free : .punctuation '(' ∉ tokens) :
    place.collect applies tokens = [] := by
  induction tokens generalizing place with
  | nil => rfl
  | cons token tokens ih =>
    rw [List.mem_cons, not_or] at free
    have none : place.applies token = none := by
      unfold applies
      split
      · exact absurd rfl free.1
      · rfl
    rw [collect, none, ih free.2]
    rfl

theorem declares_of_inside {token : Token} (inside : 0 < place.depth) :
    place.declares token = none := by
  unfold declares
  split
  · split
    · simp [inside.ne']
    · rfl
  · rfl

/-- Without braces a text in the body of a function stays there and declares nothing outside. -/
theorem inside_of_free (inside : 0 < place.depth)
    (free : .punctuation '{' ∉ tokens ∧ .punctuation '}' ∉ tokens) :
    place.collect declares tokens = [] ∧ (place.after tokens).depth = place.depth := by
  induction tokens generalizing place with
  | nil => exact ⟨rfl, rfl⟩
  | cons token tokens ih =>
    simp only [List.mem_cons, not_or] at free
    obtain ⟨⟨noOpen, freeOpen⟩, noClose, freeClose⟩ := free
    have depth : (place.next token).depth = place.depth := by
      cases token with
      | identifier => rfl
      | number => rfl
      | punctuation c =>
        have ne : c ≠ '{' ∧ c ≠ '}' := by
          constructor <;> rintro rfl
          · exact noOpen rfl
          · exact noClose rfl
        simp [next, ne.1, ne.2]
    obtain ⟨nothing, deep⟩ := @ih (place.next token) (depth ▸ inside) ⟨freeOpen, freeClose⟩
    rw [collect, declares_of_inside inside, nothing]
    exact ⟨rfl, deep.trans depth⟩

section Function

variable {inner : Place} {head body rest : List Token}

theorem next_close (inside : place.depth = 1) : place.next (.punctuation '}') = start := by
  simp [next, inside, start]

/-- A function is found in its head, in its body and in the brace that closes it. -/
theorem collect_function (enters : start.after head = inner) (leaves : (inner.after body).depth = 1) :
    start.collect found (head ++ (body ++ .punctuation '}' :: rest)) =
      start.collect found head ++ (inner.collect found body ++
        ((found (inner.after body) (.punctuation '}')).toList ++ start.collect found rest)) := by
  rw [collect_append, enters, collect_append, collect, next_close leaves]

theorem after_function (enters : start.after head = inner) (leaves : (inner.after body).depth = 1) :
    start.after (head ++ (body ++ .punctuation '}' :: rest)) = start.after rest := by
  rw [after_append, enters, after_append, ← next_close leaves]
  rfl

end Function

end Place

/-- Tokens outside of functions that leave no function and no declaration open: the names that they
declare, and names among which are all that they apply. -/
structure Outside (names calls : List String) (tokens : List Token) : Prop where
  declares : globals tokens = names
  applies : applied tokens ⊆ calls
  closed : Place.start.after tokens = Place.start

instance (names calls : List String) (tokens : List Token) :
    Decidable (Outside names calls tokens) :=
  decidable_of_iff
    (globals tokens = names ∧ applied tokens ⊆ calls ∧ Place.start.after tokens = Place.start)
    ⟨fun h => ⟨h.1, h.2.1, h.2.2⟩, fun h => ⟨h.declares, h.applies, h.closed⟩⟩

namespace Outside

variable {names names' calls calls' : List String} {tokens more : List Token}

theorem mono (h : Outside names calls tokens) (sub : calls ⊆ calls') :
    Outside names calls' tokens := { h with applies := List.Subset.trans h.applies sub }

theorem append (h : Outside names calls tokens) (h' : Outside names' calls more) :
    Outside (names ++ names') calls (tokens ++ more) where
  declares := by rw [globals, Place.collect_append, h.closed, ← h.declares, ← h'.declares]; rfl
  applies := by
    rw [applied, Place.collect_append, h.closed]
    exact List.append_subset.mpr ⟨h.applies, h'.applies⟩
  closed := by rw [Place.after_append, h.closed, h'.closed]

end Outside

end DistanceField.Glsl
