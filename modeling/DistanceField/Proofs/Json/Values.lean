import DistanceField.Json.Value
import DistanceField.Proofs.Json.Spelling
import Mathlib.Data.List.Basic

/-!
# Values in their texts

The tokens of a value, and that reading gives back the value to which some tokens belong. A text
spells a value if it is a layout of the tokens of the value.
-/

namespace DistanceField.Json

theorem intercalate_concat {α : Type} (separator last : List α) (pieces : List (List α)) :
    separator.intercalate (pieces ++ [last]) = pieces.flatMap (· ++ separator) ++ last := by
  induction pieces with
  | nil => simp
  | cons piece pieces ih =>
    have ne : pieces ++ [last] ≠ [] := by simp
    obtain ⟨next, others, eq⟩ := List.exists_cons_of_ne_nil ne
    rw [List.cons_append, eq, List.intercalate_cons_cons, ← eq, ih]
    simp

theorem intercalate_cons {α : Type} (separator first : List α) (pieces : List (List α)) :
    separator.intercalate (first :: pieces) = first ++ pieces.flatMap (separator ++ ·) := by
  induction pieces generalizing first with
  | nil => simp
  | cons piece pieces ih => simp [List.intercalate_cons_cons, ih]

mutual

def Value.tokens : Value → List Token
  | .null => [.null]
  | .boolean value => [.boolean value]
  | .number value => [.number value]
  | .string text => [.string text]
  | .array elements =>
    .openBracket :: ([.comma].intercalate (elementTokens elements) ++ [.closeBracket])
  | .object members => .openBrace :: ([.comma].intercalate (memberTokens members) ++ [.closeBrace])

def elementTokens : List Value → List (List Token)
  | [] => []
  | value :: others => value.tokens :: elementTokens others

def memberTokens : List (Option String × Value) → List (List Token)
  | [] => []
  | (key, value) :: others => (.string key :: .colon :: value.tokens) :: memberTokens others

end

variable {stack : List Open} {value result : Value} {rest : List Token}

theorem elementTokens_eq (elements : List Value) :
    elementTokens elements = elements.map Value.tokens := by
  induction elements with
  | nil => rfl
  | cons value others ih => rw [elementTokens, ih, List.map_cons]

theorem memberTokens_eq (members : List (Option String × Value)) : memberTokens members =
    members.map fun (key, value) => .string key :: .colon :: value.tokens := by
  induction members with
  | nil => rfl
  | cons member others ih => rw [memberTokens, ih, List.map_cons]

theorem readValue_openBracket (open' : ∀ rest', rest ≠ .closeBracket :: rest') :
    readValue stack (.openBracket :: rest) = readValue (.array [] :: stack) rest := by
  rw [readValue]
  exact open'

theorem readAfter_comma {elements : List Value}
    (element : ∀ key rest', rest ≠ .string key :: .colon :: rest') :
    readAfter (.array elements :: stack) value (.comma :: rest) =
      readValue (.array (value :: elements) :: stack) rest := by
  rw [readAfter]
  exact element

theorem tokens_append_ne_closeBracket (value : Value) (rest rest' : List Token) :
    value.tokens ++ rest ≠ .closeBracket :: rest' := by cases value <;> simp [Value.tokens]

/-- An element of an array does not look like a key. -/
theorem tokens_append_ne_key (value : Value) (next : rest.head? ≠ some .colon)
    (key : Option String) (rest' : List Token) :
    value.tokens ++ rest ≠ .string key :: .colon :: rest' := by
  cases value with
  | string text =>
    intro same
    obtain ⟨-, rfl⟩ := List.cons.inj same
    exact next rfl
  | _ => simp [Value.tokens]

-- one case for each kind of value; behind the first element or member it is an induction on the
-- others, with those before the value reversed in the container that is open
mutual

theorem readValue_tokens : (value : Value) → (stack : List Open) → (rest : List Token) →
    readValue stack (value.tokens ++ rest) = readAfter stack value rest
  | .null, _, _ => by simp [Value.tokens, readValue]
  | .boolean _, _, _ => by simp [Value.tokens, readValue]
  | .number _, _, _ => by simp [Value.tokens, readValue]
  | .string _, _, _ => by simp [Value.tokens, readValue]
  | .array [], _, _ => by simp [Value.tokens, elementTokens, readValue]
  | .array (first :: others), stack, rest => by
    rw [Value.tokens, elementTokens, intercalate_cons, List.cons_append, List.append_assoc,
      List.append_assoc, readValue_openBracket (tokens_append_ne_closeBracket first _),
      readValue_tokens first]
    exact readAfter_elements others stack [] first rest
  | .object [], _, _ => by simp [Value.tokens, memberTokens, readValue]
  | .object ((key, first) :: others), stack, rest => by
    rw [Value.tokens, memberTokens, intercalate_cons, List.cons_append, List.append_assoc,
      List.append_assoc, List.cons_append, List.cons_append, readValue, readValue_tokens first]
    exact readAfter_members others stack [] key first rest

theorem readAfter_elements : (others : List Value) → (stack : List Open) → (before : List Value) →
    (value : Value) → (rest : List Token) → readAfter (.array before :: stack) value
      ((elementTokens others).flatMap ([.comma] ++ ·) ++ ([.closeBracket] ++ rest)) =
        readAfter stack (.array (before.reverse ++ value :: others)) rest
  | [], _, _, _, _ => by simp [elementTokens, readAfter]
  | next :: others, stack, before, value, rest => by
    have behind : ((elementTokens others).flatMap ([Token.comma] ++ ·) ++
        ([Token.closeBracket] ++ rest)).head? ≠ some .colon := by
      cases elementTokens others <;> simp
    rw [elementTokens, List.flatMap_cons, List.append_assoc, List.append_assoc,
      List.singleton_append, readAfter_comma (tokens_append_ne_key next behind),
      readValue_tokens next, readAfter_elements others]
    simp

theorem readAfter_members : (others : List (Option String × Value)) → (stack : List Open) →
    (before : List (Option String × Value)) → (key : Option String) → (value : Value) →
    (rest : List Token) → readAfter (.object before key :: stack) value
      ((memberTokens others).flatMap ([.comma] ++ ·) ++ ([.closeBrace] ++ rest)) =
        readAfter stack (.object (before.reverse ++ (key, value) :: others)) rest
  | [], _, _, _, _, _ => by simp [memberTokens, readAfter]
  | (key', next) :: others, stack, before, key, value, rest => by
    rw [memberTokens, List.flatMap_cons, List.append_assoc, List.append_assoc,
      List.singleton_append, List.cons_append, List.cons_append, readAfter, readValue_tokens next,
      readAfter_members others]
    simp

end

/-- The tokens of an open container up to the place of its next value. -/
def Open.tokens : Open → List Token
  | .array elements => .openBracket :: (elementTokens elements.reverse).flatMap (· ++ [.comma])
  | .object members key =>
    .openBrace :: ((memberTokens members.reverse).flatMap (· ++ [.comma]) ++ [.string key, .colon])

/-- The tokens of open containers, the innermost first, up to the place of the next value. -/
def opened : List Open → List Token
  | [] => []
  | container :: stack => opened stack ++ container.tokens

theorem tokens_array_reverse (elements : List Value) (value : Value) :
    (Value.array (value :: elements).reverse).tokens =
      (Open.array elements).tokens ++ value.tokens ++ [.closeBracket] := by
  simp [Value.tokens, Open.tokens, elementTokens_eq, intercalate_concat]

theorem tokens_object_reverse (members : List (Option String × Value)) (key : Option String)
    (value : Value) : (Value.object ((key, value) :: members).reverse).tokens =
      (Open.object members key).tokens ++ value.tokens ++ [.closeBrace] := by
  simp [Value.tokens, Open.tokens, memberTokens_eq, intercalate_concat]

-- The tokens that were read stand on the stack: it is the same list in every turn.
mutual

theorem opened_append_of_readValue (stack : List Open) (tokens : List Token)
    (read : readValue stack tokens = some result) : opened stack ++ tokens = result.tokens := by
  unfold readValue at read
  split at read
  · simpa [Value.tokens] using opened_append_of_readAfter stack .null _ read
  · simpa [Value.tokens] using opened_append_of_readAfter stack (.boolean _) _ read
  · simpa [Value.tokens] using opened_append_of_readAfter stack (.number _) _ read
  · simpa [Value.tokens] using opened_append_of_readAfter stack (.string _) _ read
  · simpa [Value.tokens, elementTokens] using
      opened_append_of_readAfter stack (.array []) _ read
  · simpa [opened, Open.tokens, elementTokens] using
      opened_append_of_readValue (.array [] :: stack) _ read
  · simpa [Value.tokens, memberTokens] using
      opened_append_of_readAfter stack (.object []) _ read
  · simpa [opened, Open.tokens, memberTokens] using
      opened_append_of_readValue (.object [] _ :: stack) _ read
  · cases read
termination_by tokens.length

theorem opened_append_of_readAfter (stack : List Open) (value : Value) (tokens : List Token)
    (read : readAfter stack value tokens = some result) :
    opened stack ++ value.tokens ++ tokens = result.tokens := by
  unfold readAfter at read
  split at read
  · split at read
    · cases read
      simp [opened]
    · cases read
  · split at read
    · rename_i key' _ _ members key stack
      have eq := opened_append_of_readValue (.object ((key, value) :: members) key' :: stack) _ read
      simpa [opened, Open.tokens, memberTokens_eq] using eq
    · cases read
  · split at read
    · rename_i elements stack
      have eq := opened_append_of_readValue (.array (value :: elements) :: stack) _ read
      simpa [opened, Open.tokens, elementTokens_eq] using eq
    · cases read
  · split at read
    · rename_i elements stack
      have eq := opened_append_of_readAfter stack (.array (value :: elements).reverse) _ read
      rw [tokens_array_reverse] at eq
      simpa [opened] using eq
    · cases read
  · split at read
    · rename_i members key stack
      have eq :=
        opened_append_of_readAfter stack (.object ((key, value) :: members).reverse) _ read
      rw [tokens_object_reverse] at eq
      simpa [opened] using eq
    · cases read
  · cases read
termination_by tokens.length

end

theorem readValue_eq_some_iff {tokens : List Token} :
    readValue [] tokens = some value ↔ tokens = value.tokens := by
  constructor
  · exact opened_append_of_readValue [] tokens
  · rintro rfl
    rw [← List.append_nil value.tokens, readValue_tokens, readAfter]

def Value.Spells (value : Value) (text : String) : Prop := Laid value.tokens text.toList

/-- The value of a text is the one that it spells. -/
theorem Value.ofText?_eq_some_iff {text : String} :
    Value.ofText? text = some value ↔ value.Spells text := by
  simp only [Value.ofText?, Option.bind_eq_some_iff, tokens?_eq_some_iff, readValue_eq_some_iff,
    exists_eq_right, Value.Spells]

end DistanceField.Json
