import DistanceField.Json.Token

/-!
# JSON values

Tokens are put together to a value in one pass. The containers that are still open stand on a
stack, so the depth of a value is not limited and each turn takes at least one token.
-/

namespace DistanceField.Json

/-- A value. Members keep their order, and a key may occur more than once. -/
inductive Value where
  | null
  | boolean (value : Bool)
  | number (value : Number)
  | string (text : Option String)
  | array (elements : List Value)
  | object (members : List (Option String × Value))

/-- A container that is still open, with its elements or members last first. In an object, `key`
waits for its value. -/
inductive Open where
  | array (elements : List Value)
  | object (members : List (Option String × Value)) (key : Option String)

mutual

def readValue (stack : List Open) : List Token → Option Value
  | .null :: rest => readAfter stack .null rest
  | .boolean value :: rest => readAfter stack (.boolean value) rest
  | .number value :: rest => readAfter stack (.number value) rest
  | .string text :: rest => readAfter stack (.string text) rest
  | .openBracket :: .closeBracket :: rest => readAfter stack (.array []) rest
  | .openBracket :: rest => readValue (.array [] :: stack) rest
  | .openBrace :: .closeBrace :: rest => readAfter stack (.object []) rest
  | .openBrace :: .string key :: .colon :: rest => readValue (.object [] key :: stack) rest
  | _ => none

/-- Reads what follows a value inside the open containers. -/
def readAfter (stack : List Open) (value : Value) : List Token → Option Value
  | [] =>
    match stack with
    | [] => some value
    | _ :: _ => none
  | .comma :: .string key' :: .colon :: rest =>
    match stack with
    | .object members key :: stack =>
      readValue (.object ((key, value) :: members) key' :: stack) rest
    | _ => none
  | .comma :: rest =>
    match stack with
    | .array elements :: stack => readValue (.array (value :: elements) :: stack) rest
    | _ => none
  | .closeBracket :: rest =>
    match stack with
    | .array elements :: stack => readAfter stack (.array (value :: elements).reverse) rest
    | _ => none
  | .closeBrace :: rest =>
    match stack with
    | .object members key :: stack =>
      readAfter stack (.object ((key, value) :: members).reverse) rest
    | _ => none
  | _ => none

end

def Value.ofText? (text : String) : Option Value := (tokens? text).bind (readValue [])

end DistanceField.Json
