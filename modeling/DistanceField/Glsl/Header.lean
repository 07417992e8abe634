import DistanceField.Glsl.Token
import DistanceField.Text.Pieces

/-!
# Function headers

The header of an operator is read from the tokens before the first `{` of its code: they end with a
result type, a name and a parameter list in parentheses. What stands before the result type is of
no interest, so directives, comments and declarations may precede the header.
-/

namespace DistanceField.Glsl

/-- A parameter as it is declared. The type of a declarator that is neither `type` nor `type name`
is the whole declarator run together, which spells no type. -/
structure Parameter where
  qualifiers : List String
  type : String
  name : Option String
  deriving DecidableEq, Repr

/-- Whether a parameter hands a value back to the caller. -/
def Parameter.isOutput (parameter : Parameter) : Bool :=
  parameter.qualifiers.any fun word => word = "out" || word = "inout"

structure Header where
  returnType : String
  name : String
  parameters : List Parameter
  deriving DecidableEq, Repr

def qualifierWords : List String :=
  ["in", "out", "inout", "const", "highp", "mediump", "lowp", "precise"]

/-- The qualifiers at the beginning of a declaration, as many as there are, and the declarator. -/
def splitQualifiers : List Token → List String × List Token
  | .identifier word :: rest =>
    if word ∈ qualifierWords then
      let (words, declarator) := splitQualifiers rest
      (word :: words, declarator)
    else ([], .identifier word :: rest)
  | tokens => ([], tokens)

/-- The type and the name of a declarator; it has to begin with an identifier. -/
def declarator? : List Token → Option (String × Option String)
  | [.identifier type] => some (type, none)
  | [.identifier type, .identifier name] => some (type, some name)
  | .identifier word :: rest =>
    some (.ofList ((Token.identifier word :: rest).flatMap Token.chars), none)
  | _ => none

def parameter? (tokens : List Token) : Option Parameter :=
  let (qualifiers, declarator) := splitQualifiers tokens
  (declarator? declarator).map fun (type, name) => ⟨qualifiers, type, name⟩

def parameters? (tokens : List Token) : Option (List Parameter) :=
  if tokens = [] ∨ tokens = [.identifier "void"] then some []
  else (Text.pieces (· = .punctuation ',') tokens).mapM parameter?

/-- Splits at the parenthesis that is still open after `depth` further ones have been closed. The
tokens are given last first; so is what comes before the parenthesis, while what comes after it is
put in front of `inside` in the order of the text. -/
def splitOpen (depth : Nat) (inside : List Token) : List Token → Option (List Token × List Token)
  | [] => none
  | .punctuation ')' :: before => splitOpen (depth + 1) (.punctuation ')' :: inside) before
  | .punctuation '(' :: before =>
    match depth with
    | 0 => some (inside, before)
    | depth + 1 => splitOpen depth (.punctuation '(' :: inside) before
  | token :: before => splitOpen depth (token :: inside) before

def headerBefore? : List Token → Option Header
  | .punctuation ')' :: before =>
    match splitOpen 0 [] before with
    | some (inside, .identifier name :: .identifier returnType :: _) =>
      (parameters? inside).map fun parameters => ⟨returnType, name, parameters⟩
    | _ => none
  | _ => none

/-- The header in a run of tokens: the one right before the first `{`. -/
def headerOf? (tokens : List Token) : Option Header :=
  if .punctuation '{' ∈ tokens then
    headerBefore? (tokens.takeWhile (· ≠ .punctuation '{')).reverse
  else none

def header? (code : String) : Option Header := headerOf? (tokens code)

end DistanceField.Glsl
