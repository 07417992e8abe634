/-!
# Tokens of shading code

A source text is cut into identifiers, numbers and single punctuation characters. Blanks, comments
and directives stand between tokens and leave no trace, except that a directive is recognised only
where no token precedes it on its line. Identifiers and numbers are ASCII; every other character is
punctuation of its own.
-/

namespace DistanceField.Glsl

inductive Token where
  | identifier (text : String)
  | number (text : String)
  | punctuation (char : Char)
  deriving DecidableEq, Repr

namespace Token

def chars : Token → List Char
  | identifier text => text.toList
  | number text => text.toList
  | punctuation char => [char]

def text (token : Token) : String := .ofList token.chars

end Token

def startsIdentifier (c : Char) : Bool := c.isAlpha || c = '_'

def continuesIdentifier (c : Char) : Bool := c.isAlphanum || c = '_'

/-- Whether `c`, standing right after `previous`, continues a number: a sign does so only after the
letter of an exponent. -/
def continuesNumber (previous c : Char) : Bool :=
  c.isAlphanum || c = '.' || ((c = '+' || c = '-') && (previous = 'e' || previous = 'E'))

/-- The longest continuation of a number whose last character is `previous`, and the rest. -/
def numberTail (previous : Char) : List Char → List Char × List Char
  | [] => ([], [])
  | c :: rest =>
    if continuesNumber previous c then
      let (tail, after) := numberTail c rest
      (c :: tail, after)
    else ([], c :: rest)

def startsNumber (c : Char) (rest : List Char) : Bool :=
  c.isDigit || (c = '.' && rest.head?.any Char.isDigit)

/-- What follows a line comment or a directive: the text from the next line feed on. -/
def dropLine (text : List Char) : List Char := text.dropWhile (· ≠ '\n')

/-- What follows a block comment whose opening has been read, and whether a line starts there: a
comment that spans a line feed leaves the following text at a line start. A comment that nothing
closes takes the whole text. -/
def dropBlock (lineStart : Bool) : List Char → Bool × List Char
  | [] => (lineStart, [])
  | '*' :: '/' :: rest => (lineStart, rest)
  | c :: rest => dropBlock (lineStart || c = '\n') rest

theorem numberTail_append (previous : Char) (text : List Char) :
    (numberTail previous text).1 ++ (numberTail previous text).2 = text := by
  induction text generalizing previous with
  | nil => rfl
  | cons c rest ih => by_cases h : continuesNumber previous c <;> simp [numberTail, h, ih]

theorem length_numberTail_le (previous : Char) (text : List Char) :
    (numberTail previous text).2.length ≤ text.length := by
  conv => rhs; rw [← numberTail_append previous text]
  simp

theorem length_dropWhile_le {α : Type} (p : α → Bool) (xs : List α) :
    (xs.dropWhile p).length ≤ xs.length := (List.dropWhile_sublist p).length_le

theorem length_dropBlock_le (lineStart : Bool) (text : List Char) :
    (dropBlock lineStart text).2.length ≤ text.length := by
  fun_induction dropBlock lineStart text with
  | case1 => simp
  | case2 => simp; omega
  | case3 _ _ _ _ ih => simp; omega

/-- What the first character of a text leads to: the token it begins, if it begins one, whether
what follows stands at a line start, and the text that follows. -/
structure Scan where
  token : Option Token
  lineStart : Bool
  rest : List Char

/-- Reads the blank, comment, directive or token that begins with `c`; `lineStart` tells whether no
token precedes it on its line. -/
def scan (lineStart : Bool) (c : Char) (rest : List Char) : Scan :=
  if c = '\n' then ⟨none, true, rest⟩
  else if c = ' ' ∨ c = '\t' ∨ c = '\r' then ⟨none, lineStart, rest⟩
  -- A directive: nothing but blanks and comments stands before it on its line.
  else if c = '#' ∧ lineStart then ⟨none, true, dropLine rest⟩
  else if c = '/' ∧ rest.head? = some '/' then ⟨none, lineStart, dropLine rest⟩
  else if c = '/' ∧ rest.head? = some '*' then
    ⟨none, (dropBlock lineStart rest.tail).1, (dropBlock lineStart rest.tail).2⟩
  else if startsIdentifier c then
    ⟨some (.identifier (.ofList (c :: rest.takeWhile continuesIdentifier))), false,
      rest.dropWhile continuesIdentifier⟩
  else if startsNumber c rest then
    ⟨some (.number (.ofList (c :: (numberTail c rest).1))), false, (numberTail c rest).2⟩
  else ⟨some (.punctuation c), false, rest⟩

theorem length_scan_le (lineStart : Bool) (c : Char) (rest : List Char) :
    (scan lineStart c rest).rest.length ≤ rest.length := by
  unfold scan dropLine
  repeat' split
  all_goals first
    | exact Nat.le_refl _
    | exact length_dropWhile_le _ _
    | exact length_numberTail_le _ _
    | exact Nat.le_trans (length_dropBlock_le _ _) (by simp)

def tokensFrom (lineStart : Bool) : List Char → List Token
  | [] => []
  | c :: rest =>
    let next := scan lineStart c rest
    next.token.toList ++ tokensFrom next.lineStart next.rest
termination_by text => text.length
decreasing_by exact Nat.lt_succ_of_le (length_scan_le lineStart c rest)

def tokens (source : String) : List Token := tokensFrom true source.toList

@[simp] theorem tokensFrom_nil (lineStart : Bool) : tokensFrom lineStart [] = [] := by
  rw [tokensFrom]

theorem tokensFrom_cons (lineStart : Bool) (c : Char) (rest : List Char) :
    tokensFrom lineStart (c :: rest) = (scan lineStart c rest).token.toList ++
      tokensFrom (scan lineStart c rest).lineStart (scan lineStart c rest).rest := by
  rw [tokensFrom]

end DistanceField.Glsl
