/-!
# Lines

A text is cut after each line feed. A line ended by a line feed loses it and one carriage return
right before it; a last line that nothing ends is kept as it is, unless it is empty.
-/

namespace DistanceField.Text

/-- A line without the one carriage return that may stand at its end. -/
def dropReturn (line : List Char) : List Char :=
  if line.getLast? = some '\r' then line.dropLast else line

/-- The lines of a text; `current` holds the characters of the open line, last first. -/
def linesFrom (current : List Char) : List Char → List (List Char)
  | [] => if current.isEmpty then [] else [current.reverse]
  | '\n' :: rest => dropReturn current.reverse :: linesFrom [] rest
  | c :: rest => linesFrom (c :: current) rest

def lines (text : String) : List String := (linesFrom [] text.toList).map String.ofList

def padLeft (width : Nat) (text : String) : String :=
  String.ofList (List.replicate (width - text.length) ' ') ++ text

/-- One listed line: its number in at least four columns, a bar and the line. -/
def numberedLine (number : Nat) (line : String) : String :=
  padLeft 4 (toString number) ++ " | " ++ line ++ "\n"

def numberedFrom (start : Nat) : List String → String
  | [] => ""
  | line :: rest => numberedLine start line ++ numberedFrom (start + 1) rest

end DistanceField.Text
