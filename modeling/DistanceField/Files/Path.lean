import DistanceField.Text.Pieces

/-!
# Paths

A path is a text with slashes between names. The functions here work on the text alone and keep it
as it was written where they can, since it is shown in messages.
-/

namespace DistanceField.Path
open Text

def isAbsolute (path : String) : Bool := path.toList.head? = some '/'

def parts (path : String) : List String := (pieces (· = '/') path.toList).map String.ofList

def ofParts (parts : List String) : String := "/".intercalate parts

/-- The path of a file named relative to a directory. The empty path adds nothing. -/
def join (base file : String) : String :=
  if base.isEmpty ∨ base.toList.getLast? = some '/' then base ++ file else base ++ "/" ++ file

def dropIdleEnd (parts : List String) : List String :=
  (parts.reverse.dropWhile fun part => part = "" ∨ part = ".").reverse

/-- The path of the directory that holds what a path names: the path without its last part and
without what leads nowhere before that. A single name lies in the empty path; the empty path and the
top lie nowhere. -/
def parent? (path : String) : Option String :=
  match parts path with
  | [] => none
  | first :: rest =>
    let rest := dropIdleEnd rest
    if first = "" then
      if rest = [] then none else some ("/" ++ ofParts (dropIdleEnd rest.dropLast))
    else if rest = [] then some ""
    else some (ofParts (first :: dropIdleEnd rest.dropLast))

end DistanceField.Path
