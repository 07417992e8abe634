import DistanceField.Files.Fault
import DistanceField.Files.Path

/-!
# File trees

A file tree is a value that stands for the files below one top directory. Reading and writing
follow a path name by name: a name is looked up in a directory only, so what stands before a slash
has to be one, even before a part that leads nowhere.
-/

namespace DistanceField

-- Byte arrays are compared by the built-in equality, also where there is another one.
attribute [local instance (high)] ByteArray.instDecidableEq

inductive FileEntry where
  | file (content : ByteArray)
  | directory
  deriving DecidableEq

/-- The entries of a file tree. A place is given by the names from the top on; the top is always a
directory. Relative paths start at `current`. -/
structure FileTree where
  entries : List (List String × FileEntry)
  current : List String

namespace FileTree

def entry? (tree : FileTree) (place : List String) : Option FileEntry :=
  if place = [] then some .directory else tree.entries.lookup place

def set (tree : FileTree) (place : List String) (entry : FileEntry) : FileTree :=
  { tree with entries := (place, entry) :: tree.entries.filter (·.1 ≠ place) }

def maxName : Nat := 255

def maxPath : Nat := 4095

/-- The place that a part of a path leads to from a directory. -/
def step (place : List String) (part : String) : Except FileFault (List String) :=
  if part = "" ∨ part = "." then .ok place
  else if part = ".." then .ok place.dropLast
  else if maxName < part.utf8ByteSize then .error .nameTooLong
  else .ok (place ++ [part])

def checkDirectory (tree : FileTree) (place : List String) : Except FileFault Unit :=
  match tree.entry? place with
  | some .directory => .ok ()
  | some (.file _) => .error .notDirectory
  | none => .error .notFound

def walk (tree : FileTree) (place : List String) : List String → Except FileFault (List String)
  | [] => .ok place
  | part :: parts => do
    tree.checkDirectory place
    tree.walk (← step place part) parts

def checkPath (path : String) : Except FileFault Unit :=
  if '\x00' ∈ path.toList then .error .nulInPath
  else if path.isEmpty then .error .notFound
  else if maxPath < path.utf8ByteSize then .error .nameTooLong
  else .ok ()

def start (tree : FileTree) (path : String) : List String :=
  if Path.isAbsolute path then [] else tree.current

def read (tree : FileTree) (path : String) : Except FileFault ByteArray := do
  checkPath path
  let place ← tree.walk (tree.start path) (Path.parts path)
  match tree.entry? place with
  | some (.file content) => return content
  | some .directory => throw .isDirectory
  | none => throw .notFound

/-- The tree with a new content of the file that a path names. The file need not exist, but the
directory does. A path that ends with a slash or with a part that is no name can only name a
directory. -/
def write (tree : FileTree) (path : String) (content : ByteArray) : Except FileFault FileTree := do
  checkPath path
  let parts := Path.parts path
  let named := (parts.reverse.dropWhile (· = "")).reverse
  let some last := named.getLast? | throw .isDirectory
  let directory ← tree.walk (tree.start path) named.dropLast
  tree.checkDirectory directory
  if named.length < parts.length ∨ last = "." ∨ last = ".." then throw .isDirectory
  let place ← step directory last
  if tree.entry? place = some .directory then throw .isDirectory
  return tree.set place (.file content)

/-- The tree with a directory at every place that the parts of a path lead through and where nothing
stands. -/
def makeWay (tree : FileTree) (place : List String) : List String → Except FileFault FileTree
  | [] => do
    tree.checkDirectory place
    return tree
  | part :: parts => do
    tree.checkDirectory place
    let next ← step place part
    let tree := if tree.entry? next = none then tree.set next .directory else tree
    tree.makeWay next parts

def makeDirectories (tree : FileTree) (path : String) : Except FileFault FileTree :=
  tree.makeWay (tree.start path) (Path.parts path)

/-- The tree with a new content of the file that a path names and all directories on the way to
it. -/
def place (tree : FileTree) (path : String) (content : ByteArray) : Except FileFault FileTree := do
  let tree ← tree.makeDirectories ((Path.parent? path).getD "")
  tree.write path content

def files (tree : FileTree) : List (String × ByteArray) :=
  tree.entries.filterMap fun (place, entry) =>
    match entry with
    | .file content =>
      if tree.current.isPrefixOf place then
        some (Path.ofParts (place.drop tree.current.length), content)
      else none
    | .directory => none

end FileTree

end DistanceField
