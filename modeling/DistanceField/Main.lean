import DistanceField.CommandLine

/-!
# The program

The command line on the files of the operating system.
-/

namespace DistanceField.CommandLine

/-- The fault behind a failure of the operating system. A path is the only argument there is, so an
argument that is not valid is a path that is too long. -/
def faultOf : IO.Error → FileFault
  | .noFileOrDirectory .. => .notFound
  | .noSuchThing .. => .notFound
  | .inappropriateType _ 21 _ => .isDirectory
  | .inappropriateType .. => .notDirectory
  | .invalidArgument .. => .nameTooLong
  | .permissionDenied .. => .accessDenied
  | error => .other (toString error)

def readFile (path : String) : IO (Except FileFault ByteArray) := do
  if '\x00' ∈ path.toList then return .error .nulInPath
  try
    return .ok (← IO.FS.readBinFile path)
  catch error => return .error (faultOf error)

def writeFile (path text : String) : IO (Except FileFault Unit) := do
  if '\x00' ∈ path.toList then return .error .nulInPath
  try
    IO.FS.writeFile path text
    return .ok ()
  catch error => return .error (faultOf error)

def process : System IO where
  read := readFile
  write := writeFile
  print := IO.print
  complain := IO.eprint

end DistanceField.CommandLine

open DistanceField CommandLine in
def main (arguments : List String) : IO UInt32 := program process arguments
