/-!
# Faults of files

Why a file cannot be read or written, in the words of the operating system.
-/

namespace DistanceField

inductive FileFault where
  | notFound
  | notDirectory
  | isDirectory
  | nameTooLong
  | accessDenied
  /-- The path contains a NUL character, which no path can. -/
  | nulInPath
  /-- The content is not UTF-8. -/
  | notText
  | other (text : String)
  deriving DecidableEq

def FileFault.message : FileFault → String
  | notFound => "No such file or directory (os error 2)"
  | notDirectory => "Not a directory (os error 20)"
  | isDirectory => "Is a directory (os error 21)"
  | nameTooLong => "File name too long (os error 36)"
  | accessDenied => "Permission denied (os error 13)"
  | nulInPath => "file name contained an unexpected NUL byte"
  | notText => "stream did not contain valid UTF-8"
  | other text => text

abbrev FileReader (m : Type → Type) := String → m (Except FileFault ByteArray)

def textOf (bytes : ByteArray) : Except FileFault String :=
  match String.fromUTF8? bytes with
  | some text => .ok text
  | none => .error .notText

def readText {m : Type → Type} [Monad m] (read : FileReader m) (path : String) :
    ExceptT FileFault m String := .mk do
  return (← read path) >>= textOf

end DistanceField
