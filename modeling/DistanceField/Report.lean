import DistanceField.Text.Lines

/-!
# Reports of failures

A failure is told as a chain of causes, the outermost first: each one explains the one before it.
-/

namespace DistanceField

inductive Cause where
  | message (text : String)
  /-- A text is not of its format; nothing is told about the place or the reason. -/
  | badFormat
  deriving DecidableEq

def Cause.text : Cause → String
  | message text => text
  | badFormat => "the text is not of the expected form"

/-- A chain of causes, the outermost first. -/
abbrev Report := List Cause

namespace Report

def indentLines (indent : String) (text : String) : String :=
  .ofList (text.toList.flatMap fun c => if c = '\n' then '\n' :: indent.toList else [c])

/-- The causes below the outermost one, each in lines of its own, the first with number `number`. -/
def numbered (number : Nat) : List Cause → String
  | [] => ""
  | cause :: causes =>
    "\n" ++ Text.padLeft 5 (toString number) ++ ": " ++ indentLines "       " cause.text ++
      numbered (number + 1) causes

/-- The report as it is shown to a user. Causes have numbers if there are several below the
outermost one. -/
def text : Report → String
  | [] => ""
  | [cause] => "Error: " ++ cause.text
  | [outer, cause] =>
    "Error: " ++ outer.text ++ "\n\nCaused by:\n    " ++ indentLines "    " cause.text
  | outer :: causes => "Error: " ++ outer.text ++ "\n\nCaused by:" ++ numbered 0 causes

end Report

end DistanceField
