/-!
# Blank characters

The characters with the Unicode property `White_Space`. It is a fixed set of 25 code points,
larger than the six ASCII blanks: the no-break space and the ideographic space belong to it, the
zero-width space does not.
-/

namespace DistanceField.Text

/-- The code points with the property `White_Space`, as ranges with both ends included. -/
def blankRanges : List (Nat × Nat) :=
  [(0x09, 0x0D), (0x20, 0x20), (0x85, 0x85), (0xA0, 0xA0), (0x1680, 0x1680), (0x2000, 0x200A),
    (0x2028, 0x2029), (0x202F, 0x202F), (0x205F, 0x205F), (0x3000, 0x3000)]

def isBlank (c : Char) : Bool := blankRanges.any fun range => range.1 ≤ c.toNat && c.toNat ≤ range.2

/-- The characters up to the last one that is not blank. -/
def dropBlankEnd (text : List Char) : List Char := (text.reverse.dropWhile isBlank).reverse

def trimEnd (text : String) : String := .ofList (dropBlankEnd text.toList)

example : (blankRanges.map fun range => range.2 + 1 - range.1).sum = 25 := by decide

@[simp] theorem toList_trimEnd (text : String) :
    (trimEnd text).toList = dropBlankEnd text.toList := by
  simp [trimEnd]

theorem exists_dropBlankEnd_append (text : List Char) :
    ∃ blanks : List Char, blanks.all isBlank ∧ dropBlankEnd text ++ blanks = text := by
  refine ⟨(text.reverse.takeWhile isBlank).reverse, by simp, ?_⟩
  rw [dropBlankEnd, ← List.reverse_append, List.takeWhile_append_dropWhile, List.reverse_reverse]

end DistanceField.Text
