/-!
# White space

The twenty-five characters that carry the Unicode property `White_Space`, and the texts made of
nothing else.
-/

namespace LinkedSchema.Text

/-- The ranges of code points with the property `White_Space`, ends included. -/
def blankRanges : List (Nat × Nat) :=
  [(0x9, 0xD), (0x20, 0x20), (0x85, 0x85), (0xA0, 0xA0), (0x1680, 0x1680), (0x2000, 0x200A),
   (0x2028, 0x2029), (0x202F, 0x202F), (0x205F, 0x205F), (0x3000, 0x3000)]

/-- A character is blank when it has the Unicode property `White_Space`. -/
def isBlank (c : Char) : Bool :=
  blankRanges.any fun range => range.1 ≤ c.toNat && c.toNat ≤ range.2

/-- A text is blank when every character of it is; the empty text is. -/
def isBlankText (s : String) : Bool :=
  s.toList.all isBlank

example : (blankRanges.map fun range => range.2 + 1 - range.1).sum = 25 := by decide

end LinkedSchema.Text
