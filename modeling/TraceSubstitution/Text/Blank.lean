/-!
# Blank characters

`isBlank` is the white space of the Unicode standard, twenty-five characters in
all. `trim` removes them from both ends of a text. Words that stand for settings
are compared without regard to the case of ASCII letters only.
-/

namespace TraceSubstitution

/-- The code points of the blank characters, as ranges with both ends included. -/
def blankRanges : List (Nat × Nat) :=
  [(0x9, 0xd), (0x20, 0x20), (0x85, 0x85), (0xa0, 0xa0), (0x1680, 0x1680), (0x2000, 0x200a),
    (0x2028, 0x2029), (0x202f, 0x202f), (0x205f, 0x205f), (0x3000, 0x3000)]

/-- Whether a character is white space. -/
def isBlank (c : Char) : Bool :=
  blankRanges.any fun (first, last) => first ≤ c.toNat && c.toNat ≤ last

/-- A list of characters without the blank ones at its ends. -/
def trimList (cs : List Char) : List Char :=
  ((cs.dropWhile isBlank).reverse.dropWhile isBlank).reverse

/-- A text without the blank characters at its ends. -/
def trim (s : String) : String := String.ofList (trimList s.toList)

/-- Equality up to the case of ASCII letters. -/
def sameWord (s t : String) : Bool := s.toList.map Char.toLower = t.toList.map Char.toLower

end TraceSubstitution
