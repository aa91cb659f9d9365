/-!
# Blank characters

The characters with the property `White_Space`, which is wider than the four blanks
that may stand between JSON tokens.
-/

namespace TicketPool.Blank

/-- The ranges of blank characters, both ends included. -/
def ranges : List (Nat × Nat) :=
  [(0x09, 0x0D), (0x20, 0x20), (0x85, 0x85), (0xA0, 0xA0), (0x1680, 0x1680),
    (0x2000, 0x200A), (0x2028, 0x2029), (0x202F, 0x202F), (0x205F, 0x205F),
    (0x3000, 0x3000)]

def isBlank (c : Char) : Bool :=
  ranges.any fun (first, last) ↦ first ≤ c.toNat && c.toNat ≤ last

/-- The text from its first character that is not blank on. -/
def skip (text : List Char) : List Char :=
  text.dropWhile isBlank

example : (ranges.map fun (first, last) ↦ last + 1 - first).sum = 25 := rfl

end TicketPool.Blank
