/-!
# White space

The characters with the Unicode property White_Space, and the removal of such
characters from both ends of a text.
-/

namespace CopperRoute.Text

/-- The first and the last character of each block of white space. -/
def blankBlocks : List (Nat × Nat) := [
    (0x9, 0xD), (0x20, 0x20), (0x85, 0x85), (0xA0, 0xA0), (0x1680, 0x1680), (0x2000, 0x200A),
    (0x2028, 0x2029), (0x202F, 0x202F), (0x205F, 0x205F), (0x3000, 0x3000)]

def isBlank (c : Char) : Bool :=
  blankBlocks.any fun b => b.1 ≤ c.toNat && c.toNat ≤ b.2

/-- The text without white space at either end. -/
def trim (cs : List Char) : List Char :=
  ((cs.dropWhile isBlank).reverse.dropWhile isBlank).reverse

end CopperRoute.Text
