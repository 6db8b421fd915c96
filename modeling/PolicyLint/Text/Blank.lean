/-
White space and trimming.

`isBlank` is the Unicode property White_Space: twenty-five characters in ten
ranges.  The zero-width characters U+200B and U+FEFF and the separators U+001C
to U+001F are not in it.
-/
import PolicyLint.Text.Basic

namespace PolicyLint
namespace Text

/-- The ranges of the Unicode property White_Space, ends included. -/
def blankRanges : List (Nat × Nat) :=
  [(0x09, 0x0D), (0x20, 0x20), (0x85, 0x85), (0xA0, 0xA0), (0x1680, 0x1680),
   (0x2000, 0x200A), (0x2028, 0x2029), (0x202F, 0x202F), (0x205F, 0x205F),
   (0x3000, 0x3000)]

def isBlank (c : Char) : Bool :=
  blankRanges.any fun r => r.1 ≤ c.toNat && c.toNat ≤ r.2

def trimStart (t : Text) : Text :=
  t.dropWhile isBlank

def trimEnd (t : Text) : Text :=
  (t.reverse.dropWhile isBlank).reverse

/-- The text without the white space at its two ends. -/
def trim (t : Text) : Text :=
  trimEnd (trimStart t)

end Text
end PolicyLint
