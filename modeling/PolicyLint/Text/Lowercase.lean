/-
Lower case, as far as ASCII words can tell.

Info strings are lowercased only to be compared with ASCII words.  Besides `A`
to `Z` two characters have a lower case form with an ASCII letter in it: the
Kelvin sign U+212A, which becomes `k`, and U+0130, which becomes `i` followed by
a combining dot.  Every other character lowers to characters outside ASCII and
is left as it is.
-/
import PolicyLint.Text.Basic

namespace PolicyLint
namespace Text

def lowerChar (c : Char) : Text :=
  if c = '\u212A' then ['k']
  else if c = '\u0130' then ['i', '\u0307']
  else [c.toLower]

def lower (t : Text) : Text :=
  (t.map lowerChar).flatten

end Text
end PolicyLint
