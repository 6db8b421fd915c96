/-
Character classes of YAML.

The text of a document holds no U+0000: it ends before the first one.  So U+0000
stands for the end of the text wherever a next character is asked for.
-/
import PolicyLint.Text.Basic

namespace PolicyLint
namespace Yaml

def isEnd (c : Char) : Bool :=
  c = '\x00'

def isBreak (c : Char) : Bool :=
  c = '\n' || c = '\r'

def isBlank (c : Char) : Bool :=
  c = ' ' || c = '\t'

def isBreakOrEnd (c : Char) : Bool :=
  isBreak c || isEnd c

/-- What an indicator has to be followed by to count as one. -/
def isGap (c : Char) : Bool :=
  isBlank c || isBreakOrEnd c

/-- The characters that structure flow collections. -/
def isFlow (c : Char) : Bool :=
  c = ',' || c = '[' || c = ']' || c = '\x7b' || c = '\x7d'

/-- The characters of directive names and tag handles. -/
def isName (c : Char) : Bool :=
  c.isAlphanum || c = '_' || c = '-'

/-- The characters of anchor names. -/
def isAnchor (c : Char) : Bool :=
  !isGap c && !isFlow c && c ≠ '\uFEFF'

/-- The characters of tag URIs. -/
def isUri (c : Char) : Bool :=
  c.isAlphanum || c = '-' || "#;/?:@&=+$,_.!~*'()[]%".toList.contains c

/-- The characters of tag suffixes. -/
def isTag (c : Char) : Bool :=
  isUri c && !isFlow c && c ≠ '!'

/-- The value of a hexadecimal digit. -/
def hexValue (c : Char) : Option Nat :=
  if '0' ≤ c && c ≤ '9' then some (c.toNat - 48)
  else if 'a' ≤ c && c ≤ 'f' then some (c.toNat - 87)
  else if 'A' ≤ c && c ≤ 'F' then some (c.toNat - 55)
  else none

/-- The value of a run of hexadecimal digits. -/
def hexNumber (digits : Text) : Option Nat :=
  digits.foldl (fun n c => n.bind fun n => (hexValue c).map (16 * n + ·)) (some 0)

/-- The character with a given code point, if it is one. -/
def charOfCode (n : Nat) : Option Char :=
  if n.isValidChar then some (Char.ofNat n) else none

end Yaml
end PolicyLint
