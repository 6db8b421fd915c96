/-
Base64, as binary scalars are written.

White space between the digits is ignored.  The digits come in groups of four;
the last group may hold fewer and is then filled with equals signs, and the bits
that no byte uses must be zero.
-/
import PolicyLint.Text.Utf8

namespace PolicyLint
namespace Yaml
namespace Base64

/-- The six bits of a digit. -/
def digit (c : Char) : Option Nat :=
  if 'A' ≤ c && c ≤ 'Z' then some (c.toNat - 65)
  else if 'a' ≤ c && c ≤ 'z' then some (c.toNat - 71)
  else if '0' ≤ c && c ≤ '9' then some (c.toNat + 4)
  else if c = '+' then some 62
  else if c = '/' then some 63
  else none

def isSpace (c : Char) : Bool :=
  c = ' ' || c = '\t' || c = '\n' || c = '\x0c' || c = '\r'

/-- The bytes of the groups; `done` is back to front. -/
def groups (done : List Nat) : Text → Option (List Nat)
  | [] => some done.reverse
  | [a, b, '=', '='] => do
    let a ← digit a
    let b ← digit b
    if b % 16 = 0 then some ((a * 4 + b / 16) :: done).reverse else none
  | [a, b, c, '='] => do
    let a ← digit a
    let b ← digit b
    let c ← digit c
    if c % 4 = 0 then some ((b % 16 * 16 + c / 4) :: (a * 4 + b / 16) :: done).reverse
    else none
  | a :: b :: c :: d :: rest => do
    let a ← digit a
    let b ← digit b
    let c ← digit c
    let d ← digit d
    groups ((c % 4 * 64 + d) :: (b % 16 * 16 + c / 4) :: (a * 4 + b / 16) :: done) rest
  | _ => none

/-- The bytes that a text stands for. -/
def decode (t : Text) : Option ByteArray :=
  (groups [] (t.filter (!isSpace ·))).map fun bytes =>
    ⟨(bytes.map UInt8.ofNat).toArray⟩

end Base64
end Yaml
end PolicyLint
