/-
Bytes.

Names of files, paths and arguments are bytes.  Most of them are texts in UTF-8, but
nothing makes them so: who shows them to a reader puts a mark where there is no text.
-/
import PolicyLint.Text.Utf8

namespace PolicyLint

/-- Bytes, one after the other. -/
abbrev Bytes := List UInt8

namespace Text

/-- The bytes of a text in UTF-8. -/
def utf8 (t : Text) : Bytes :=
  t.flatMap String.utf8EncodeChar

end Text

namespace Bytes

/-- The bytes of a literal. -/
def of (s : String) : Bytes :=
  s.toByteArray.data.toList

/-- The text that the bytes are, if they are one. -/
def text? (b : Bytes) : Option Text :=
  Text.ofUtf8? b.toByteArray

/-- The character that stands first.  None takes more than four bytes. -/
def first? (b : Bytes) : Option Char :=
  (b.take 4).toByteArray.utf8DecodeChar? 0

/-- True for a byte that goes on with a character. -/
def isInner (b : UInt8) : Bool :=
  0x80 ≤ b && b ≤ 0xBF

/-- True when a character may begin with the two bytes. -/
def mayBegin (first second : UInt8) : Bool :=
  isInner second &&
    if first = 0xE0 then 0xA0 ≤ second
    else if first = 0xED then second ≤ 0x9F
    else if first = 0xF0 then 0x90 ≤ second
    else if first = 0xF4 then second ≤ 0x8F
    else 0xC2 ≤ first && first ≤ 0xF3

/-- How many of the bytes behind a byte are shown together with it where no character
stands: as many as could go on with one. -/
def strays (first : UInt8) : Bytes → Nat
  | second :: third :: _ =>
    if mayBegin first second then if 0xF0 ≤ first && isInner third then 2 else 1 else 0
  | [second] => if mayBegin first second then 1 else 0
  | [] => 0

/-- What is shown where there is no text. -/
def replacement : Char := '\ufffd'

/-- The bytes as a reader sees them. -/
def shown (b : Bytes) : Text :=
  go 0 b
where
  /-- `n` of the bytes belong to what has been shown already. -/
  go : (n : Nat) → Bytes → Text
    | _, [] => []
    | n + 1, _ :: rest => go n rest
    | 0, b :: rest =>
      match first? (b :: rest) with
      | some c => c :: go (c.utf8Size - 1) rest
      | none => replacement :: go (strays b rest) rest

/-- Strictly earlier, byte by byte. -/
def before : Bytes → Bytes → Bool
  | _, [] => false
  | [], _ :: _ => true
  | a :: as, b :: bs => a < b || (a == b && before as bs)

end Bytes
end PolicyLint
