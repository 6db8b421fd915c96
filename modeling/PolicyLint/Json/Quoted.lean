/-
JSON strings.

`read` takes the text after the opening quote; `escape` writes a text so that it
reads back.  Written strings escape the quote, the backslash and the characters
below U+0020, and nothing else.
-/
import PolicyLint.Json.Number

namespace PolicyLint
namespace Json
namespace Quoted

/-- The value of a hexadecimal digit. -/
def hexValue (c : Char) : Option Nat :=
  if '0' ≤ c && c ≤ '9' then some (c.toNat - 48)
  else if 'a' ≤ c && c ≤ 'f' then some (c.toNat - 87)
  else if 'A' ≤ c && c ≤ 'F' then some (c.toNat - 55)
  else none

/-- Four hexadecimal digits.  The place of four bytes must be there before they
are looked at. -/
def unit (t : Text) : Read Nat :=
  match t with
  | a :: b :: c :: d :: rest =>
    match hexValue a, hexValue b, hexValue c, hexValue d with
    | some a, some b, some c, some d => .ok (((a * 16 + b) * 16 + c) * 16 + d, rest)
    | _, _, _, _ => .error ⟨.invalidEscape, t, 4⟩
  | _ =>
    if t.byteLength < 4 then .error ⟨.endInString, t, 4⟩
    else .error ⟨.invalidEscape, t, 4⟩

def isLeading (u : Nat) : Bool :=
  0xD800 ≤ u && u ≤ 0xDBFF

def isTrailing (u : Nat) : Bool :=
  0xDC00 ≤ u && u ≤ 0xDFFF

/-- The character of a surrogate pair. -/
def pairChar (lead trail : Nat) : Char :=
  Char.ofNat ((lead - 0xD800) * 0x400 + (trail - 0xDC00) + 0x10000)

/-- The second half of a surrogate pair, which has to be an escape too. -/
def secondUnit (lead : Nat) : Text → Except Failure (Char × Text)
  | [] => failAt .endInString []
  | '\\' :: [] => failAt .endInString []
  | '\\' :: 'u' :: rest => do
    let (trail, rest) ← unit rest
    if isTrailing trail then .ok (pairChar lead trail, rest)
    else failBefore .loneSurrogate rest
  | '\\' :: rest => failAt .unfinishedSurrogatePair rest
  | rest => failAt .unfinishedSurrogatePair rest

/-- The character that an escape stands for, after its backslash. -/
def escaped : Text → Except Failure (Char × Text)
  | [] => failAt .endInString []
  | '"' :: rest => .ok ('"', rest)
  | '\\' :: rest => .ok ('\\', rest)
  | '/' :: rest => .ok ('/', rest)
  | 'b' :: rest => .ok ('\x08', rest)
  | 'f' :: rest => .ok ('\x0c', rest)
  | 'n' :: rest => .ok ('\n', rest)
  | 'r' :: rest => .ok ('\r', rest)
  | 't' :: rest => .ok ('\t', rest)
  | 'u' :: rest => do
    let (u, rest) ← unit rest
    if isTrailing u then failBefore .loneSurrogate rest
    else if isLeading u then secondUnit u rest
    else .ok (Char.ofNat u, rest)
  | rest => failAt .invalidEscape rest

/-- The string up to its closing quote; `done` is what has been read, back to
front.  Each round uses up a character, so the text itself bounds the rounds. -/
def collect (done : Text) : (fuel : Text) → Text → Read Text
  | _, [] => failAt .endInString []
  | [], rest => failAt .endInString rest
  | _ :: fuel, c :: rest =>
    if c = '"' then .ok (done.reverse, rest)
    else if c = '\\' then
      match escaped rest with
      | .error f => .error f
      | .ok (e, rest) => collect (e :: done) fuel rest
    else if c.toNat < 0x20 then failAt .controlCharacter (c :: rest)
    else collect (c :: done) fuel rest

/-- A string, after its opening quote. -/
def read (t : Text) : Read Text :=
  collect [] t t

/-- A hexadecimal digit in lower case. -/
def hexDigit (n : Nat) : Char :=
  Nat.digitChar n

/-- How a character is written inside a string. -/
def escapeChar (c : Char) : Text :=
  if c = '"' then ['\\', '"']
  else if c = '\\' then ['\\', '\\']
  else if c = '\x08' then ['\\', 'b']
  else if c = '\x0c' then ['\\', 'f']
  else if c = '\n' then ['\\', 'n']
  else if c = '\r' then ['\\', 'r']
  else if c = '\t' then ['\\', 't']
  else if c.toNat < 0x20 then
    ['\\', 'u', '0', '0', hexDigit (c.toNat / 16), hexDigit (c.toNat % 16)]
  else [c]

def escape (t : Text) : Text :=
  (t.map escapeChar).flatten

/-- The string literal that reads back as `t`. -/
def write (t : Text) : Text :=
  '"' :: escape t ++ ['"']

end Quoted
end Json
end PolicyLint
