/-
Why a text is not a JSON document, and where.

A failure remembers what is left of the text, so that a reader never counts
lines.  The position is worked out afterwards, from the whole text.
-/
import PolicyLint.Text.Basic

namespace PolicyLint
namespace Json

inductive Cause where
  | endInValue
  | endInString
  | endInList
  | endInObject
  | expectedValue
  | expectedIdent
  | expectedListSeparator
  | expectedObjectSeparator
  | expectedColon
  | keyNotString
  | trailingComma
  | trailingCharacters
  | invalidNumber
  | numberOutOfRange
  | invalidEscape
  | loneSurrogate
  | unfinishedSurrogatePair
  | controlCharacter
  | tooDeep
deriving DecidableEq, Repr

namespace Cause

def message : Cause → String
  | endInValue => "EOF while parsing a value"
  | endInString => "EOF while parsing a string"
  | endInList => "EOF while parsing a list"
  | endInObject => "EOF while parsing an object"
  | expectedValue => "expected value"
  | expectedIdent => "expected ident"
  | expectedListSeparator => "expected `,` or `]`"
  | expectedObjectSeparator => "expected `,` or `\x7d`"
  | expectedColon => "expected `:`"
  | keyNotString => "key must be a string"
  | trailingComma => "trailing comma"
  | trailingCharacters => "trailing characters"
  | invalidNumber => "invalid number"
  | numberOutOfRange => "number out of range"
  | invalidEscape => "invalid escape"
  | loneSurrogate => "lone leading surrogate in hex escape"
  | unfinishedSurrogatePair => "unexpected end of hex escape"
  | controlCharacter => "control character (\\u0000-\\u001F) found while parsing a string"
  | tooDeep => "recursion limit exceeded"

end Cause

/-- A failure at `rest`.  `ahead` counts the bytes of `rest` that had been looked
at: none when what came before is at fault, one for an offending character. -/
structure Failure where
  cause : Cause
  rest : Text
  ahead : Nat
deriving DecidableEq, Repr

/-- Line and column, both in bytes' terms: lines count from one, and the column
is the number of bytes of that line that have been used up. -/
structure Position where
  line : Nat
  column : Nat
deriving DecidableEq, Repr

namespace Position

/-- The position `n` bytes into the text.  An `n` that falls inside a character
counts the bytes of it that it covers; one past the end stops at the end. -/
def ofByte (n : Nat) (t : Text) : Position :=
  go 1 0 n t
where
  go (line column n : Nat) : Text → Position
    | [] => ⟨line, column⟩
    | c :: rest =>
      if n < c.utf8Size then ⟨line, column + n⟩
      else if c = '\n' then go (line + 1) 0 (n - 1) rest
      else go line (column + c.utf8Size) (n - c.utf8Size) rest

end Position

namespace Failure

/-- Where the failure is in the whole text `t`. -/
def position (t : Text) (f : Failure) : Position :=
  Position.ofByte (t.byteLength - f.rest.byteLength + f.ahead) t

def message (t : Text) (f : Failure) : Text :=
  let p := f.position t
  f.cause.message.toList ++ " at line ".toList ++ Text.numeral p.line
    ++ " column ".toList ++ Text.numeral p.column

end Failure
end Json
end PolicyLint
