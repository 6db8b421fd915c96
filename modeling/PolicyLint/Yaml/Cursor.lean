/-
A place in a document together with the text after it.
-/
import PolicyLint.Yaml.Character
import PolicyLint.Yaml.Fault

namespace PolicyLint
namespace Yaml

/-- The text ahead, the mark where it begins, and whether only white space
stands before the mark on its line. -/
structure Cursor where
  rest : Text
  mark : Mark
  fresh : Bool
deriving Repr

namespace Cursor

/-- A cursor before the first character of the text.  The text ends before the
first U+0000. -/
def ofText (t : Text) : Cursor :=
  ⟨t.takeWhile (!isEnd ·), Mark.start, true⟩

/-- The next character, U+0000 at the end. -/
def next (c : Cursor) : Char :=
  c.rest.headD '\x00'

/-- The character after the next one. -/
def second (c : Cursor) : Char :=
  c.rest.tail.headD '\x00'

def column (c : Cursor) : Nat :=
  c.mark.column

/-- Pass `n` characters of the line. -/
def pass (n : Nat) (c : Cursor) : Cursor :=
  { c with
    rest := c.rest.drop n
    mark := { c.mark with index := c.mark.index + n, column := c.mark.column + n } }

/-- Pass `n` characters of content: the line is no longer fresh. -/
def take (n : Nat) (c : Cursor) : Cursor :=
  { c.pass n with fresh := false }

/-- The run of characters in a class. -/
def run (p : Char → Bool) (c : Cursor) : Text :=
  c.rest.takeWhile p

/-- Pass the run of characters in a class, as white space is passed. -/
def passRun (p : Char → Bool) (c : Cursor) : Cursor :=
  c.pass (c.run p).length

/-- Pass a line break, if one is next.  A carriage return and a line feed
together are one. -/
def passBreak (c : Cursor) : Cursor :=
  match c.rest with
  | '\r' :: '\n' :: rest => ⟨rest, ⟨c.mark.index + 2, c.mark.line + 1, 0⟩, true⟩
  | '\r' :: rest => ⟨rest, ⟨c.mark.index + 1, c.mark.line + 1, 0⟩, true⟩
  | '\n' :: rest => ⟨rest, ⟨c.mark.index + 1, c.mark.line + 1, 0⟩, true⟩
  | _ => c

/-- True when the line goes on with three times `c` and then a gap. -/
def startsMarker (m : Char) (c : Cursor) : Bool :=
  match c.rest with
  | x :: y :: z :: rest => x = m && y = m && z = m && isGap (rest.headD '\x00')
  | _ => false

/-- True at the characters of a document start marker. -/
def atDocumentStart (c : Cursor) : Bool :=
  c.startsMarker '-'

/-- True at the characters of a document end marker. -/
def atDocumentEnd (c : Cursor) : Bool :=
  c.startsMarker '.'

def atDocumentMarker (c : Cursor) : Bool :=
  c.atDocumentStart || c.atDocumentEnd

/-- The white space passed on the way to the end of a line. -/
structure Passed where
  tab : Bool
  space : Bool
deriving Repr

/-- Pass blanks, then a comment if there is one.  A comment must have a blank
before it.  Tabs count as blanks only if `tabs` says so. -/
def passLine (tabs : Bool) (c : Cursor) : Except Fault (Passed × Cursor) :=
  let blanks := c.run fun x => x = ' ' || (tabs && x = '\t')
  let c := c.pass blanks.length
  let passed : Passed := ⟨blanks.contains '\t', blanks.contains ' '⟩
  if c.next = '#' then
    if blanks.isEmpty then fail .commentNotSeparated c.mark
    else .ok (passed, c.passRun (!isBreakOrEnd ·))
  else .ok (passed, c)

/-- Pass blanks and a comment, whatever they are. -/
def toLineEnd (c : Cursor) : Except Fault Cursor :=
  (c.passLine true).map (·.2)

end Cursor
end Yaml
end PolicyLint
