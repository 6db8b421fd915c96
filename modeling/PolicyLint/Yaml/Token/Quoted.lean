/-
Quoted scalars.

A line break inside a quoted scalar folds: one break becomes a space, further
ones stay.  Blanks around a break are dropped.
-/
import PolicyLint.Yaml.Token.Name

namespace PolicyLint
namespace Yaml

/-- White space between two words of a scalar.  `blanks` are those on the line of
the first word, back to front; `broken` tells whether the line ended there, and
`extra` counts the line breaks after that one.  `started` says that the second
word begins a line. -/
structure Fold where
  blanks : Text
  started : Bool
  broken : Bool
  extra : Nat
deriving Repr

namespace Fold

/-- Nothing passed yet, at the beginning of a line or within one. -/
def empty (started : Bool) : Fold := ⟨[], started, false, 0⟩

def blank (x : Char) (g : Fold) : Fold :=
  { g with blanks := x :: g.blanks }

/-- A line break: the first one may fold into a space. -/
def lineBreak (g : Fold) : Fold :=
  if g.started then { g with extra := g.extra + 1 } else ⟨[], true, true, 0⟩

/-- What the white space reads as, back to front. -/
def text (g : Fold) : Text :=
  if !g.started then g.blanks
  else if g.broken && g.extra = 0 then [' ']
  else List.replicate g.extra '\n'

/-- Pass blanks and line breaks.  `tab` decides about a tab at the beginning of a
line, left of column `indent`. -/
def read (indent : Int) (tab : Cursor → Except Fault Cursor) (g : Fold) :
    (fuel : Text) → Cursor → Except Fault (Fold × Cursor)
  | [], c => .ok (g, c)
  | _ :: fuel, c =>
    if isBlank c.next then
      if !g.started then read indent tab (g.blank c.next) fuel (c.pass 1)
      else if c.next = '\t' && (c.column : Int) < indent then do
        let c ← tab c
        read indent tab g fuel c
      else read indent tab g fuel (c.pass 1)
    else if isBreak c.next then read indent tab g.lineBreak fuel c.passBreak
    else .ok (g, c)

end Fold

namespace Quoted

/-- The characters that one-letter escapes stand for. -/
def shortEscape : Char → Option Char
  | '0' => some '\x00'
  | 'a' => some '\x07'
  | 'b' => some '\x08'
  | 't' => some '\t'
  | '\t' => some '\t'
  | 'n' => some '\n'
  | 'v' => some '\x0b'
  | 'f' => some '\x0c'
  | 'r' => some '\r'
  | 'e' => some '\x1b'
  | ' ' => some ' '
  | '"' => some '"'
  | '/' => some '/'
  | '\\' => some '\\'
  | 'N' => some '\u0085'
  | '_' => some '\u00a0'
  | 'L' => some '\u2028'
  | 'P' => some '\u2029'
  | _ => none

/-- How many digits follow the letter of a numeric escape. -/
def escapeDigits : Char → Option Nat
  | 'x' => some 2
  | 'u' => some 4
  | 'U' => some 8
  | _ => none

/-- An escape, at its backslash. -/
def escape (mark : Mark) (c : Cursor) : Except Fault (Char × Cursor) :=
  match shortEscape c.second, escapeDigits c.second with
  | some x, _ => .ok (x, c.take 2)
  | none, some n =>
    let c := c.take 2
    match hexNumber (c.rest.take n) with
    | none => fail .quotedEscapeDigits mark
    | some code =>
      if c.rest.length < n then fail .quotedEscapeDigits mark
      else
        match charOfCode code with
        | some x => .ok (x, c.take n)
        | none => fail .quotedEscapeCode mark
  | none, none => fail .quotedEscapeUnknown mark

/-- The characters up to white space, a closing quote or an escaped line break.
`done` is back to front; the flag tells whether a line break was escaped. -/
def word (single : Bool) (mark : Mark) (done : Text) :
    (fuel : Text) → Cursor → Except Fault (Text × Bool × Cursor)
  | [], c => .ok (done, false, c)
  | _ :: fuel, c =>
    if isGap c.next then .ok (done, false, c)
    else if single then
      if c.next = '\'' then
        if c.second = '\'' then word single mark ('\'' :: done) fuel (c.take 2)
        else .ok (done, false, c)
      else word single mark (c.next :: done) fuel (c.take 1)
    else if c.next = '"' then .ok (done, false, c)
    else if c.next = '\\' then
      if isBreak c.second then .ok (done, true, (c.take 1).passBreak)
      else do
        let (x, c) ← escape mark c
        word single mark (x :: done) fuel c
    else word single mark (c.next :: done) fuel (c.take 1)

/-- The words of a quoted scalar and the white space between them, through the
closing quote. -/
def words (single : Bool) (indent : Int) (mark : Mark) (done : Text) :
    (fuel : Text) → Cursor → Except Fault (Text × Cursor)
  | [], _ => fail .quotedUnclosed mark
  | _ :: fuel, c =>
    if c.column = 0 && c.atDocumentMarker then fail .quotedDocumentIndicator mark
    else if isEnd c.next then fail .quotedUnclosed mark
    else if (c.column : Int) < indent then fail .quotedIndentation mark
    else do
      let (done, escapedBreak, c) ← word single mark done c.rest c
      if c.next = (if single then '\'' else '"') then .ok (done.reverse, c.take 1)
      else
        let (g, c) ←
          Fold.read indent (fun c => fail .quotedTabIndent c.mark) (Fold.empty escapedBreak)
            c.rest c
        words single indent mark (g.text ++ done) fuel c

/-- True when a quoted scalar that began on line `line` may be followed by what
is next: the end of the line, flow structure, or the colon that makes it a
key. -/
def mayEnd (inFlow : Bool) (line : Nat) (c : Cursor) : Bool :=
  isBreakOrEnd c.next ||
    (inFlow && (c.next = ',' || c.next = '\x7d' || c.next = ']')) ||
    (c.next = ':' && (inFlow || line = c.mark.line))

/-- A quoted scalar, at its opening quote, inside a block indented by
`indent`. -/
def read (single inFlow : Bool) (indent : Int) (c : Cursor) :
    Except Fault (Token × Cursor) := do
  let mark := c.mark
  let (t, c) ← words single indent mark [] c.rest (c.take 1)
  let c ← c.toLineEnd
  if mayEnd inFlow mark.line c then .ok (.scalar (if single then .single else .double) t, c)
  else fail .quotedTrailing c.mark

end Quoted
end Yaml
end PolicyLint
