/-
Literal and folded block scalars.

The header may fix the indentation and say what becomes of the line breaks at the
end.  Without an indentation indicator the first line with content fixes it.
-/
import PolicyLint.Yaml.Token.Plain

namespace PolicyLint
namespace Yaml
namespace Block

/-- What becomes of the line breaks at the end of a block scalar. -/
inductive Chomping where
  | strip
  | clip
  | keep
deriving DecidableEq, Repr

/-- The chomping that an indicator asks for. -/
def Chomping.ofIndicator : Char → Option Chomping
  | '+' => some keep
  | '-' => some strip
  | _ => none

structure Header where
  chomping : Chomping
  /-- Columns of indentation below the parent's, if they are given. -/
  indent : Option Nat
deriving Repr

/-- The indentation indicator, if one is next.  Zero is refused. -/
def indentIndicator (mark : Mark) (c : Cursor) : Except Fault (Option Nat × Cursor) :=
  if c.next = '0' then fail .blockZeroIndent mark
  else if c.next.isDigit then .ok (some (c.next.toNat - '0'.toNat), c.take 1)
  else .ok (none, c)

/-- The two indicators, in either order. -/
def header (mark : Mark) (c : Cursor) : Except Fault (Header × Cursor) := do
  match Chomping.ofIndicator c.next with
  | some chomping =>
    let (indent, c) ← indentIndicator mark (c.take 1)
    .ok (⟨chomping, indent⟩, c)
  | none =>
    let (indent, c) ← indentIndicator mark c
    match indent, Chomping.ofIndicator c.next with
    | some n, some chomping => .ok (⟨chomping, some n⟩, c.take 1)
    | _, _ => .ok (⟨.clip, indent⟩, c)

/-- Pass the spaces left of column `indent`, and lines that have nothing else.
The number of those lines is added to `breaks`. -/
def passIndent (indent : Nat) (breaks : Nat) : (fuel : Text) → Cursor → Nat × Cursor
  | [], c => (breaks, c)
  | _ :: fuel, c =>
    let spaces := ((c.rest.take (indent - c.column)).takeWhile (· = ' ')).length
    let c := c.pass spaces
    if isBreak c.next then passIndent indent (breaks + 1) fuel c.passBreak else (breaks, c)

/-- Pass all spaces, and lines that have nothing else.  The widest run of spaces
is remembered. -/
def passBlank (widest breaks : Nat) : (fuel : Text) → Cursor → Nat × Nat × Cursor
  | [], c => (widest, breaks, c)
  | _ :: fuel, c =>
    let c := c.passRun (· = ' ')
    let widest := max widest c.column
    if isBreak c.next then passBlank widest (breaks + 1) fuel c.passBreak
    else (widest, breaks, c)

/-- The column of the content when nothing fixes it: that of the widest leading
run of spaces, and right of the parent. -/
def detected (parent : Int) (widest : Nat) : Nat :=
  let least := max widest (parent + 1).toNat
  if parent > 0 then max least 1 else least

def breaks (n : Nat) : Text :=
  List.replicate n '\n'

/-- The lines of content.  `done` is back to front; `ended` tells whether a line
break was read after the last line, and `extra` counts the empty lines after
that; `indented` tells whether the last line began with a blank. -/
def contentLines (literal : Bool) (indent : Nat) (done : Text) (ended : Bool) (extra : Nat)
    (indented : Bool) : (fuel : Text) → Cursor → Text × Bool × Nat × Cursor
  | [], c => (done, ended, extra, c)
  | _ :: fuel, c =>
    if c.column ≠ indent || isEnd c.next || (indent = 0 && c.atDocumentEnd) then
      (done, ended, extra, c)
    else
      let blank := isBlank c.next
      let gap :=
        if !literal && ended && !indented && !blank then
          if extra = 0 then [' '] else breaks extra
        else breaks ((if ended then 1 else 0) + extra)
      let line := c.run (!isBreakOrEnd ·)
      let done := line.reverse ++ gap ++ done
      let c := c.take line.length
      if isEnd c.next then (done, false, 0, c)
      else
        let (extra, c) := passIndent indent 0 c.rest c.passBreak
        contentLines literal indent done true extra blank fuel c

/-- The scalar's text, from what its lines gave and where they stopped. -/
def chomp (chomping : Chomping) (indent : Nat) (done : Text) (ended : Bool) (extra : Nat)
    (c : Cursor) : Text :=
  let tail :=
    match chomping with
    | .strip => 0
    | .clip => if ended then 1 else 0
    | .keep => (if ended then 1 else 0) + extra
  let unclosed := chomping ≠ .strip && isEnd c.next && c.column ≥ max indent 1
  done.reverse ++ breaks tail ++ (if unclosed then ['\n'] else [])

/-- The text of a block scalar whose lines all are empty. -/
def hollow (chomping : Chomping) (headed : Bool) (extra : Nat) : Text :=
  match chomping with
  | .strip => []
  | .clip => if headed then ['\n'] else []
  | .keep => if headed then breaks (max extra 1) else []

/-- A block scalar at its indicator, under a parent indented by `parent`.  Its
token begins where its content does. -/
def read (literal : Bool) (parent : Int) (c : Cursor) : Except Fault (Placed × Cursor) := do
  let mark := c.mark
  let style : Style := if literal then .literal else .folded
  let (h, c) ← header mark (c.take 1)
  let c ← c.toLineEnd
  if !isBreakOrEnd c.next then fail .blockHeaderTrailing mark
  else
    let c := c.passBreak
    if c.next = '\t' then fail .blockStartsWithTab mark
    else
      let (indent, extra, c) :=
        match h.indent with
        | some n =>
          let indent := if parent ≥ 0 then (parent + n).toNat else n
          let (extra, c) := passIndent indent 0 c.rest c
          (indent, extra, c)
        | none =>
          let (widest, extra, c) := passBlank 0 0 c.rest c
          (detected parent widest, extra, c)
      if isEnd c.next then
        .ok (⟨.scalar style (hollow h.chomping (mark.line ≠ c.mark.line) extra), mark⟩, c)
      else if c.column < indent && (c.column : Int) > parent then
        fail .blockLineIndent c.mark
      else
        let (done, ended, extra, e) := contentLines literal indent [] false extra false c.rest c
        .ok (⟨.scalar style (chomp h.chomping indent done ended extra e), c.mark⟩, e)

end Block
end Yaml
end PolicyLint
