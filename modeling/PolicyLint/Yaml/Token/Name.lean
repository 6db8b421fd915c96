/-
The tokens that carry names: tags, anchors, aliases and directives.

Each reader starts at the indicator of its token.  The mark it is given is the
token's own, and nearly every fault is reported there.
-/
import PolicyLint.Yaml.Cursor
import PolicyLint.Yaml.Token

namespace PolicyLint
namespace Yaml

/-- What a reader of a part of the text gives: the part and where it ends. -/
abbrev Scan (α : Type) := Except Fault (α × Cursor)

namespace Name

/-- How many bytes the UTF-8 sequence with this first byte has. -/
def sequenceWidth (byte : Nat) : Option Nat :=
  if byte < 0x80 then some 1
  else if 0xC0 ≤ byte && byte < 0xE0 then some 2
  else if 0xE0 ≤ byte && byte < 0xF0 then some 3
  else if 0xF0 ≤ byte && byte < 0xF8 then some 4
  else none

/-- One escaped byte: a percent sign and two hexadecimal digits. -/
def escapedByte (mark : Mark) (c : Cursor) : Except Fault (Nat × Cursor) :=
  match c.rest with
  | '%' :: h :: l :: _ =>
    match hexNumber [h, l] with
    | some byte => .ok (byte, c.take 3)
    | none => fail .escapeInvalid mark
  | _ => fail .escapeInvalid mark

/-- The bytes of an escaped character after its first one.  Each byte moves the
code eight bits up. -/
def escapedTail (mark : Mark) : (width code : Nat) → Cursor → Except Fault (Nat × Cursor)
  | 0, code, c => .ok (code, c)
  | width + 1, code, c => do
    let (byte, c) ← escapedByte mark c
    if 0x80 ≤ byte && byte < 0xC0 then escapedTail mark width (code * 256 + byte) c
    else fail .escapeTrailingByte mark

/-- A character written as escaped bytes. -/
def escaped (mark : Mark) (c : Cursor) : Except Fault (Char × Cursor) := do
  let (byte, c) ← escapedByte mark c
  match sequenceWidth byte with
  | none => fail .escapeLeadingByte mark
  | some width =>
    let (code, c) ← escapedTail mark (width - 1) byte c
    match charOfCode code with
    | some x => .ok (x, c)
    | none => fail .escapeCodepoint mark

/-- The characters of a class, escapes resolved; `done` is back to front. -/
def uri (p : Char → Bool) (mark : Mark) (done : Text) :
    (fuel : Text) → Cursor → Except Fault (Text × Cursor)
  | [], c => .ok (done.reverse, c)
  | _ :: fuel, c =>
    match c.rest with
    | [] => .ok (done.reverse, c)
    | x :: _ =>
      if x = '%' then do
        let (x, c) ← escaped mark c
        uri p mark (x :: done) fuel c
      else if p x then uri p mark (x :: done) fuel (c.take 1)
      else .ok (done.reverse, c)

/-- A tag handle: an exclamation mark, name characters, and a closing mark when
there is one. -/
def handle (c : Cursor) : Text × Cursor :=
  let name := (c.take 1).run isName
  let c := c.take (1 + name.length)
  if c.next = '!' then ('!' :: name ++ ['!'], c.take 1) else ('!' :: name, c)

/-- A tag given by its whole URI between angle brackets. -/
def verbatim (mark : Mark) (c : Cursor) : Except Fault (Token × Cursor) := do
  let c := c.take 2
  let (suffix, c) ← uri isUri mark [] c.rest c
  if c.next = '>' then .ok (.tag [] suffix, c.take 1) else fail .tagUnclosed mark

/-- A tag given by a handle and a suffix.  What looks like a handle without its
closing mark is part of the suffix, and a mark alone is a suffix too. -/
def shorthand (mark : Mark) (c : Cursor) : Except Fault (Token × Cursor) := do
  let (h, c) := handle c
  if h.length ≥ 2 && h.getLast? = some '!' then
    let (suffix, c) ← uri isTag mark [] c.rest c
    if suffix.isEmpty then fail .tagEmpty mark else .ok (.tag h suffix, c)
  else
    let (tail, c) ← uri isTag mark [] c.rest c
    let suffix := h.tail ++ tail
    if suffix.isEmpty then .ok (.tag [] ['!'], c) else .ok (.tag ['!'] suffix, c)

/-- A tag, which a gap has to follow; in a flow collection its structure may. -/
def tag (inFlow : Bool) (c : Cursor) : Except Fault (Token × Cursor) := do
  let mark := c.mark
  let (t, c) ← if c.second = '<' then verbatim mark c else shorthand mark c
  if isGap c.next || (inFlow && isFlow c.next) then .ok (t, c)
  else fail .tagTrailing mark

/-- The name of an anchor or of an alias. -/
def anchor (c : Cursor) : Except Fault (Text × Cursor) :=
  let name := (c.take 1).run isAnchor
  if name.isEmpty then fail .anchorEmpty c.mark
  else .ok (name, c.take (1 + name.length))

/-- One of the two numbers of a version, of at most nine digits. -/
def versionNumber (mark : Mark) (c : Cursor) : Except Fault Cursor :=
  let digits := c.run Char.isDigit
  if digits.length > 9 then fail .versionTooLong mark
  else if digits.isEmpty then fail .versionMissing mark
  else .ok (c.take digits.length)

/-- The version that a `YAML` directive gives. -/
def version (mark : Mark) (c : Cursor) : Except Fault (Token × Cursor) := do
  let c ← versionNumber mark (c.passRun isBlank)
  if c.next = '.' then
    let c ← versionNumber mark (c.take 1)
    .ok (.versionDirective, c)
  else fail .versionWithoutPoint mark

/-- What a handle stands for: a local lead or a global one. -/
def lead (mark : Mark) (c : Cursor) : Except Fault (Text × Cursor) :=
  if c.next = '!' then uri isUri mark ['!'] c.rest (c.take 1)
  else if isTag c.next then uri isUri mark [] c.rest c
  else fail .tagLeadInvalid mark

/-- The handle and its meaning that a `TAG` directive gives. -/
def tagDirective (mark : Mark) (c : Cursor) : Except Fault (Token × Cursor) := do
  let c := c.passRun isBlank
  if c.next ≠ '!' then fail .tagWithoutMark mark
  else
    let (h, c) := handle c
    if h.getLast? ≠ some '!' then fail .tagDirectiveHandle mark
    else
      let (l, c) ← lead mark (c.passRun isBlank)
      if isGap c.next then .ok (.tagDirective h l, c) else fail .tagDirectiveTrailing mark

/-- A directive, through the end of its line.  One with an unknown name gives an
empty handle an empty meaning. -/
def directive (c : Cursor) : Except Fault (Token × Cursor) := do
  let mark := c.mark
  let c := c.take 1
  let name := c.run isName
  if name.isEmpty then fail .directiveWithoutName c.mark
  else
    let after := c.pass name.length
    if !isGap after.next then fail .directiveNameCharacter c.mark
    else
      let (t, c) ←
        if name = "YAML".toList then version mark after
        else if name = "TAG".toList then tagDirective mark after
        else .ok (.tagDirective [] [], after.passRun (!isBreakOrEnd ·))
      let c ← c.toLineEnd
      if isBreakOrEnd c.next then .ok (t, c.passBreak) else fail .directiveTrailing mark

end Name
end Yaml
end PolicyLint
