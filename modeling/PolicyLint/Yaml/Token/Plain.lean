/-
Plain scalars.

A plain scalar ends before a comment, before a colon that a gap follows, at the
structure of a flow collection, and at a line that is indented too little.
-/
import PolicyLint.Yaml.Token.Quoted

namespace PolicyLint
namespace Yaml
namespace Plain

/-- True when the first of two characters belongs to a plain scalar. -/
def continues (inFlow : Bool) (x next : Char) : Bool :=
  !isGap x && !(inFlow && isFlow x) &&
    !(x = ':' && (isGap next || (inFlow && isFlow next)))

/-- The characters up to the next one that does not belong. -/
def word (inFlow : Bool) (done : Text) : Text → Text
  | [] => done
  | x :: rest =>
    if continues inFlow x (rest.headD '\x00') then word inFlow (x :: done) rest else done

/-- A tab left of the scalar's column may stand only on a line without
content. -/
def leadingTab (mark : Mark) (c : Cursor) : Except Fault Cursor := do
  let c ← c.toLineEnd
  if isBreakOrEnd c.next then .ok c else fail .plainTab mark

/-- The words of a plain scalar and the white space between them; `done` is back
to front and `gap` is the white space passed last. -/
def words (inFlow : Bool) (indent : Int) (mark : Mark) (done : Text) (gap : Fold) :
    (fuel : Text) → Cursor → Except Fault (Text × Cursor)
  | [], c => .ok (done.reverse, c)
  | _ :: fuel, c =>
    if (c.fresh && c.atDocumentMarker) || c.next = '#' then .ok (done.reverse, c)
    else if inFlow && c.next = '-' && isFlow c.second then fail .plainDashFlow c.mark
    else
      let w := word inFlow [] c.rest
      let done := if w.isEmpty then done else w ++ gap.text ++ done
      let gap := if w.isEmpty then gap else Fold.empty false
      let c := if w.isEmpty then c else c.take w.length
      if isBlank c.next || isBreak c.next then do
        let (gap, c) ← Fold.read indent (leadingTab mark) gap c.rest c
        if !inFlow && (c.column : Int) < indent then .ok (done.reverse, c)
        else words inFlow indent mark done gap fuel c
      else .ok (done.reverse, c)

/-- A plain scalar inside a block indented by `indent`. -/
def read (inFlow : Bool) (indent : Int) (c : Cursor) : Except Fault (Token × Cursor) := do
  let mark := c.mark
  if inFlow && (c.column : Int) < indent + 1 then fail .flowIndentation mark
  else
    let (t, c) ← words inFlow (indent + 1) mark [] (Fold.empty c.fresh) c.rest c
    if t.isEmpty then fail .plainEmpty mark else .ok (.scalar .plain t, c)

end Plain
end Yaml
end PolicyLint
