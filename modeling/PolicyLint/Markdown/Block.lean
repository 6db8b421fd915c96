/-
The policy blocks of a Markdown document.

Lines are read one by one.  A region runs from an opening fence to the next bare
fence; its content is reported when the region is not exempt and mentions a
policy key.  Fences of other languages open nothing: their lines are prose.
-/
import PolicyLint.Markdown.Fence
import PolicyLint.Policy
import PolicyLint.Text.Line

namespace PolicyLint

/-- A region that is to be checked. -/
structure Block where
  /-- Its place among the reported blocks of its document, from one. -/
  ordinal : Nat
  /-- The line of its opening fence, from one. -/
  line : Nat
  /-- The format that its fence declares. -/
  format : Format
  /-- The lines between its fences, with line feeds between them. -/
  content : Text
deriving DecidableEq, Repr

namespace Markdown

/-- What is told about a region that is not reported. -/
inductive Notice where
  | exempt (line : Nat)
  | unterminated (line : Nat)
deriving DecidableEq, Repr

/-- Where a line stands. -/
inductive Region where
  | prose
  | exempt
  /-- In a region opened on line `line`; `body` holds its lines so far, the last
  one first. -/
  | inside (format : Format) (line : Nat) (body : List Text)
deriving DecidableEq, Repr

/-- A reading that has come to the end of a line. -/
structure Reading where
  rest : List Text
  /-- How many lines have been read. -/
  count : Nat
  region : Region
  /-- How many blocks have been reported. -/
  reported : Nat
deriving Repr

namespace Reading

def start (t : Text) : Reading := ⟨Text.lines t, 0, .prose, 0⟩

/-- What one line does: it may change the region, give a notice or complete a
block. -/
structure Effect where
  region : Region
  notice : Option Notice
  block : Option Block
deriving Repr

/-- The effect of line number `line` when `reported` blocks came before it. -/
def effect (line reported : Nat) (text : Text) : Region → Effect
  | .prose =>
    match opening text with
    | none => ⟨.prose, none, none⟩
    | some o =>
      if o.exempt then ⟨.exempt, some (.exempt line), none⟩
      else ⟨.inside o.format line [], none, none⟩
  | .exempt => ⟨if closes text then .prose else .exempt, none, none⟩
  | .inside format opened body =>
    if closes text then
      let content := Text.join ['\n'] body.reverse
      let block : Option Block :=
        if Policy.mentioned content then some ⟨reported + 1, opened, format, content⟩ else none
      ⟨.prose, none, block⟩
    else ⟨.inside format opened (text :: body), none, none⟩

/-- What asking for the next block gives: the notices on the way to it, the
block, and the reading after it. -/
structure Answer where
  notices : List Notice
  block : Option Block
  after : Reading
deriving Repr

/-- Read on to the end of the next block, or of the document.  `notices` holds
those so far, the last one first. -/
def advance (count reported : Nat) (region : Region) (notices : List Notice) :
    List Text → Answer
  | [] =>
    let last : List Notice :=
      match region with
      | .inside _ line _ => [.unterminated line]
      | _ => []
    ⟨notices.reverse ++ last, none, ⟨[], count, .prose, reported⟩⟩
  | text :: rest =>
    let e := effect (count + 1) reported text region
    let notices := e.notice.toList ++ notices
    match e.block with
    | some b => ⟨notices.reverse, some b, ⟨rest, count + 1, e.region, reported + 1⟩⟩
    | none => advance (count + 1) reported e.region notices rest

/-- Ask for the next block. -/
def next (r : Reading) : Answer :=
  advance r.count r.reported r.region [] r.rest

/-- All answers up to the first without a block; `fuel` bounds their number. -/
def answers : (fuel : Nat) → Reading → List Answer
  | 0, _ => []
  | fuel + 1, r =>
    let a := r.next
    match a.block with
    | some _ => a :: answers fuel a.after
    | none => [a]

end Reading

/-- All that reading a document answers.  Every block takes up two lines at
least. -/
def answers (t : Text) : List Reading.Answer :=
  let r := Reading.start t
  r.answers (r.rest.length + 1)

/-- The blocks of a document, in order. -/
def blocks (t : Text) : List Block :=
  (answers t).filterMap (·.block)

end Markdown
end PolicyLint
