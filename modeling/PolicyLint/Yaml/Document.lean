/-
The document that a text is.

A text must hold one document.  What goes wrong after the end of the first
document is no fault, but a second document is.
-/
import PolicyLint.Yaml.Node.Grammar
import PolicyLint.Yaml.Node.Value
import PolicyLint.Yaml.Token.Stream

namespace PolicyLint
namespace Yaml
namespace Supply

/-- Pass document end markers. -/
def skipEnds (s : Supply) : Supply :=
  { s with tokens := s.tokens.dropWhile (·.token = .documentEnd) }

/-- True for a directive. -/
def isDirective : Token → Bool
  | .versionDirective => true
  | .tagDirective _ _ => true
  | _ => false

/-- Pass the directives before a document.  Each one replaces the last. -/
def directives (versioned : Bool) (s : Supply) : Except Fault Supply :=
  go versioned s.declared s.tokens
where
  go (versioned : Bool) (declared : Option (Text × Text)) :
      List Placed → Except Fault Supply
    | ⟨.versionDirective, mark⟩ :: rest =>
      if versioned then fail .duplicateVersion mark else go true none rest
    | ⟨.tagDirective handle lead, _⟩ :: rest => go versioned (some (handle, lead)) rest
    | tokens =>
      let s := { s with declared, tokens }
      s.peek.map fun _ => s

/-- Pass directives and the document start marker after them. -/
def explicitStart (s : Supply) : Except Fault Supply := do
  let s ← s.directives false
  let p ← s.peek
  if p.token = .documentStart then .ok s.skip else fail .documentStartExpected p.mark

/-- True for what ends a document or begins another one. -/
def isBoundary (t : Token) : Bool :=
  isDirective t || t = .documentStart || t = .documentEnd || t = .streamEnd

/-- More than the number of reader calls that the tokens allow. -/
def fuel (s : Supply) : Nat :=
  4 * s.tokens.length + 4

/-- The root of a document after its start marker: nothing is the empty node. -/
def explicitRoot (s : Supply) : Parsed :=
  match s.peek with
  | .error f => Node.stop f
  | .ok p =>
    if isBoundary p.token then (Node.empty p.mark, some s)
    else Node.read true false s.fuel s

/-- The root of the first document, if there is a document. -/
def firstRoot (s : Supply) : Except Fault (Option Parsed) := do
  let s := s.skipEnds
  let p ← s.peek
  if p.token = .streamEnd then .ok none
  else if isDirective p.token || p.token = .documentStart then
    let s ← s.explicitStart
    .ok (some s.explicitRoot)
  else .ok (some (Node.read true false s.fuel s))

/-- Where the node that the tokens begin has its content.  None if they begin
none, or an alias. -/
def contentMark (s : Supply) : Option Mark :=
  match s.tokens with
  | ⟨.reference _, _⟩ :: _ => none
  | _ =>
    match Node.read true false 2 s with
    | (.scalar mark .., _) => some mark
    | (.list mark _, _) => some mark
    | (.mapping mark _, _) => some mark
    | (.broken _, _) => none

/-- Where a further document has its content, if one can be read, and where
reading ended. -/
def secondRoot (explicitEnd : Bool) (mark : Mark) (s : Supply) : Option Mark × Mark :=
  let s := s.skipEnds
  match s.peek with
  | .error _ => (none, mark)
  | .ok p =>
    if p.token = .streamEnd then (none, p.mark)
    else if isDirective p.token || p.token = .documentStart || !explicitEnd then
      match s.explicitStart with
      | .error _ => (none, mark)
      | .ok s =>
        match s.peek with
        | .error _ => (none, mark)
        | .ok p => (if isBoundary p.token then some p.mark else s.contentMark, mark)
    else (s.contentMark, mark)

/-- Above this many aliases for each anchor a document is refused. -/
def maxAliasesPerAnchor : Nat := 10

/-- With fewer aliases than this no document is refused for them. -/
def minAliases : Nat := 100

/-- Nothing but the end of the document may follow its root. -/
def checkEnd (s : Supply) : Except Fault Unit := do
  let p ← s.peek
  let explicitEnd : Bool := p.token = .documentEnd
  if isDirective p.token then fail .directiveWithoutEnd p.mark
  else
    let (second, last) :=
      { s with declared := none }.secondRoot explicitEnd p.mark
    match second with
    | some mark => fail .severalDocuments mark
    | none =>
      if s.aliasCount ≥ minAliases && s.aliasCount > maxAliasesPerAnchor * s.anchorCount then
        fail (.aliasesPerAnchor s.aliasCount s.anchorCount) last
      else .ok ()

end Supply

/-- One byte order mark at the beginning is not part of the text. -/
def dropByteOrderMark : Text → Text
  | '\uFEFF' :: t => t
  | t => t

/-- The value of the document that a text is; null if it holds none. -/
def document (t : Text) : Except Fault Data := do
  let root ← (Supply.ofFeed (Feed.ofText (dropByteOrderMark t))).firstRoot
  match root with
  | none => .ok .null
  | some (n, after) =>
    let v ← n.value
    match after with
    | none => .ok v
    | some s =>
      s.checkEnd
      .ok v

/-- The document, or the message that says why there is none. -/
def parse (t : Text) : Except Text Data :=
  (document t).mapError (·.message)

end Yaml
end PolicyLint
