/-
The tokens of a whole text.

`step` reads the next token, with the tokens that its indentation implies.  A
fault shows only the tokens that were settled before the step that met it.
-/
import PolicyLint.Yaml.Token.Block
import PolicyLint.Yaml.Token.State

namespace PolicyLint
namespace Yaml
namespace State

/-- Pass blanks on the way to a token.  Inside a block, a tab must not stand left
of the block's column on a line that has content. -/
def passBlanks (fuel : Text) (s : State) : Except Fault State :=
  match fuel with
  | [] => .ok s
  | _ :: fuel =>
    let c := s.cursor
    if c.next = '\t' && !s.levels.isEmpty && c.fresh && (c.column : Int) < s.indent then do
      let c ← c.toLineEnd
      if isBreakOrEnd c.next then passBlanks fuel { s with cursor := c }
      else fail .tabInIndentation c.mark
    else if isBlank c.next then passBlanks fuel { s with cursor := c.pass 1 }
    else if isBreak c.next then
      passBlanks fuel { s with
        cursor := c.passBreak
        keyAllowed := s.keyAllowed || !s.inFlow }
    else if c.next = '#' then
      passBlanks fuel { s with cursor := c.passRun (!isBreakOrEnd ·) }
    else .ok s

/-- Pass everything up to the next token. -/
def toToken (s : State) : Except Fault State :=
  passBlanks s.cursor.rest s

/-- Pass blanks and a comment after a token. -/
def toLineEnd (s : State) : Except Fault State := do
  let c ← s.cursor.toLineEnd
  .ok { s with cursor := c }

/-- The end of the text counts as the beginning of a line. -/
def endStream (s : State) : Except Fault State :=
  let m := s.mark
  let m := if m.column = 0 then m else ⟨m.index, m.line + 1, 0⟩
  let s := { s with cursor := { s.cursor with mark := m } }
  if s.keys.any fun k => k.any (·.required) then fail .keyExpected m
  else
    let s := { s with keys := s.keys.map fun _ => none }
    .ok (((s.unroll (-1)).allowKey false).push .streamEnd m)

/-- A directive or a document marker ends all blocks. -/
def endBlocks (s : State) : Except Fault State := do
  let s ← (s.unroll (-1)).dropKey
  .ok (s.allowKey false)

def directive (s : State) : Except Fault State := do
  let s ← s.endBlocks
  let mark := s.mark
  let (t, c) ← Name.directive s.cursor
  .ok ({ s with cursor := c }.push t mark)

def documentMarker (token : Token) (s : State) : Except Fault State := do
  let s ← s.endBlocks
  .ok ({ s with cursor := s.cursor.take 3 }.push token s.mark)

def documentEnd (s : State) : Except Fault State := do
  let s ← s.documentMarker .documentEnd
  let s ← s.toLineEnd
  if isBreakOrEnd s.cursor.next then .ok s else fail .contentAfterDocumentEnd s.mark

/-- The deepest nesting of flow collections. -/
def maxFlowDepth : Nat := 255

def flowStart (token : Token) (s : State) : Except Fault State := do
  let mark := s.mark
  let s := s.saveKey.rollOne
  if s.flowDepth ≥ maxFlowDepth then fail .flowTooDeep mark
  else
    let s := { s with
      keys := none :: s.keys
      keyAllowed := true
      cursor := s.cursor.take 1
      mappingBegun := s.mappingBegun || token = Token.flowMappingStart
      pairs := if token = Token.flowSequenceStart then .possible :: s.pairs else s.pairs }
    let s ← s.toLineEnd
    .ok (s.push token mark)

def flowEnd (token : Token) (s : State) : Except Fault State := do
  let s ← s.dropKey
  let s := if token = Token.flowSequenceEnd then
      let s := s.closePair
      { s with pairs := s.pairs.tail }
    else s
  let s := { s with keys := if s.inFlow then s.keys.tail else s.keys, keyAllowed := false }
  let mark := s.mark
  let s ← { s with cursor := s.cursor.take 1 }.toLineEnd
  let s := if s.inFlow then { s with adjacent := s.mark.index } else s
  .ok (s.push token mark)

def flowEntry (s : State) : Except Fault State := do
  let s ← s.dropKey
  let s := (s.allowKey true).closePair
  let mark := s.mark
  let s ← { s with cursor := s.cursor.take 1 }.toLineEnd
  .ok (s.push .flowEntry mark)

/-- The token before this one, if it can still change. -/
def lastUnsettled (s : State) : Option Placed :=
  if s.settled < s.count then s.placed.head? else none

/-- True for an anchor or a tag. -/
def isProperty : Token → Bool
  | .anchor _ => true
  | .tag _ _ => true
  | _ => false

def blockEntry (s : State) : Except Fault State := do
  if s.inFlow then fail .entryInFlow s.mark
  else if !s.keyAllowed then fail .entryNotAllowed s.mark
  else
    match s.lastUnsettled.filter fun p =>
        isProperty p.token && s.column = 0 && p.mark.column = 0 && s.indent > -1 with
    | some p => fail .anchorIndentation p.mark
    | none =>
      let mark := s.mark
      let s := { s with cursor := s.cursor.take 1 }
      let s := s.roll mark.column none .blockSequenceStart mark
      let (passed, c) ← s.cursor.passLine true
      if passed.tab && c.next = '-' && isGap c.second then fail .entryTab c.mark
      else
        let (_, c) ← c.passLine false
        let s := { s with cursor := c }
        let s := if isBreak c.next || isFlow c.next then s.rollOne else s
        let s ← s.dropKey
        .ok ((s.allowKey true).push .blockEntry s.mark)

/-- Pass the white space after a question mark, of which there must be some.
Tabs do not count. -/
def passKeySpace (seen : Bool) (fuel : Text) (s : State) : Except Fault State :=
  let stop := if seen then .ok s else fail .explicitKeySpace s.mark
  match fuel with
  | [] => stop
  | _ :: fuel =>
    let c := s.cursor
    if c.next = ' ' then passKeySpace true fuel { s with cursor := c.pass 1 }
    else if isBreak c.next then
      passKeySpace true fuel { s with
        cursor := c.passBreak
        keyAllowed := s.keyAllowed || !s.inFlow }
    else if c.next = '#' then
      passKeySpace seen fuel { s with cursor := c.passRun (!isBreakOrEnd ·) }
    else stop

def explicitKey (s : State) : Except Fault State := do
  let mark := s.mark
  if !s.inFlow && !s.keyAllowed then fail .explicitKeyNotAllowed mark
  else
    let s :=
      if s.inFlow then { s with mappingBegun := true }
      else s.roll mark.column none .blockMappingStart mark
    let s ← s.dropKey
    let s := s.allowKey (!s.inFlow)
    let s := { s with cursor := s.cursor.take 1 }
    let s ← passKeySpace false s.cursor.rest s
    if s.cursor.next = '\t' then fail .explicitKeyTab s.mark
    else .ok (s.push .key mark)

/-- The key that a colon turns out to follow. -/
def valueOfKey (k : PossibleKey) (pair : Bool) (mark : Mark) (s : State) :
    Except Fault State :=
  let s := s.insert k.number .key k.mark
  if pair && k.mark.line < mark.line then fail .valueOnOtherLine mark
  else
    let s := if pair then s.insert k.number .flowMappingStart k.mark else s
    let s := s.roll k.mark.column (some k.number) .blockMappingStart k.mark
    .ok ((s.rollOne.setKey none).allowKey false)

/-- A colon with no simple key before it. -/
def valueWithoutKey (pair : Bool) (mark : Mark) (s : State) : Except Fault State :=
  let s := if pair then s.push .flowMappingStart mark else s
  if !s.inFlow && !s.keyAllowed then fail .valueNotAllowed mark
  else
    let s := s.roll mark.column none .blockMappingStart mark
    .ok (s.rollOne.allowKey (!s.inFlow))

/-- In a flow sequence, outside a flow mapping, a colon makes its entry a mapping
of a single pair. -/
def value (s : State) : Except Fault State := do
  let mark := s.mark
  let key := s.possibleKey
  let pair := !s.pairs.isEmpty && !s.mappingBegun
  let s := if pair then { s with pairs := .inside s.flowDepth :: s.pairs.tail } else s
  let s := { s with cursor := s.cursor.take 1 }
  let s ←
    if s.cursor.next = '\t' then do
      let (passed, c) ← s.cursor.passLine true
      if !passed.space && (c.next = '-' || isName c.next) then fail .valueTab c.mark
      else .ok { s with cursor := c }
    else .ok s
  let s ← match key with
    | some k => s.valueOfKey k pair mark
    | none => s.valueWithoutKey pair mark
  .ok (s.push .value mark)

/-- In a flow collection a colon may also be followed by flow structure, but by
an opening bracket only directly after a quoted or flow key. -/
def flowValue (s : State) : Except Fault State :=
  let c := s.cursor
  if c.mark.index ≠ s.adjacent && (c.second = '[' || c.second = '\x7b') then
    fail .valueBeforeFlow c.mark
  else s.value

/-- A token that may begin a key and after which none may. -/
def keyLike (read : State → Except Fault (Placed × Cursor)) (s : State) :
    Except Fault State := do
  let s := s.saveKey.allowKey false
  let (p, c) ← read s
  .ok ({ s with cursor := c }.push p.token p.mark)

def anchor (make : Text → Token) : State → Except Fault State :=
  keyLike fun s => do
    let (name, c) ← Name.anchor s.cursor
    .ok (⟨make name, s.mark⟩, c)

def tag : State → Except Fault State :=
  keyLike fun s => do
    let (t, c) ← Name.tag s.inFlow s.cursor
    .ok (⟨t, s.mark⟩, c)

def quotedScalar (single : Bool) (s : State) : Except Fault State := do
  let mark := s.mark
  let s := s.saveKey.allowKey false
  let (t, c) ← Quoted.read single s.inFlow s.indent s.cursor
  let s ← { s with cursor := c }.toToken
  .ok ({ s with adjacent := s.mark.index }.push t mark)

def plainScalar (s : State) : Except Fault State := do
  let mark := s.mark
  let s := (s.saveKey.allowKey false).unrollSilent
  let (t, c) ← Plain.read s.inFlow s.indent s.cursor
  .ok ({ s with cursor := c, keyAllowed := c.fresh }.push t mark)

def blockScalar (literal : Bool) (s : State) : Except Fault State := do
  let s := (s.saveKey.allowKey true).unrollSilent
  let (p, c) ← Block.read literal s.indent s.cursor
  .ok ({ s with cursor := c }.push p.token p.mark)

/-- The token that the next character begins. -/
def dispatch (s : State) : Except Fault State :=
  let c := s.cursor
  let gap := isGap c.second
  match c.next with
  | '[' => s.flowStart .flowSequenceStart
  | '\x7b' => s.flowStart .flowMappingStart
  | ']' => s.flowEnd .flowSequenceEnd
  | '\x7d' => s.flowEnd .flowMappingEnd
  | ',' => s.flowEntry
  | '-' => if gap then s.blockEntry else s.plainScalar
  | '?' => if gap then s.explicitKey else s.plainScalar
  | ':' =>
    if gap then s.value
    else if s.inFlow && (isFlow c.second || c.mark.index = s.adjacent) then s.flowValue
    else s.plainScalar
  | '*' => s.anchor .reference
  | '&' => s.anchor .anchor
  | '!' => s.tag
  | '|' => if s.inFlow then s.plainScalar else s.blockScalar true
  | '>' => if s.inFlow then s.plainScalar else s.blockScalar false
  | '\'' => s.quotedScalar true
  | '"' => s.quotedScalar false
  | x =>
    match Reserved.ofChar? x with
    | some r => fail (.unexpectedCharacter r) c.mark
    | none => s.plainScalar

/-- The next token. -/
def fetch (s : State) : Except Fault State := do
  let s ← s.toToken
  let s ← s.dropStaleKeys
  let s := s.unroll s.column
  let c := s.cursor
  if isEnd c.next then s.endStream
  else if c.column = 0 && c.next = '%' then s.directive
  else if c.column = 0 && c.atDocumentStart then s.documentMarker .documentStart
  else if c.column = 0 && c.atDocumentEnd then s.documentEnd
  else if (s.column : Int) < s.indent then fail .invalidIndentation c.mark
  else s.dispatch

/-- The next token, and the possible keys that it rules out. -/
def step (s : State) : Except Fault State := do
  let s ← { s with settled := s.settledCount }.fetch
  s.dropStaleKeys

/-- True when the last token is there. -/
def ended (s : State) : Bool :=
  match s.placed with
  | p :: _ => p.token = .streamEnd
  | [] => false

/-- The tokens up to the end of the text or to the first fault.  Every step uses
up a character or ends the stream. -/
def run : (fuel : Nat) → State → Feed
  | 0, s => ⟨s.placed.reverse, none⟩
  | fuel + 1, s =>
    if s.ended then ⟨s.placed.reverse, none⟩
    else
      match s.step with
      | .ok s => run fuel s
      | .error f => ⟨s.placed.reverse.take s.settledCount, some f⟩

end State

/-- The tokens of a text. -/
def Feed.ofText (t : Text) : Feed :=
  State.run (t.length + 2) (State.start t)

end Yaml
end PolicyLint
