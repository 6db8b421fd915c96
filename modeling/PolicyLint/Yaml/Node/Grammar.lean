/-
Nodes from tokens.

The readers below take tokens from the front of a supply.  They run out of
tokens only at a fault, which then becomes the last node.
-/
import PolicyLint.Yaml.Node

namespace PolicyLint
namespace Yaml

/-- The tokens ahead and what has been declared so far. -/
structure Supply where
  tokens : List Placed
  /-- Why there are no further tokens. -/
  ending : Fault
  /-- The tag directive in force: a handle and its lead. -/
  declared : Option (Text × Text)
  /-- The number of each anchor name, the latest first. -/
  anchors : List (Text × Nat)
  /-- The nodes of the anchors that are complete. -/
  nodes : List (Nat × Node)
  anchorCount : Nat
  aliasCount : Nat
deriving Repr

/-- A node and what is left, unless reading stopped inside the node. -/
abbrev Parsed := Node × Option Supply

/-- Nodes and what is left, unless reading stopped inside the last one. -/
abbrev ParsedMany := List Node × Option Supply

namespace Supply

def ofFeed (f : Feed) : Supply where
  tokens := f.tokens
  ending := f.fault.getD ⟨.nodeExpected, Mark.start⟩
  declared := none
  anchors := []
  nodes := []
  anchorCount := 0
  aliasCount := 0

/-- The next token. -/
def peek (s : Supply) : Except Fault Placed :=
  match s.tokens with
  | p :: _ => .ok p
  | [] => .error s.ending

/-- What is left after the next token. -/
def skip (s : Supply) : Supply :=
  { s with tokens := s.tokens.tail }

/-- Give an anchor the next number. -/
def addAnchor (name : Text) (s : Supply) : Nat × Supply :=
  let id := s.anchorCount + 1
  (id, { s with anchors := (name, id) :: s.anchors, anchorCount := id })

/-- The node of an anchor is complete. -/
def define (anchor : Option Nat) (n : Node) (s : Supply) : Supply :=
  match anchor with
  | some id => { s with nodes := (id, n) :: s.nodes }
  | none => s

/-- The node that an alias repeats.  An anchor whose node is still open has
none yet. -/
def aliased (name : Text) (mark : Mark) (s : Supply) : Except Fault Node :=
  match s.anchors.lookup name with
  | none => fail .unknownAnchor mark
  | some id =>
    match s.nodes.lookup id with
    | none => fail (.openAnchor id) mark
    | some n => .ok n

/-- What may stand before the content of a node. -/
structure Properties where
  tag : Tag
  anchor : Option Nat
deriving Repr

def Properties.given (p : Properties) : Bool :=
  p.tag ≠ Tag.absent || p.anchor.isSome

/-- An anchor, a tag, or both in either order.  A tag after an anchor is reported
at the anchor. -/
def properties (s : Supply) : Except Fault (Properties × Supply) := do
  let p ← s.peek
  match p.token with
  | .anchor name =>
    let (id, s) := s.skip.addAnchor name
    let q ← s.peek
    match q.token with
    | .tag handle suffix =>
      let tag ← Tag.resolve s.declared handle suffix p.mark
      .ok (⟨tag, some id⟩, s.skip)
    | _ => .ok (⟨.absent, some id⟩, s)
  | .tag handle suffix =>
    let tag ← Tag.resolve s.declared handle suffix p.mark
    let s := s.skip
    let q ← s.peek
    match q.token with
    | .anchor name =>
      let (id, s) := s.skip.addAnchor name
      .ok (⟨tag, some id⟩, s)
    | _ => .ok (⟨tag, none⟩, s)
  | _ => .ok (⟨.absent, none⟩, s)

end Supply

namespace Node

/-- Reading stops here. -/
def stop (f : Fault) : Parsed :=
  (.broken f, none)

/-- Reading stops after the nodes `done`, given back to front. -/
def stopAfter (done : List Node) (f : Fault) : ParsedMany :=
  ((.broken f :: done).reverse, none)

/-- All of a collection has been read. -/
def close (done : List Node) (s : Supply) : ParsedMany :=
  (done.reverse, some s)

/-- One more node, then the rest of its collection. -/
def andThen (done : List Node) (p : Parsed) (more : List Node → Supply → ParsedMany) :
    ParsedMany :=
  match p with
  | (n, some s) => more (n :: done) s
  | (n, none) => ((n :: done).reverse, none)

/-- A node, or the empty node where one of the tokens in `without` follows. -/
def orEmpty (without : List Token) (read : Supply → Parsed) (s : Supply) : Parsed :=
  match s.peek with
  | .error f => stop f
  | .ok p => if without.contains p.token then (empty p.mark, some s) else read s

/-- The empty node at the next token. -/
def emptyHere (s : Supply) : Parsed :=
  match s.peek with
  | .error f => stop f
  | .ok p => (empty p.mark, some s)

/-- The value of a pair, from its value token on.  Without that token it is empty.
Where one of the tokens in `without` follows it is empty too, and it then stands
at the value token. -/
def pairValue (without : List Token) (read : Supply → Parsed) (s : Supply) : Parsed :=
  match s.peek with
  | .error f => stop f
  | .ok p =>
    if p.token = .value then
      match s.skip.peek with
      | .error f => stop f
      | .ok q =>
        if without.contains q.token then (empty p.mark, some s.skip) else read s.skip
    else (empty p.mark, some s)

/-- A collection is complete: its node, recorded for its anchor. -/
def collection (make : List Node → Node) (anchor : Option Nat) (p : ParsedMany) : Parsed :=
  let n := make p.1
  (n, p.2.map (·.define anchor n))

mutual

/-- A node.  Block collections may begin one only where `block` says so, and
entries without an indentation of their own only where `indentless` does. -/
def read (block indentless : Bool) : (fuel : Nat) → Supply → Parsed
  | 0, s => stop s.ending
  | fuel + 1, s =>
    match s.peek with
    | .error f => stop f
    | .ok p =>
      match p.token with
      | .reference name =>
        match s.aliased name p.mark with
        | .error f => stop f
        | .ok n => (n, some { s.skip with aliasCount := s.aliasCount + 1 })
      | _ =>
        match s.properties with
        | .error f => stop f
        | .ok (props, s) => content block indentless props fuel s

/-- A node after its properties. -/
def content (block indentless : Bool) (props : Supply.Properties) :
    (fuel : Nat) → Supply → Parsed
  | 0, s => stop s.ending
  | fuel + 1, s =>
    match s.peek with
    | .error f => stop f
    | .ok p =>
      match p.token with
      | .scalar style text =>
        let n := .scalar p.mark props.tag style text
        (n, some (s.skip.define props.anchor n))
      | .flowSequenceStart =>
        collection (.list p.mark) props.anchor (flowSequence true [] fuel s.skip)
      | .flowMappingStart =>
        collection (.mapping p.mark) props.anchor (flowMapping true [] fuel s.skip)
      | t =>
        if t = .blockEntry && indentless then
          collection (.list p.mark) props.anchor (entries [] fuel s)
        else if t = .blockSequenceStart && block then
          collection (.list p.mark) props.anchor (blockSequence [] fuel s.skip)
        else if t = .blockMappingStart && block then
          collection (.mapping p.mark) props.anchor (blockMapping [] fuel s.skip)
        else if props.given then
          let n := .scalar p.mark props.tag .plain []
          (n, some (s.define props.anchor n))
        else stop ⟨.nodeExpected, p.mark⟩

/-- The items of a block sequence. -/
def blockSequence (done : List Node) : (fuel : Nat) → Supply → ParsedMany
  | 0, s => stopAfter done s.ending
  | fuel + 1, s =>
    match s.peek with
    | .error f => stopAfter done f
    | .ok p =>
      match p.token with
      | .blockEnd => close done s.skip
      | .blockEntry =>
        andThen done (orEmpty [.blockEntry, .blockEnd] (read true false fuel) s.skip)
          fun done s => blockSequence done fuel s
      | _ => stopAfter done ⟨.blockSequenceEntry, p.mark⟩

/-- The items of a sequence that has the indentation of the mapping around it. -/
def entries (done : List Node) : (fuel : Nat) → Supply → ParsedMany
  | 0, s => stopAfter done s.ending
  | fuel + 1, s =>
    match s.peek with
    | .error f => stopAfter done f
    | .ok p =>
      if p.token = .blockEntry then
        andThen done
          (orEmpty [.blockEntry, .key, .value, .blockEnd] (read true false fuel) s.skip)
          fun done s => entries done fuel s
      else close done s

/-- The pairs of a block mapping. -/
def blockMapping (done : List Node) : (fuel : Nat) → Supply → ParsedMany
  | 0, s => stopAfter done s.ending
  | fuel + 1, s =>
    match s.peek with
    | .error f => stopAfter done f
    | .ok p =>
      let value := fun done s =>
        andThen done (pairValue [.key, .value, .blockEnd] (read true true fuel) s)
          fun done s => blockMapping done fuel s
      match p.token with
      | .blockEnd => close done s.skip
      | .key =>
        andThen done (orEmpty [.key, .value, .blockEnd] (read true true fuel) s.skip) value
      | .value => value (empty p.mark :: done) s
      | _ => stopAfter done ⟨.blockMappingKey, p.mark⟩

/-- The pairs of a flow mapping. -/
def flowMapping (first : Bool) (done : List Node) : (fuel : Nat) → Supply → ParsedMany
  | 0, s => stopAfter done s.ending
  | fuel + 1, s =>
    match s.peek with
    | .error f => stopAfter done f
    | .ok p =>
      if p.token = .flowMappingEnd then close done s.skip
      else if !first && p.token ≠ Token.flowEntry then
        stopAfter done ⟨.flowMappingSeparator, p.mark⟩
      else
        let s := if first then s else s.skip
        match s.peek with
        | .error f => stopAfter done f
        | .ok p =>
          let next := fun done s => flowMapping false done fuel s
          let value := fun done s =>
            andThen done (pairValue [.flowEntry, .flowMappingEnd] (read false false fuel) s) next
          match p.token with
          | .key =>
            andThen done
              (orEmpty [.value, .flowEntry, .flowMappingEnd] (read false false fuel) s.skip) value
          | .value => value (empty p.mark :: done) s
          | .flowMappingEnd => close done s.skip
          | _ =>
            andThen done (read false false fuel s) fun done s => andThen done (emptyHere s) next

/-- The items of a flow sequence.  A key token makes an item a mapping of one
pair. -/
def flowSequence (first : Bool) (done : List Node) : (fuel : Nat) → Supply → ParsedMany
  | 0, s => stopAfter done s.ending
  | fuel + 1, s =>
    match s.peek with
    | .error f => stopAfter done f
    | .ok p =>
      if p.token = .flowSequenceEnd then close done s.skip
      else if !first && p.token ≠ Token.flowEntry then
        stopAfter done ⟨.flowSequenceSeparator, p.mark⟩
      else
        let s := if first then s else s.skip
        match s.peek with
        | .error f => stopAfter done f
        | .ok p =>
          let next := fun done s => flowSequence false done fuel s
          match p.token with
          | .flowSequenceEnd => close done s.skip
          | .key =>
            andThen done
              (collection (.mapping p.mark) none
                (andThen []
                  (orEmpty [.value, .flowEntry, .flowSequenceEnd] (read false false fuel) s.skip)
                  fun key s =>
                    andThen key
                      (pairValue [.flowEntry, .flowSequenceEnd] (read false false fuel) s) close))
              next
          | _ => andThen done (read false false fuel s) next

end

end Node
end Yaml
end PolicyLint
