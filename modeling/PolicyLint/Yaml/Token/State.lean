/-
What has to be remembered between tokens.

A key is seen only when its colon is: until then the place where the key token
would go is kept as a possible key, one for every open flow collection and one
for the block around them.  Tokens from the first possible key on can still
change, so only those before it are settled.
-/
import PolicyLint.Yaml.Cursor
import PolicyLint.Yaml.Token

namespace PolicyLint
namespace Yaml

/-- A place where a key may turn out to begin: how many tokens stand before it,
and whether the block around it needs a key there. -/
structure PossibleKey where
  required : Bool
  number : Nat
  mark : Mark
deriving Repr

/-- A level of indentation.  `outer` is the column of the level around it;
`block` tells whether a token marks its end. -/
structure Level where
  outer : Int
  block : Bool
deriving Repr

/-- Whether the entry of a flow sequence has become a mapping of a single pair,
and in how many flow collections that pair stands. -/
inductive Pair where
  | possible
  | inside (depth : Nat)
deriving DecidableEq, Repr

structure State where
  cursor : Cursor
  /-- The tokens so far, back to front. -/
  placed : List Placed
  /-- How many tokens there are. -/
  count : Nat
  /-- How many of them were settled before the current step. -/
  settled : Nat
  /-- Whether a key may begin here. -/
  keyAllowed : Bool
  /-- The possible keys, that of the innermost flow collection first. -/
  keys : List (Option PossibleKey)
  /-- The column of the innermost level, `-1` outside all. -/
  indent : Int
  levels : List Level
  /-- The index at which a colon needs no gap after it. -/
  adjacent : Nat
  /-- Whether the pairs read here belong to a flow mapping that has begun. -/
  mappingBegun : Bool
  /-- One entry for every open flow sequence, the innermost first. -/
  pairs : List Pair
deriving Repr

namespace State

def start (t : Text) : State where
  cursor := Cursor.ofText t
  placed := []
  count := 0
  settled := 0
  keyAllowed := true
  keys := [none]
  indent := -1
  levels := []
  adjacent := 0
  mappingBegun := false
  pairs := []

def mark (s : State) : Mark := s.cursor.mark

def column (s : State) : Nat := s.cursor.mark.column

/-- How many flow collections are open. -/
def flowDepth (s : State) : Nat := s.keys.length - 1

def inFlow (s : State) : Bool := s.keys.length > 1

/-- Add a token. -/
def push (token : Token) (mark : Mark) (s : State) : State :=
  { s with placed := ⟨token, mark⟩ :: s.placed, count := s.count + 1 }

/-- Put a token where `number` tokens stand before it. -/
def insert (number : Nat) (token : Token) (mark : Mark) (s : State) : State :=
  { s with
    placed := s.placed.insertIdx (s.count - number) ⟨token, mark⟩
    count := s.count + 1 }

def allowKey (b : Bool) (s : State) : State :=
  { s with keyAllowed := b }

/-- The innermost possible key. -/
def possibleKey (s : State) : Option PossibleKey :=
  s.keys.headD none

/-- Replace the innermost possible key. -/
def setKey (k : Option PossibleKey) (s : State) : State :=
  { s with keys := k :: s.keys.tail }

/-- How many tokens can no longer change. -/
def settledCount (s : State) : Nat :=
  s.keys.foldl (fun n k => match k with | some k => min n k.number | none => n) s.count

/-- True when the innermost level ends with a token. -/
def inBlockLevel (s : State) : Bool :=
  match s.levels with
  | l :: _ => l.block
  | [] => false

/-- Remember that a key may begin here, if one is allowed. -/
def saveKey (s : State) : State :=
  if s.keyAllowed then
    s.setKey <| some
      { required := !s.inFlow && s.indent = (s.column : Int) && s.inBlockLevel
        number := s.count
        mark := s.mark }
  else s

/-- Give up the innermost possible key; a required one must not be given up. -/
def dropKey (s : State) : Except Fault State :=
  match s.possibleKey with
  | some k => if k.required then fail .keyExpected s.mark else .ok (s.setKey none)
  | none => .ok s

/-- Give up the possible keys that can no longer get their colon: outside flow
collections a key stands on one line and has at most 1024 characters. -/
def dropStaleKeys (s : State) : Except Fault State :=
  match s.keys with
  | [some k] =>
    if k.mark.line < s.mark.line || k.mark.index + 1024 < s.mark.index then
      if k.required then fail .keyWithoutColon s.mark else .ok (s.setKey none)
    else .ok s
  | _ => .ok s

/-- Close the levels right of `column`. -/
def unroll (column : Int) (s : State) : State :=
  if s.inFlow then s else go s.levels s
where
  go : List Level → State → State
    | [], s => s
    | l :: ls, s =>
      if s.indent > column then
        let s := { s with indent := l.outer, levels := ls }
        go ls (if l.block then s.push .blockEnd s.mark else s)
      else s

/-- Close the innermost levels that no token ends. -/
def unrollSilent (s : State) : State :=
  go s.levels s
where
  go : List Level → State → State
    | [], s => s
    | l :: ls, s => if l.block then s else go ls { s with indent := l.outer, levels := ls }

/-- Open a level at `column` when it lies right of the innermost one.  Its token
goes where `number` tokens stand before it, or last. -/
def roll (column : Nat) (number : Option Nat) (token : Token) (mark : Mark) (s : State) :
    State :=
  if s.inFlow then s
  else
    let s :=
      match s.levels with
      | l :: ls =>
        if s.indent ≤ (column : Int) && !l.block then { s with indent := l.outer, levels := ls }
        else s
      | [] => s
    if s.indent < (column : Int) then
      let s := { s with indent := column, levels := ⟨s.indent, true⟩ :: s.levels }
      match number with
      | some n => s.insert n token mark
      | none => s.push token mark
    else s

/-- Open a level one column right of a block level, without a token: content has
to be indented more than the block. -/
def rollOne (s : State) : State :=
  if !s.inFlow && s.inBlockLevel then
    { s with indent := s.indent + 1, levels := ⟨s.indent, false⟩ :: s.levels }
  else s

/-- Close the pair that stands directly in the innermost flow sequence. -/
def closePair (s : State) : State :=
  match s.pairs with
  | .inside depth :: rest =>
    if depth = s.flowDepth then
      { s with mappingBegun := false, pairs := .possible :: rest }.push .flowMappingEnd s.mark
    else s
  | _ => s

end State
end Yaml
end PolicyLint
