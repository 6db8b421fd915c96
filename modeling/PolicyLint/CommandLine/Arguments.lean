/-
The arguments of the program.

Arguments are bytes, read from left to right.  An option's value may be attached to
it or be the next argument; in the second case it is checked only when the option is
known to be complete, so a fault in a later argument can come first.  A root need not
be a text; a fault in an argument that is none tells what a reader sees of it.
-/
import PolicyLint.Scan.Event

namespace PolicyLint
namespace CommandLine

inductive Output where
  | human
  | json
deriving DecidableEq, Repr

namespace Output

def name : Output → Text
  | human => "human".toList
  | json => "json".toList

def ofName (b : Bytes) : Option Output :=
  [human, json].find? (·.name.utf8 = b)

end Output

/-- The options that take a value. -/
inductive Setting where
  | root
  | format
deriving DecidableEq, Repr

namespace Setting

def name : Setting → Bytes
  | root => Bytes.of "root"
  | format => Bytes.of "format"

/-- The option and its value, as messages show them. -/
def shown : Setting → Text
  | root => "--root <ROOT>".toList
  | format => "--format <FORMAT>".toList

/-- The line that lists the values an option may have. -/
def values : Setting → List Text
  | root => []
  | format =>
    ["  [possible values: ".toList ++ Text.join ", ".toList ([.human, .json].map Output.name)
      ++ "]".toList]

end Setting

/-- The options that take no value. -/
inductive Flag where
  | verbose
  | help
  | version
deriving DecidableEq, Repr

namespace Flag

def name : Flag → Bytes
  | verbose => Bytes.of "verbose"
  | help => Bytes.of "help"
  | version => Bytes.of "version"

/-- The byte of its letter: v, h or V. -/
def letter : Flag → UInt8
  | verbose => 0x76
  | help => 0x68
  | version => 0x56

/-- The option, as messages show it. -/
def shown : Flag → Text
  | verbose => "--verbose...".toList
  | help => "--help".toList
  | version => "--version".toList

def all : List Flag := [verbose, help, version]

end Flag

/-- What is wrong with the arguments. -/
inductive Misuse where
  | missingValue (s : Setting)
  | invalidValue (s : Setting) (value : Text)
  | repeated (s : Setting)
  | unexpected (argument : Text)
  | unexpectedValue (f : Flag) (value : Text)
deriving DecidableEq, Repr

namespace Misuse

def usage : Text := "Usage: policy-snippet-validator [OPTIONS]".toList

def advice : Text := "For more information, try '--help'.".toList

/-- The lines that tell what is wrong. -/
def lines : Misuse → List Text
  | missingValue s =>
    ("error: a value is required for '".toList ++ s.shown ++ "' but none was supplied".toList)
      :: s.values ++ [[], advice]
  | invalidValue s value =>
    ("error: invalid value '".toList ++ value ++ "' for '".toList ++ s.shown ++ "'".toList)
      :: s.values ++ [[], advice]
  | repeated s =>
    ["error: the argument '".toList ++ s.shown ++ "' cannot be used multiple times".toList,
      [], usage, [], advice]
  | unexpected argument =>
    ["error: unexpected argument '".toList ++ argument ++ "' found".toList,
      [], usage, [], advice]
  | unexpectedValue f value =>
    ["error: unexpected value '".toList ++ value ++ "' for '".toList ++ f.shown
        ++ "' found; no more were expected".toList,
      [], usage, [], advice]

end Misuse

/-- What a scan is asked for. -/
structure Options where
  root : Bytes
  output : Output
  verbosity : Nat
deriving DecidableEq, Repr

/-- What the arguments ask for. -/
inductive Request where
  | scan (o : Options)
  | help
  | version
  | misuse (m : Misuse)
deriving DecidableEq, Repr

/-- The dash that options begin with. -/
@[match_pattern]
abbrev dash : UInt8 := 0x2D

/-- The sign between an option and a value attached to it. -/
abbrev equals : UInt8 := 0x3D

/-- What has been read of the arguments. -/
structure Given where
  root : Option Bytes
  output : Option Output
  verbosity : Nat
  /-- An option whose value is still to be checked, or to come. -/
  pending : Option (Setting × Option Bytes)
deriving Repr

namespace Given

def start : Given := ⟨none, none, 0, none⟩

/-- Set an option to a value.  An option may be set only once. -/
def assign (s : Setting) (value : Bytes) (g : Given) : Except Request Given :=
  match s with
  | .root =>
    if g.root.isSome then .error (.misuse (.repeated s))
    else if value.isEmpty then .error (.misuse (.missingValue s))
    else .ok { g with root := some value }
  | .format =>
    if g.output.isSome then .error (.misuse (.repeated s))
    else
      match Output.ofName value with
      | some o => .ok { g with output := some o }
      | none =>
        .error (.misuse (if value.isEmpty then .missingValue s else .invalidValue s value.shown))

/-- Check the pending option. -/
def settle (g : Given) : Except Request Given :=
  match g.pending with
  | none => .ok g
  | some (s, none) => .error (.misuse (.missingValue s))
  | some (s, some value) => { g with pending := none }.assign s value

/-- A flag takes effect at once. -/
def raise (f : Flag) (g : Given) : Except Request Given := do
  let g ← g.settle
  match f with
  | .verbose => .ok { g with verbosity := g.verbosity + 1 }
  | .help => .error .help
  | .version => .error .version

/-- What a reader sees of letters that name no flag: the first one, or all of them if no
character stands first. -/
def unknownLetter (letters : Bytes) : Text :=
  match letters.first? with
  | some c => [c]
  | none => letters.shown

/-- The letters after a single dash. -/
def letters : Bytes → Given → Except Request Given
  | [], g => .ok g
  | c :: rest, g =>
    match Flag.all.find? (·.letter = c) with
    | some f => do
      let g ← g.raise f
      letters rest g
    | none => .error (.misuse (.unexpected ('-' :: unknownLetter (c :: rest))))

/-- The name after two dashes, and the value attached to it. -/
def long (name : Bytes) (value : Option Bytes) (g : Given) : Except Request Given :=
  match [Setting.root, Setting.format].find? (·.name = name) with
  | some s => do
    let g ← g.settle
    match value with
    | some v => g.assign s v
    | none => .ok { g with pending := some (s, none) }
  | none =>
    match Flag.all.find? (·.name = name), value with
    | some f, none => g.raise f
    | some f, some v => .error (.misuse (.unexpectedValue f v.shown))
    | none, _ => .error (.misuse (.unexpected ('-' :: '-' :: name.shown)))

/-- An argument that is no option: the value of the option before it, or out of
place. -/
def word (argument : Bytes) (g : Given) : Except Request Given :=
  match g.pending with
  | some (s, none) => .ok { g with pending := some (s, some argument) }
  | _ => .error (.misuse (.unexpected argument.shown))

/-- The name and the attached value of a long option. -/
def splitValue (b : Bytes) : Bytes × Option Bytes :=
  let name := b.takeWhile (· ≠ equals)
  match b.drop name.length with
  | _ :: value => (name, some value)
  | [] => (name, none)

/-- One argument. -/
def argument (a : Bytes) (g : Given) : Except Request Given :=
  match a with
  | dash :: dash :: rest => g.long (splitValue rest).1 (splitValue rest).2
  | dash :: c :: rest => letters (c :: rest) g
  | _ => g.word a

/-- All arguments.  After two dashes alone only words may follow, and there is no
place for any. -/
def arguments : List Bytes → Given → Except Request Given
  | [], g => g.settle
  | a :: rest, g =>
    if a = [dash, dash] then
      match rest with
      | [] => g.settle
      | b :: _ => .error (.misuse (.unexpected b.shown))
    else do
      let g ← g.argument a
      arguments rest g

end Given

/-- The root when none is given. -/
def defaultRoot : Bytes := Bytes.of "."

/-- What the arguments ask for. -/
def request (args : List Bytes) : Request :=
  match Given.start.arguments args with
  | .ok g => .scan ⟨g.root.getD defaultRoot, g.output.getD .human, g.verbosity⟩
  | .error r => r

end CommandLine
end PolicyLint
