/-
Tags, as far as they decide how a scalar is read.

A tag is written as a handle and a suffix, and the handle stands for a lead.
`!!` stands for the lead of the core tags unless a directive says otherwise.
Only the last directive before a document counts.
-/
import PolicyLint.Yaml.Fault

namespace PolicyLint
namespace Yaml

inductive Tag where
  /-- No tag. -/
  | absent
  | string
  | null
  | binary
  /-- A type whose scalars are not strings. -/
  | typed (name : Text)
  /-- A tag that says nothing about the value. -/
  | unknown
deriving DecidableEq, Repr

namespace Tag

/-- The lead of the core tags. -/
def coreLead : Text := "tag:yaml.org,2002:".toList

/-- The types that both leads know. -/
def typedNames : List Text :=
  ["int", "float", "bool", "seq", "map", "timestamp"].map String.toList

/-- The types that only the local lead knows. -/
def localNames : List Text :=
  ["degrees", "radians"].map String.toList

/-- The meaning of a lead and a suffix. -/
def ofParts (lead suffix : Text) : Tag :=
  if lead = coreLead || lead = ['!'] then
    if suffix = "str".toList then .string
    else if suffix = "null".toList then .null
    else if suffix = "binary".toList then .binary
    else if typedNames.contains suffix then .typed suffix
    else if lead = ['!'] && localNames.contains suffix then .typed suffix
    else .unknown
  else .unknown

/-- True for `!name!`, which has no meaning of its own. -/
def isNamedHandle (handle : Text) : Bool :=
  handle.length ≥ 2 && handle.head? = some '!' && handle.getLast? = some '!'

/-- The tag with the given handle and suffix.  `declared` is the directive in
force; a fault is reported at `mark`. -/
def resolve (declared : Option (Text × Text)) (handle suffix : Text) (mark : Mark) :
    Except Fault Tag :=
  match declared.filter (·.1 = handle) with
  | some (_, lead) => .ok (ofParts lead suffix)
  | none =>
    if handle = "!!".toList then .ok (ofParts coreLead suffix)
    else if isNamedHandle handle then fail .undeclaredHandle mark
    else .ok (ofParts handle suffix)

end Tag
end Yaml
end PolicyLint
