/-
The tokens of a YAML text.

Besides the characters that structure a document, tokens mark where block
collections begin and end and where keys stand, which only indentation and later
characters can tell.
-/
import PolicyLint.Yaml.Fault

namespace PolicyLint
namespace Yaml

/-- How a scalar is written. -/
inductive Style where
  | plain
  | single
  | double
  | literal
  | folded
deriving DecidableEq, Repr

inductive Token where
  | streamEnd
  | versionDirective
  | tagDirective (handle lead : Text)
  | documentStart
  | documentEnd
  | blockSequenceStart
  | blockMappingStart
  | blockEnd
  | flowSequenceStart
  | flowSequenceEnd
  | flowMappingStart
  | flowMappingEnd
  | blockEntry
  | flowEntry
  | key
  | value
  | reference (name : Text)
  | anchor (name : Text)
  | tag (handle suffix : Text)
  | scalar (style : Style) (text : Text)
deriving DecidableEq, Repr

/-- A token and where it begins. -/
structure Placed where
  token : Token
  mark : Mark
deriving DecidableEq, Repr

/-- The tokens that can be told apart, and the fault that ends them if one
does. -/
structure Feed where
  tokens : List Placed
  fault : Option Fault
deriving Repr

end Yaml
end PolicyLint
