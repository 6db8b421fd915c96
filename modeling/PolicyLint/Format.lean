/-
The two formats of a block.
-/
import PolicyLint.Text.Basic

namespace PolicyLint

inductive Format where
  | yaml
  | json
deriving DecidableEq, Repr

namespace Format

def name : Format → Text
  | yaml => "yaml".toList
  | json => "json".toList

/-- The name that log lines use. -/
def title : Format → Text
  | yaml => "Yaml".toList
  | json => "Json".toList

/-- The format that an info string declares: the one whose name it begins with. -/
def ofInfo (info : Text) : Option Format :=
  if yaml.name.isPrefixOf info then some yaml
  else if json.name.isPrefixOf info then some json
  else none

end Format
end PolicyLint
