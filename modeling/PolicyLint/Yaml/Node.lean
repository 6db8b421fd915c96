/-
The nodes of a YAML document.

A text may go wrong after its first nodes have been read, and what is wrong with
those is reported first.  So a fault is a node too: it stands where reading
stopped, and nothing follows it in the document.
-/
import PolicyLint.Yaml.Tag
import PolicyLint.Yaml.Token

namespace PolicyLint
namespace Yaml

inductive Node where
  | scalar (mark : Mark) (tag : Tag) (style : Style) (text : Text)
  | list (mark : Mark) (items : List Node)
  /-- Keys and values, by turns. -/
  | mapping (mark : Mark) (parts : List Node)
  /-- Where reading stopped. -/
  | broken (fault : Fault)
deriving Repr

namespace Node

/-- The node that stands where nothing is written. -/
def empty (mark : Mark) : Node :=
  .scalar mark .absent .plain []

mutual

/-- The fault in a node, if there is one. -/
def fault? : Node → Option Fault
  | .scalar .. => none
  | .list _ items => faultIn? items
  | .mapping _ parts => faultIn? parts
  | .broken f => some f

def faultIn? : List Node → Option Fault
  | [] => none
  | n :: rest => (fault? n).or (faultIn? rest)

end

/-- True for the empty text, a tilde, and the word null in any case. -/
def isNullText (t : Text) : Bool :=
  t.isEmpty || t = ['~'] || t.map Char.toLower = "null".toList

end Node
end Yaml
end PolicyLint
