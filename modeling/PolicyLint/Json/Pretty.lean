/-
JSON documents as text.

Every member and element stands on a line of its own, indented by two spaces for
each collection around it.  Empty collections are written without a line break.
-/
import PolicyLint.Json.Quoted

namespace PolicyLint
namespace Json
namespace Pretty

/-- A line end and the indentation of the next line. -/
def newline (depth : Nat) : Text :=
  '\n' :: List.replicate (2 * depth) ' '

/-- A number: its sign, its significand, and its exponent if it has one. -/
def number (n : Decimal) : Text :=
  let digits := (if n.negative then ['-'] else []) ++ Text.numeral n.significand
  if n.exponent = 0 then digits
  else if n.exponent < 0 then digits ++ ['e', '-'] ++ Text.numeral n.exponent.natAbs
  else digits ++ 'e' :: Text.numeral n.exponent.natAbs

mutual

/-- A value inside `depth` collections. -/
def value (depth : Nat) : Data → Text
  | .null => "null".toList
  | .bool true => "true".toList
  | .bool false => "false".toList
  | .number n => number n
  | .string s => Quoted.write s
  | .list [] => "[]".toList
  | .list (v :: vs) =>
    '[' :: newline (depth + 1) ++ value (depth + 1) v ++ elements (depth + 1) vs
      ++ newline depth ++ [']']
  | .mapping [] => ['\x7b', '\x7d']
  | .mapping ((k, v) :: ms) =>
    '\x7b' :: newline (depth + 1) ++ Quoted.write k ++ ": ".toList ++ value (depth + 1) v
      ++ members (depth + 1) ms ++ newline depth ++ ['\x7d']

/-- The elements after the first one. -/
def elements (depth : Nat) : List Data → Text
  | [] => []
  | v :: vs => ',' :: newline depth ++ value depth v ++ elements depth vs

/-- The members after the first one. -/
def members (depth : Nat) : List (Text × Data) → Text
  | [] => []
  | (k, v) :: ms =>
    ',' :: newline depth ++ Quoted.write k ++ ": ".toList ++ value depth v ++ members depth ms

end

end Pretty

/-- A value as text. -/
def pretty (v : Data) : Text :=
  Pretty.value 0 v

end Json
end PolicyLint
