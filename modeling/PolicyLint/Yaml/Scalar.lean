/-
The values of scalars.

A quoted scalar is a string.  A plain one is null, a boolean, a number or a
string by its text alone.
-/
import PolicyLint.Data
import PolicyLint.Yaml.Base64
import PolicyLint.Yaml.Character
import PolicyLint.Yaml.Node

namespace PolicyLint
namespace Yaml
namespace Scalar

def bool? (t : Text) : Option Bool :=
  let word := t.map Char.toLower
  if ["true", "yes", "y", "on"].any (·.toList = word) then some true
  else if ["false", "no", "n", "off"].any (·.toList = word) then some false
  else none

/-- The value of digits in a base up to sixteen, underscores between them
ignored. -/
def digits? (base : Nat) (t : Text) : Option Nat :=
  let ds := t.filter (· ≠ '_')
  if ds.isEmpty then none
  else ds.foldl (fun n c => do
    let n ← n
    let d ← hexValue c
    if d < base then some (n * base + d) else none) (some 0)

/-- A sign and what it applies to. -/
def sign : Text → Bool × Text
  | '-' :: rest => (true, rest)
  | '+' :: rest => (false, rest)
  | rest => (false, rest)

def int? (t : Text) : Option Decimal :=
  let (negative, t) := sign t
  let n :=
    match t with
    | '0' :: 'x' :: rest => digits? 16 rest
    | '0' :: 'X' :: rest => digits? 16 rest
    | '0' :: 'o' :: rest => digits? 8 rest
    | '0' :: 'O' :: rest => digits? 8 rest
    | '0' :: 'b' :: rest => digits? 2 rest
    | '0' :: 'B' :: rest => digits? 2 rest
    | _ => digits? 10 t
  n.map (⟨negative, ·, 0⟩)

/-- The exponent part of a decimal fraction, empty or after an `e`. -/
def exponent? : Text → Option Int
  | [] => some 0
  | e :: rest =>
    if e = 'e' || e = 'E' then
      let (negative, ds) := sign rest
      if ds.all Char.isDigit then
        (digits? 10 ds).map fun n => if negative then -(n : Int) else n
      else none
    else none

def float? (t : Text) : Option Decimal := do
  let (negative, t) := sign t
  let whole := t.takeWhile Char.isDigit
  let rest := t.drop whole.length
  let fraction :=
    match rest with
    | '.' :: rest => rest.takeWhile Char.isDigit
    | _ => []
  let rest :=
    match rest with
    | '.' :: rest => rest.drop fraction.length
    | rest => rest
  let m ← digits? 10 (whole ++ fraction)
  let e ← exponent? rest
  some ⟨negative, m, e - fraction.length⟩

/-- The value of a plain scalar. -/
def ofPlain (t : Text) : Data :=
  if Node.isNullText t then .null
  else
    match bool? t with
    | some b => .bool b
    | none =>
      match (int? t).or (float? t) with
      | some n => .number n
      | none => .string t

/-- The text of a scalar that is read as a string. -/
def string (mark : Mark) (tag : Tag) (t : Text) : Except Fault Text :=
  match tag with
  | .binary =>
    match Base64.decode t with
    | none => fail .binaryBase64 mark
    | some bytes =>
      match Text.ofUtf8? bytes with
      | none => fail .binaryUtf8 mark
      | some s => .ok s
  | .typed _ => fail .taggedScalar mark
  | _ => .ok t

/-- The value of a scalar. -/
def value (mark : Mark) (tag : Tag) (style : Style) (t : Text) : Except Fault Data :=
  match tag with
  | .null => .ok .null
  | .binary => (string mark tag t).map .string
  | .typed _ => fail .taggedScalar mark
  | _ => .ok (if style = .plain then ofPlain t else .string t)

/-- True when a scalar is null where a string is asked for. -/
def isNull (tag : Tag) (style : Style) (t : Text) : Bool :=
  tag = .null || (style = .plain && tag ≠ Tag.string && tag ≠ Tag.binary && Node.isNullText t)

/-- The text of a scalar that is a mapping's key. -/
def key (mark : Mark) (tag : Tag) (style : Style) (t : Text) : Except Fault Text :=
  if isNull tag style t then fail .nullKey mark else string mark tag t

end Scalar
end Yaml
end PolicyLint
