/-
JSON numbers.

A number is accepted when its magnitude is within the range of a binary64
float.  The reader keeps a significand below `2 ^ 64`: digits that would take it
past that bound only move the exponent.  The significand is rounded to 53 bits,
multiplied by the power of ten, and the number is out of range when the product
rounds beyond the largest finite float.
-/
import PolicyLint.Data
import PolicyLint.Json.Failure

namespace PolicyLint
namespace Json

/-- What reading one part of a text gives: the part and the rest, or a failure. -/
abbrev Read (α : Type) := Except Failure (α × Text)

/-- Failure at the first character of `rest`, or at the end of the text. -/
def failAt (cause : Cause) (rest : Text) : Except Failure α :=
  .error ⟨cause, rest, 1⟩

/-- Failure at what comes before `rest`. -/
def failBefore (cause : Cause) (rest : Text) : Except Failure α :=
  .error ⟨cause, rest, 0⟩

namespace Number

def isDigit (c : Char) : Bool :=
  '0' ≤ c && c ≤ '9'

def digitValue (c : Char) : Nat :=
  c.toNat - '0'.toNat

/-- One more than the largest significand kept. -/
def significandBound : Nat := Nat.pow 2 64

/-- One more than the largest exponent written with a digit that is read. -/
def exponentBound : Nat := Nat.pow 2 31

/-- The nearest natural number with at most 53 significant bits, ties going to
the even one. -/
def roundBinary64 (n : Nat) : Nat :=
  let unit := Nat.pow 2 (n.log2 - 52)
  let q := n / unit
  let r := n % unit
  if 2 * r > unit || (2 * r = unit && q % 2 = 1) then (q + 1) * unit else q * unit

/-- The magnitudes that round to no finite binary64 float start here. -/
def overflow : Nat := Nat.pow 2 1024 - Nat.pow 2 970

/-- True when `m * 10 ^ e`, for a significand `m` and a power of ten, has no
finite binary64 float. -/
def exceeds (m : Nat) (e : Int) : Bool :=
  e > 308 && m ≠ 0 ||
    e ≥ 0 && e ≤ 308 && roundBinary64 m * roundBinary64 (Nat.pow 10 e.toNat) ≥ overflow

/-- The number with the given parts; `rest` is where it ends. -/
def build (negative : Bool) (m : Nat) (e : Int) (rest : Text) : Read Decimal :=
  if exceeds m e then failBefore .numberOutOfRange rest
  else .ok (⟨negative, m, e⟩, rest)

/-- The digits after the exponent's first one.  Once the exponent grows past its
bound the number is out of range if it is large and zero if it is small. -/
def exponentDigits (negative : Bool) (m : Nat) (e : Int) (down : Bool) (x : Nat) :
    Text → Read Decimal
  | [] => build negative m (if down then e - x else e + x) []
  | c :: rest =>
    if isDigit c then
      let x' := 10 * x + digitValue c
      if x' < exponentBound then exponentDigits negative m e down x' rest
      else if m ≠ 0 && !down then failBefore .numberOutOfRange rest
      else .ok (⟨negative, 0, 0⟩, rest.dropWhile isDigit)
    else build negative m (if down then e - x else e + x) (c :: rest)

/-- The exponent's first digit. -/
def exponentStart (negative : Bool) (m : Nat) (e : Int) (down : Bool) :
    Text → Read Decimal
  | [] => failAt .endInValue []
  | c :: rest =>
    if isDigit c then exponentDigits negative m e down (digitValue c) rest
    else failAt .invalidNumber (c :: rest)

/-- An exponent if there is one, after the digits. -/
def exponentPart (negative : Bool) (m : Nat) (e : Int) : Text → Read Decimal
  | c :: rest =>
    if c = 'e' || c = 'E' then
      match rest with
      | '+' :: rest' => exponentStart negative m e false rest'
      | '-' :: rest' => exponentStart negative m e true rest'
      | _ => exponentStart negative m e false rest
    else build negative m e (c :: rest)
  | [] => build negative m e []

/-- The digits after the point; `seen` tells whether there was one.  The first
digit that does not fit ends the significand. -/
def fractionDigits (negative : Bool) (m : Nat) (e : Int) (seen : Bool) :
    Text → Read Decimal
  | [] => if seen then exponentPart negative m e [] else failAt .endInValue []
  | c :: rest =>
    if isDigit c then
      let m' := 10 * m + digitValue c
      if m' < significandBound then fractionDigits negative m' (e - 1) true rest
      else exponentPart negative m e (rest.dropWhile isDigit)
    else if seen then exponentPart negative m e (c :: rest)
    else failAt .invalidNumber (c :: rest)

/-- What may follow the integer digits. -/
def afterInteger (negative : Bool) (m : Nat) (e : Int) : Text → Read Decimal
  | '.' :: rest => fractionDigits negative m e false rest
  | rest => exponentPart negative m e rest

/-- The integer digits after the first one.  Once a digit does not fit, it and
all later ones only move the exponent. -/
def integerDigits (negative : Bool) (m : Nat) : Text → Read Decimal
  | [] => afterInteger negative m 0 []
  | c :: rest =>
    if isDigit c then
      let m' := 10 * m + digitValue c
      if m' < significandBound then integerDigits negative m' rest
      else
        let tail := (c :: rest).dropWhile isDigit
        afterInteger negative m ((c :: rest).length - tail.length : Nat) tail
    else afterInteger negative m 0 (c :: rest)

/-- The first integer digit; nothing but a point or an exponent may follow a
leading zero. -/
def integerStart (negative : Bool) : Text → Read Decimal
  | [] => failAt .endInValue []
  | c :: rest =>
    if c = '0' then
      match rest with
      | d :: _ =>
        if isDigit d then failAt .invalidNumber rest else afterInteger negative 0 0 rest
      | [] => afterInteger negative 0 0 []
    else if isDigit c then integerDigits negative (digitValue c) rest
    else failAt .invalidNumber (c :: rest)

/-- A number, at its sign or first digit. -/
def read : Text → Read Decimal
  | '-' :: rest => integerStart true rest
  | rest => integerStart false rest

end Number
end Json
end PolicyLint
