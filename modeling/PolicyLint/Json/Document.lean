/-
JSON documents.

The reader follows RFC 8259 strictly.  Collections may be nested up to 127 deep.
-/
import PolicyLint.Json.Quoted

namespace PolicyLint
namespace Json

/-- White space between tokens. -/
def isSpace (c : Char) : Bool :=
  c = ' ' || c = '\t' || c = '\n' || c = '\r'

def skipSpace (t : Text) : Text :=
  t.dropWhile isSpace

/-- How many collections may be open at once. -/
def maxNesting : Nat := 127

/-- The remaining letters of a fixed word. -/
def word (value : Data) : (letters : Text) → Text → Read Data
  | [], rest => .ok (value, rest)
  | _ :: _, [] => failAt .endInValue []
  | l :: letters, c :: rest =>
    if l = c then word value letters rest else failAt .expectedIdent (c :: rest)

/-- The elements of a list, after the bracket or after a comma that another
element follows.  `done` holds the elements read, back to front, and every round
uses up a character of `fuel`. -/
def elements (read : Text → Read Data) (done : List Data) :
    (fuel : Text) → Text → Except Failure (Data × Text)
  | [], rest => failAt .endInList rest
  | _ :: fuel, rest => do
    let (item, rest) ← read rest
    match skipSpace rest with
    | [] => failAt .endInList []
    | ']' :: rest => .ok (.list (item :: done).reverse, rest)
    | ',' :: rest =>
      match skipSpace rest with
      | [] => failAt .endInValue []
      | ']' :: rest => failAt .trailingComma (']' :: rest)
      | rest => elements read (item :: done) fuel rest
    | rest => failAt .expectedListSeparator rest

/-- A list, after its opening bracket. -/
def list (read : Text → Read Data) (t : Text) : Read Data :=
  match skipSpace t with
  | [] => failAt .endInList []
  | ']' :: rest => .ok (.list [], rest)
  | rest => elements read [] t rest

/-- The value of a member, from the colon on. -/
def memberValue (read : Text → Read Data) (t : Text) : Read Data :=
  match skipSpace t with
  | [] => failAt .endInObject []
  | ':' :: rest => read rest
  | rest => failAt .expectedColon rest

/-- The members of an object, each after the quote that opens its key. -/
def members (read : Text → Read Data) (done : List (Text × Data)) :
    (fuel : Text) → Text → Except Failure (Data × Text)
  | [], rest => failAt .endInObject rest
  | _ :: fuel, rest => do
    let (key, rest) ← Quoted.read rest
    let (value, rest) ← memberValue read rest
    match skipSpace rest with
    | [] => failAt .endInObject []
    | '\x7d' :: rest => .ok (.mapping ((key, value) :: done).reverse, rest)
    | ',' :: rest =>
      match skipSpace rest with
      | [] => failAt .endInValue []
      | '\x7d' :: rest => failAt .trailingComma ('\x7d' :: rest)
      | '"' :: rest => members read ((key, value) :: done) fuel rest
      | rest => failAt .keyNotString rest
    | rest => failAt .expectedObjectSeparator rest

/-- An object, after its opening brace. -/
def object (read : Text → Read Data) (t : Text) : Read Data :=
  match skipSpace t with
  | [] => failAt .endInObject []
  | '\x7d' :: rest => .ok (.mapping [], rest)
  | '"' :: rest => members read [] t rest
  | rest => failAt .keyNotString rest

/-- A value at its first character, when it is not a collection. -/
def scalar (t : Text) : Read Data :=
  match t with
  | [] => failAt .endInValue []
  | 'n' :: rest => word .null ['u', 'l', 'l'] rest
  | 't' :: rest => word (.bool true) ['r', 'u', 'e'] rest
  | 'f' :: rest => word (.bool false) ['a', 'l', 's', 'e'] rest
  | '"' :: rest => (Quoted.read rest).map fun (s, rest) => (.string s, rest)
  | c :: _ =>
    if c = '-' || Number.isDigit c then
      (Number.read t).map fun (n, rest) => (.number n, rest)
    else failAt .expectedValue t

/-- A value with the white space before it, inside which at most `depth`
collections may be open. -/
def value : (depth : Nat) → Text → Read Data
  | 0 => fun t =>
    match skipSpace t with
    | '[' :: rest => failAt .tooDeep ('[' :: rest)
    | '\x7b' :: rest => failAt .tooDeep ('\x7b' :: rest)
    | rest => scalar rest
  | depth + 1 => fun t =>
    match skipSpace t with
    | '[' :: rest => list (value depth) rest
    | '\x7b' :: rest => object (value depth) rest
    | rest => scalar rest

/-- The document that the whole text is. -/
def document (t : Text) : Except Failure Data := do
  let (v, rest) ← value maxNesting t
  match skipSpace rest with
  | [] => .ok v
  | rest => failAt .trailingCharacters rest

/-- The document, or the message that says why there is none. -/
def parse (t : Text) : Except Text Data :=
  (document t).mapError (·.message t)

end Json
end PolicyLint
