/-
Paths, as bytes and as sequences of components.

A path is kept as it was written.  Two paths are the same path when their
components are equal: separators may be repeated, and dots between them do not
count, except one at the very beginning.  Paths are ordered by their components.
-/
import PolicyLint.Bytes

namespace PolicyLint
namespace Path

/-- The separator. -/
@[match_pattern]
abbrev slash : UInt8 := 0x2F

@[match_pattern]
abbrev dot : UInt8 := 0x2E

inductive Component where
  /-- The separator that an absolute path begins with. -/
  | root
  /-- A leading dot. -/
  | here
  /-- Two dots. -/
  | up
  | name (n : Bytes)
deriving DecidableEq, Repr

def isAbsolute (p : Bytes) : Bool :=
  p.head? = some slash

/-- `p` as seen from `base`. -/
def join (base p : Bytes) : Bytes :=
  if isAbsolute p then p
  else if base.isEmpty || base.getLast? = some slash then base ++ p
  else base ++ slash :: p

/-- True for what stands between separators without being a component. -/
def isFiller (piece : Bytes) : Bool :=
  piece.isEmpty || piece = [dot]

/-- The component at the very beginning that only stands there, if there is one,
and the pieces after it. -/
def split (p : Bytes) : Option Component × List Bytes :=
  match Text.pieces slash p with
  | [] :: rest => if isAbsolute p then (some .root, rest) else (none, [])
  | [dot] :: rest => (some .here, rest)
  | ps => (none, ps)

def component (piece : Bytes) : Component :=
  if piece = [dot, dot] then .up else .name piece

def components (p : Bytes) : List Component :=
  let (first, ps) := split p
  first.toList ++ (ps.filter (!isFiller ·)).map component

/-- True when both spell the same path. -/
def same (p q : Bytes) : Bool :=
  components p = components q

theorem same_iff {p q : Bytes} : same p q = true ↔ components p = components q := by
  simp [same]

/-- The pieces left after the first `n` components. -/
def dropComponents : (n : Nat) → List Bytes → List Bytes
  | 0, ps => ps
  | _ + 1, [] => []
  | n + 1, p :: ps => if isFiller p then dropComponents (n + 1) ps else dropComponents n ps

def trimPiecesStart (ps : List Bytes) : List Bytes :=
  ps.dropWhile isFiller

def trimPiecesEnd (ps : List Bytes) : List Bytes :=
  (ps.reverse.dropWhile isFiller).reverse

def ofPieces (ps : List Bytes) : Bytes :=
  Text.join [slash] ps

/-- The path without the fillers at its end. -/
def trimEnd (p : Bytes) : Bytes :=
  let (first, ps) := split p
  let ps := trimPiecesEnd ps
  match first with
  | some .root => slash :: ofPieces ps
  | some .here => if ps.isEmpty then [dot] else dot :: slash :: ofPieces ps
  | _ => ofPieces ps

/-- What follows `base` in `p`, if `p` begins with the components of `base`.
Fillers at its ends are left out.  After a base without components the beginning
of `p` stays as it is. -/
def below? (base p : Bytes) : Option Bytes :=
  let bs := components base
  if bs.isEmpty then some (trimEnd p)
  else if bs.isPrefixOf (components p) then
    let (first, ps) := split p
    let n := bs.length - first.toList.length
    some (ofPieces (trimPiecesEnd (trimPiecesStart (dropComponents n ps))))
  else none

/-- `p` as shown to a reader who knows `base`. -/
def relative (base p : Bytes) : Bytes :=
  (below? base p).getD p

namespace Component

/-- The kinds of components in their order. -/
def rank : Component → Nat
  | root => 0
  | here => 1
  | up => 2
  | name _ => 3

def before : Component → Component → Bool
  | name a, name b => Bytes.before a b
  | a, b => a.rank < b.rank

end Component

/-- Not later in the order of sequences of components. -/
def leComponents : List Component → List Component → Bool
  | [], _ => true
  | _ :: _, [] => false
  | a :: as, b :: bs => a.before b || (a = b && leComponents as bs)

/-- Not later in the order of paths. -/
def le (p q : Bytes) : Bool :=
  leComponents (components p) (components q)

/-- What follows the last dot of a file name, unless that dot is its first
character. -/
def extension (name : Bytes) : Option Bytes :=
  let back := name.reverse
  let ext := back.takeWhile (· ≠ dot)
  match back.drop ext.length with
  | [] => none
  | [_] => none
  | _ => if name = [dot, dot] then none else some ext.reverse

end Path
end PolicyLint
