/-
A file tree.

A tree is a list of places and what stands there.  A place is the list of names
on the way to it from the top, the last name first, and holds no link on that
way, so that two directories are the same exactly when their places are.

Every directory of a tree can be listed and every file of it can be read.  What keeps
a user out of one, or breaks off while it is read, is no part of a tree.
-/
import PolicyLint.Path

namespace PolicyLint
namespace Files

/-- The names on the way from the top, the last one first. -/
abbrev Place := List Bytes

inductive Item where
  | file (bytes : ByteArray)
  | directory
  /-- A symbolic link with its target as written. -/
  | link (target : Bytes)

structure Tree where
  items : List (Place × Item)
  /-- Where relative paths begin. -/
  working : Place

/-- Why a path does not lead to what is looked for. -/
inductive Lost where
  | missing
  | notDirectory
  | tooManyLinks
  /-- It leads to a directory where a file is looked for. -/
  | isDirectory
deriving DecidableEq, Repr

/-- The system's text and number for it. -/
def Lost.message : Lost → Text
  | missing => "No such file or directory (os error 2)".toList
  | notDirectory => "Not a directory (os error 20)".toList
  | tooManyLinks => "Too many levels of symbolic links (os error 40)".toList
  | isDirectory => "Is a directory (os error 21)".toList

namespace Tree

/-- What stands at a place; the top is a directory. -/
def item? (t : Tree) : Place → Option Item
  | [] => some .directory
  | place => t.items.lookup place

/-- The names in a directory and what stands there, in the order of the tree. -/
def children (t : Tree) (place : Place) : List (Bytes × Item) :=
  t.items.filterMap fun (p, i) =>
    match p with
    | name :: above => if above = place then some (name, i) else none
    | [] => none

/-- Where the pieces of a path lead from a place.  `follow` goes on from the place
of a link with its target and the pieces after it. -/
def lead (t : Tree) (follow : Place → Bytes → List Bytes → Except Lost Place) (place : Place) :
    List Bytes → Except Lost Place
  | [] => .ok place
  | piece :: rest =>
    match t.item? place with
    | some .directory =>
      if Path.isFiller piece then lead t follow place rest
      else if piece = [Path.dot, Path.dot] then lead t follow place.tail rest
      else
        match t.item? (piece :: place) with
        | none => .error .missing
        | some (.link target) => follow place target rest
        | some _ => lead t follow (piece :: place) rest
    | some _ => .error .notDirectory
    | none => .error .missing

/-- Where the pieces lead when at most `links` links may be passed. -/
def resolve (t : Tree) : (links : Nat) → Place → List Bytes → Except Lost Place
  | 0 => t.lead fun _ _ _ => .error .tooManyLinks
  | links + 1 => t.lead fun place target rest =>
    t.resolve links (if Path.isAbsolute target then [] else place)
      (Text.pieces Path.slash target ++ rest)

/-- How many links a path may pass. -/
def maxLinks : Nat := 40

/-- Where a path leads from a place. -/
def locateFrom (t : Tree) (place : Place) (path : Bytes) : Except Lost Place :=
  if path.isEmpty then .error .missing
  else t.resolve maxLinks (if Path.isAbsolute path then [] else place) (Text.pieces Path.slash path)

/-- Where a path leads from the working directory. -/
def locate (t : Tree) (path : Bytes) : Except Lost Place :=
  t.locateFrom t.working path

def isDirectory (t : Tree) (place : Place) : Bool :=
  match t.item? place with
  | some .directory => true
  | _ => false

/-- The directory that a path leads to. -/
def directoryAt? (t : Tree) (path : Bytes) : Option Place :=
  match t.locate path with
  | .ok place => if t.isDirectory place then some place else none
  | .error _ => none

/-- The contents of the file that a path leads to, or why there are none. -/
def contents (t : Tree) (path : Bytes) : Except Lost ByteArray :=
  match t.locate path with
  | .ok place =>
    match t.item? place with
    | some (.file bytes) => .ok bytes
    | some .directory => .error .isDirectory
    | _ => .error .missing
  | .error why => .error why

/-- The contents of the file that a path leads to. -/
def bytesAt? (t : Tree) (path : Bytes) : Option ByteArray :=
  (t.contents path).toOption

/-- Put an item at a place, in place of what stands there. -/
def set (t : Tree) (place : Place) (i : Item) : Tree :=
  { t with items := t.items.filter (·.1 ≠ place) ++ [(place, i)] }

/-- Put an item where a path below a place leads, with the directories on the way.
A link on the way is passed.  A directory keeps its place, and what cannot be
reached is left as it is. -/
def put (t : Tree) (place : Place) (i : Item) : List Bytes → Tree
  | [] => t
  | piece :: rest =>
    if Path.isFiller piece then put t place i rest
    else if piece = [Path.dot, Path.dot] then put t place.tail i rest
    else if rest.all Path.isFiller then
      if t.isDirectory (piece :: place) then t else t.set (piece :: place) i
    else
      match t.item? (piece :: place) with
      | none => put (t.set (piece :: place) .directory) (piece :: place) i rest
      | some .directory => put t (piece :: place) i rest
      | some (.link target) =>
        match t.locateFrom place target with
        | .ok p => if t.isDirectory p then put t p i rest else t
        | .error _ => t
      | some (.file _) => t

end Tree
end Files
end PolicyLint
