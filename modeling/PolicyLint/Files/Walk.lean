/-
The documentation files below a directory.

A walk lists a directory, then each of its directories in turn, down to a given
depth.  Links to directories are passed only when links are followed; links to
files always count as files.  When links are followed, one that leads nowhere or
back to a directory on the way ends the walk.
-/
import PolicyLint.Files.Tree

namespace PolicyLint
namespace Files

/-- The extensions of documentation files. -/
def documentExtensions : List Bytes :=
  ["md", "mdx"].map Bytes.of

/-- True for the name of a documentation file. -/
def isDocument (name : Bytes) : Bool :=
  match Path.extension name with
  | some e => documentExtensions.contains e
  | none => false

/-- Why a walk ends early. -/
inductive WalkFailure where
  /-- A link leads back to a directory on the way to it. -/
  | loop (child ancestor : Bytes)
  /-- A link leads nowhere. -/
  | lost (path : Bytes) (why : Lost)
deriving DecidableEq, Repr

def WalkFailure.message : WalkFailure → Text
  | loop child ancestor =>
    "File system loop found: ".toList ++ child.shown
      ++ " points to an ancestor ".toList ++ ancestor.shown
  | lost path why =>
    "IO error for operation on ".toList ++ path.shown ++ ": ".toList ++ why.message

/-- The messages of what is behind a failure. -/
def WalkFailure.causes : WalkFailure → List Text
  | loop _ _ => []
  | lost _ why => [why.message]

/-- A directory on the way: its path as walked and its place. -/
structure Step where
  path : Bytes
  place : Place
deriving Repr

namespace Tree

/-- What one name in a directory adds to the files found.  `way` holds the
directories down to this one, the innermost first, and `descend` walks a
directory below it. -/
def visit (t : Tree) (followLinks : Bool) (descend : List Step → Except WalkFailure (List Bytes))
    (way : List Step) (dir : Step) (name : Bytes) (i : Item) :
    Except WalkFailure (List Bytes) :=
  let path := Path.join dir.path name
  let file : List Bytes := if isDocument name then [path] else []
  match i with
  | .file _ => .ok file
  | .directory => descend (⟨path, name :: dir.place⟩ :: way)
  | .link _ =>
    match t.locate path with
    | .error why => if followLinks then .error (.lost path why) else .ok []
    | .ok place =>
      if t.isDirectory place then
        if followLinks then
          match way.find? (·.place = place) with
          | some a => .error (.loop path a.path)
          | none => descend (⟨path, place⟩ :: way)
        else .ok []
      else .ok file

/-- The documentation files in the innermost directory of a way and, down to
`depth` names further, below it. -/
def walk (t : Tree) (followLinks : Bool) : (depth : Nat) → List Step →
    Except WalkFailure (List Bytes)
  | 0, _ => .ok []
  | _ + 1, [] => .ok []
  | depth + 1, dir :: above => do
    let found ← (t.children dir.place).mapM fun (name, i) =>
      t.visit followLinks (t.walk followLinks depth) (dir :: above) dir name i
    .ok found.flatten

end Tree
end Files
end PolicyLint
