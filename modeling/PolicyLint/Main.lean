/-
The executable.

It takes a picture of the directories that a scan looks at, runs the program on
it, and prints what the run leaves behind.  Nothing is decided here.
-/
import PolicyLint.CommandLine.Program

namespace PolicyLint
namespace Picture

def put (t : Files.Tree) (path : String) (i : Files.Item) : Files.Tree :=
  t.put [] i (Text.pieces Path.slash (Bytes.of path))

/-- The first bytes of a file, at most `limit` of them. -/
partial def readBytes (h : IO.FS.Handle) (limit : Nat) (done : ByteArray) : IO ByteArray := do
  if done.size ≥ limit then return done
  let more ← h.read (min (limit - done.size) 65536).toUSize
  if more.isEmpty then return done
  readBytes h limit (done ++ more)

/-- A file whose contents are read only if they will be asked for. -/
def file (path : String) (wanted : Bool) (limit : Nat) : IO Files.Item := do
  if wanted then
    let h ← IO.FS.Handle.mk path .read
    return .file (← readBytes h (limit + 1) ByteArray.empty)
  else return .file ByteArray.empty

/-- A link, with the real path of what it leads to.  One that leads nowhere keeps
an empty target, one that leads to itself its own path. -/
def link (t : Files.Tree) (path : String) (wanted : Bool) (limit : Nat) : IO Files.Tree := do
  try
    let real ← IO.FS.realPath path
    let kind := (← real.metadata).type
    if kind == .dir then
      return put (put t real.toString .directory) path (.link (Bytes.of real.toString))
    else if kind == .file then
      let i ← file real.toString wanted limit
      let t := if wanted || (t.locate (Bytes.of real.toString)).toOption.isNone then
          put t real.toString i else t
      return put t path (.link (Bytes.of real.toString))
    else return t
  catch
    | .noFileOrDirectory .. => return put t path (.link [])
    | _ => return put t path (.link (Bytes.of path))

/-- Everything below a directory, given by its real path. -/
partial def explore (t : Files.Tree) (limit : Nat) (dir : String) : IO Files.Tree := do
  let mut t := put t dir .directory
  for e in ← (← IO.FS.realPath dir).readDir do
    let path := e.path.toString
    let wanted := Files.isDocument (Bytes.of e.fileName)
    match (← e.path.symlinkMetadata).type with
    | .dir => t ← explore t limit path
    | .file => t := put t path (← file path wanted limit)
    | .symlink => t ← link t path wanted limit
    | .other => pure ()
  return t

/-- The directories and links on the way to an absolute path, and everything
below it. -/
def search (t : Files.Tree) (limit : Nat) (path : String) : IO Files.Tree := do
  let base ← IO.currentDir
  let mut t := t
  let mut way := ""
  for piece in path.splitOn "/" do
    unless piece.isEmpty do
      way := way ++ "/" ++ piece
      match (← (base / way).symlinkMetadata.toBaseIO) with
      | .ok m =>
        if m.type == .symlink then t ← link t way false limit
        else if m.type == .dir then t := put t way .directory
        else t := put t way (.file ByteArray.empty)
      | .error _ => return t
  let real ← IO.FS.realPath path
  if (← real.metadata).type == .dir then explore t limit real.toString else return t

/-- The tree that a scan of a root looks at. -/
def take (root : Bytes) : IO Files.Tree := do
  let working := (← IO.currentDir).toString
  let config := Scan.Config.forRoot root
  let place := (Text.pieces Path.slash (Bytes.of working)).reverse.filter (!·.isEmpty)
  let mut t := put ⟨[], place⟩ working .directory
  for dir in config.resolvedSearchDirs do
    let path := String.ofList (Path.join (Bytes.of working) dir).shown
    t ← search t config.maxFileSize path
  return t

end Picture
end PolicyLint

open PolicyLint

/-- Print what a run leaves behind. -/
def leave (r : CommandLine.Result) : IO UInt32 := do
  for line in r.stderr do
    IO.eprintln (String.ofList line)
  IO.print (String.ofList r.stdout)
  return UInt32.ofNat r.status

def main (args : List String) : IO UInt32 := do
  let args := args.map Bytes.of
  let word := (← IO.getEnv "RUST_LOG").map String.toList
  let environment := word.bind CommandLine.Filter.ofLevel?
  match CommandLine.request args with
  | .scan o =>
    try
      leave (CommandLine.run (← Picture.take o.root) environment args)
    catch e =>
      IO.eprintln ("Error: Failed to scan " ++ String.ofList o.root.shown ++ ": " ++ toString e)
      return 2
  | _ => leave (CommandLine.run ⟨[], []⟩ environment args)
