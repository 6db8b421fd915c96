/-
Scanning a file tree.

All search directories are walked first; then the files found are read in the
order of their paths and the blocks of each are checked.  What goes wrong while
walking or reading ends the scan; a rejected block does not.
-/
import PolicyLint.Files.Walk
import PolicyLint.Markdown.Block
import PolicyLint.Report.Outcome
import PolicyLint.Scan.Config
import PolicyLint.Scan.Event
import PolicyLint.Text.Utf8

namespace PolicyLint
namespace Scan

/-- Why a scan ends early. -/
inductive Failure where
  /-- A path leads to nothing that can be read. -/
  | unread (path : Bytes) (why : Files.Lost)
  | tooLarge (path : Bytes) (limit : Nat)
  | notUtf8 (path : Bytes)
  | walk (why : Files.WalkFailure)
deriving DecidableEq, Repr

def Failure.message : Failure → Text
  | unread path why => "Failed to read ".toList ++ path.shown ++ ": ".toList ++ why.message
  | tooLarge path limit =>
    path.shown ++ " exceeds maximum size of ".toList ++ Text.numeral limit ++ " bytes".toList
  | notUtf8 path => path.shown ++ " is not valid UTF-8".toList
  | walk why => "Directory traversal error: ".toList ++ why.message

/-- The messages of what is behind a failure, which its own message may have told. -/
def Failure.causes : Failure → List Text
  | unread _ why => [why.message]
  | tooLarge _ _ => []
  | notUtf8 _ => []
  | walk why => why.message :: why.causes

/-- The events of a part of a run, and its result. -/
structure Logged (α : Type) where
  events : List Event
  result : Except Failure α

/-- The files found below each search directory, and those directories that are
missing.  The first walk that fails ends the search. -/
def search (t : Files.Tree) (c : Config) : List Bytes → Logged (List Bytes)
  | [] => ⟨[], .ok []⟩
  | dir :: dirs =>
    match t.directoryAt? dir with
    | none =>
      let rest := search t c dirs
      ⟨.missingDirectory dir :: rest.events, rest.result⟩
    | some place =>
      match t.walk c.followLinks c.maxDepth [⟨dir, place⟩] with
      | .error why => ⟨[], .error (.walk why)⟩
      | .ok found =>
        let rest := search t c dirs
        ⟨rest.events, rest.result.map (found ++ ·)⟩

/-- Of neighbours that are the same path the first. -/
def dedup : List Bytes → List Bytes
  | [] => []
  | p :: rest => p :: after p rest
where
  /-- The paths that differ from the one kept before them, the first time from
  `last`. -/
  after (last : Bytes) : List Bytes → List Bytes
    | [] => []
    | p :: rest => if Path.same last p then after last rest else p :: after p rest

/-- The paths in order, each once. -/
def arrange (paths : List Bytes) : List Bytes :=
  dedup (paths.mergeSort Path.le)

/-- The documentation files of a configuration. -/
def sourceFiles (t : Files.Tree) (c : Config) : Logged (List Bytes) :=
  let found := search t c c.resolvedSearchDirs
  ⟨found.events, found.result.map arrange⟩

/-- The text of a file's bytes, which must not be more than `limit`. -/
def decode (path : Bytes) (limit : Nat) (bytes : ByteArray) : Except Failure Text :=
  if bytes.size > limit then .error (.tooLarge path limit)
  else
    match Text.ofUtf8? bytes with
    | some text => .ok text
    | none => .error (.notUtf8 path)

/-- One more than any number of bytes that is counted. -/
def countBound : Nat := Nat.pow 2 64

/-- The bytes to read of a file: one more than the limit shows that it is too
large. -/
def leading (limit : Nat) (bytes : ByteArray) : ByteArray :=
  bytes.extract 0 (min (limit + 1) (countBound - 1))

/-- The text of the file that a path leads to, of which no more is read than the
limit asks for. -/
def readFile (t : Files.Tree) (limit : Nat) (path : Bytes) : Except Failure Text :=
  match t.contents path with
  | .ok bytes => decode path limit (leading limit bytes)
  | .error why => .error (.unread path why)

/-- The outcome of a block of a file. -/
def outcome (file : Bytes) (b : Block) : Outcome where
  file := file
  block := b.ordinal
  line := b.line
  format := b.format
  error :=
    match Policy.validate b.content b.format with
    | .ok () => none
    | .error r => some r.message

def noticeEvent : Markdown.Notice → Event
  | .exempt line => .exempt line
  | .unterminated line => .unterminated line

/-- The events of one answer: its notices, then whether its block is read in
another format. -/
def answerEvents (a : Markdown.Reading.Answer) : List Event :=
  a.notices.map noticeEvent ++
    match a.block with
    | some b =>
      let resolved := Policy.resolve b.content b.format
      if resolved = b.format then [] else [.overridden b.format resolved]
    | none => []

/-- The outcomes of the blocks of a file's text, and the events of checking it. -/
def checkText (file : Bytes) (text : Text) : List Event × List Outcome :=
  let answers := Markdown.answers text
  let outcomes := (answers.filterMap (·.block)).map (outcome file)
  ((answers.map answerEvents).flatten ++ [.scanned file outcomes.length], outcomes)

/-- Read and check files one after the other, adding to a report. -/
def checkFiles (t : Files.Tree) (c : Config) (r : Report) : List Bytes → Logged Report
  | [] => ⟨[], .ok r⟩
  | path :: paths =>
    match readFile t c.maxFileSize path with
    | .error f => ⟨[], .error f⟩
    | .ok text =>
      let (events, outcomes) := checkText (c.displayPath path) text
      let rest := checkFiles t c ⟨r.scannedFiles + 1, r.outcomes ++ outcomes⟩ paths
      ⟨events ++ rest.events, rest.result⟩

/-- Scan a tree. -/
def run (t : Files.Tree) (c : Config) : Logged Report :=
  let files := sourceFiles t c
  match files.result with
  | .error f => ⟨files.events, .error f⟩
  | .ok paths =>
    let checked := checkFiles t c Report.empty paths
    ⟨files.events ++ checked.events, checked.result⟩

end Scan
end PolicyLint
