/-
The program: arguments and a file tree in, an exit status and two texts out.

The status is 0 when every block passed, 1 when one failed, and 2 when the
arguments or the tree did not allow a scan, or its report cannot be written in the
format asked for.
-/
import PolicyLint.CommandLine.Arguments
import PolicyLint.CommandLine.Verbosity
import PolicyLint.Report.Human
import PolicyLint.Report.Json
import PolicyLint.Scan.Run

namespace PolicyLint
namespace CommandLine

/-- What a run leaves behind. -/
structure Result where
  status : Nat
  /-- What is printed. -/
  stdout : Text
  /-- The lines of the log and of errors. -/
  stderr : List Text
deriving DecidableEq, Repr

def versionLine : Text := "policy-snippet-validator 0.1.0".toList

def helpLines : List Text :=
  ["Validate traffic policy YAML/JSON code blocks in documentation",
   "",
   "Usage: policy-snippet-validator [OPTIONS]",
   "",
   "Options:",
   "      --root <ROOT>      Documentation root containing the traffic-policy, "
     ++ "snippets and gateway docs [default: .]",
   "      --format <FORMAT>  Output format [default: human] [possible values: human, json]",
   "  -v, --verbose...       Increase log verbosity on stderr "
     ++ "(-v info, -vv debug, -vvv trace)",
   "  -h, --help             Print help",
   "  -V, --version          Print version"].map String.toList

/-- Lines, each with a line end. -/
def unlines (ls : List Text) : Text :=
  (ls.map (· ++ ['\n'])).flatten

/-- A report in the format asked for, or why it cannot be written. -/
def render (o : Output) (r : Report) : Except Text Text :=
  match o with
  | .human => .ok r.human
  | .json => r.json

/-- Why a scan ended early, with what is behind that. -/
def failureMessage (root : Bytes) (f : Scan.Failure) : Text :=
  "Failed to scan ".toList ++ root.shown ++ ": ".toList
    ++ Text.join ": ".toList (f.message :: f.causes)

/-- The lines that a run without a report ends with. -/
def errorLines (why : Text) : List Text :=
  messageLines ["Error: ".toList ++ why]

/-- Scan as the options say. -/
def scan (t : Files.Tree) (environment : Option Filter) (o : Options) : Result :=
  let run := Scan.run t (Scan.Config.forRoot o.root)
  let log := eventLines (.inForce environment o.verbosity) (.scanning o.root :: run.events)
  match run.result with
  | .error f => ⟨2, [], log ++ errorLines (failureMessage o.root f)⟩
  | .ok r =>
    match render o.output r with
    | .error why => ⟨2, [], log ++ errorLines why⟩
    | .ok text => ⟨if r.ok then 0 else 1, text, log⟩

/-- Run the program.  `environment` is the filter for events that the environment sets. -/
def run (t : Files.Tree) (environment : Option Filter) (args : List Bytes) : Result :=
  match request args with
  | .help => ⟨0, unlines helpLines, []⟩
  | .version => ⟨0, unlines [versionLine], []⟩
  | .misuse m => ⟨2, [], messageLines m.lines⟩
  | .scan o => scan t environment o

end CommandLine
end PolicyLint
