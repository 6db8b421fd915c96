/-
What a run tells about its work, and how loudly.
-/
import PolicyLint.Bytes
import PolicyLint.Format

namespace PolicyLint

/-- How much detail a line carries; `trace` carries the most. -/
inductive Level where
  | error
  | warn
  | info
  | debug
  | trace
deriving DecidableEq, Repr

namespace Level

def name : Level → Text
  | error => "ERROR".toList
  | warn => "WARN".toList
  | info => "INFO".toList
  | debug => "DEBUG".toList
  | trace => "TRACE".toList

def rank : Level → Nat
  | error => 1
  | warn => 2
  | info => 3
  | debug => 4
  | trace => 5

end Level

namespace Scan

inductive Event where
  /-- The scan of a root begins. -/
  | scanning (root : Bytes)
  /-- A search directory does not exist. -/
  | missingDirectory (path : Bytes)
  /-- A region is exempt. -/
  | exempt (line : Nat)
  /-- A region has no closing fence. -/
  | unterminated (line : Nat)
  /-- A block is read in another format than it declares. -/
  | overridden (declared resolved : Format)
  /-- A file has been checked. -/
  | scanned (file : Bytes) (blocks : Nat)
deriving DecidableEq, Repr

namespace Event

def level : Event → Level
  | scanning _ => .info
  | overridden _ _ => .trace
  | _ => .debug

def message : Event → Text
  | scanning root => "scanning documentation root=".toList ++ root.shown
  | missingDirectory path => "search directory missing, skipping dir=".toList ++ path.shown
  | exempt line => "skipping exempt block line=".toList ++ Text.numeral line
  | unterminated line => "discarding unterminated block line=".toList ++ Text.numeral line
  | overridden declared resolved =>
    "block format overridden by content declared=".toList ++ declared.title
      ++ " resolved=".toList ++ resolved.title
  | scanned file blocks =>
    "scanned file=".toList ++ file.shown ++ " blocks=".toList ++ Text.numeral blocks

/-- The line of an event: its level and its message. -/
def line (e : Event) : Text :=
  e.level.name ++ ' ' :: e.message

end Event
end Scan
end PolicyLint
