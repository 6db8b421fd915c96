/-
Which events are shown.

The flags choose a level.  The environment may set a filter instead, in the language of
the library that writes the log; what that library makes of it is a parameter of a run.
Of that language only the names of levels are read here.
-/
import PolicyLint.Scan.Event
import PolicyLint.Text.Blank
import PolicyLint.Text.Lowercase

namespace PolicyLint
namespace CommandLine

/-- The rank up to which events are shown when the verbosity flag is given `n`
times. -/
def flagRank : (n : Nat) → Nat
  | 0 => Level.warn.rank
  | 1 => Level.info.rank
  | 2 => Level.debug.rank
  | _ => Level.trace.rank

/-- Which events are shown. -/
abbrev Filter := Scan.Event → Bool

namespace Filter

/-- The events up to a rank. -/
def upTo (rank : Nat) : Filter :=
  fun e => e.level.rank ≤ rank

/-- The ranks that a word can name.  No word at all means errors only. -/
def rankNames : List (Text × Nat) :=
  [("".toList, 1), ("off".toList, 0), ("0".toList, 0),
   ("error".toList, 1), ("1".toList, 1), ("warn".toList, 2), ("2".toList, 2),
   ("info".toList, 3), ("3".toList, 3), ("debug".toList, 4), ("4".toList, 4),
   ("trace".toList, 5), ("5".toList, 5)]

/-- The filter that a word asks for if it names a level. -/
def ofLevel? (word : Text) : Option Filter :=
  (rankNames.lookup (Text.lower (Text.trim word))).map upTo

/-- The filter in force: the environment's if it sets one, else that of the flags. -/
def inForce (environment : Option Filter) (verbosity : Nat) : Filter :=
  environment.getD (upTo (flagRank verbosity))

end Filter

/-- The lines of messages.  One with line feeds in it takes more than one line. -/
def messageLines (messages : List Text) : List Text :=
  messages.flatMap (Text.pieces '\n')

/-- The lines of the events that a filter shows. -/
def eventLines (shows : Filter) (events : List Scan.Event) : List Text :=
  messageLines ((events.filter shows).map Scan.Event.line)

end CommandLine
end PolicyLint
