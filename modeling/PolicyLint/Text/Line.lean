/-
Lines of a text.

A line ends at a line feed; a carriage return directly before that line feed
belongs to the line end.  A last line without a line feed keeps its carriage
return, and a text that ends in a line feed has no empty line after it.
-/
import PolicyLint.Text.Basic

namespace PolicyLint
namespace Text

/-- The line whose characters are `line` back to front, ended by a line feed. -/
def closeLine : Text → Text
  | '\r' :: line => line.reverse
  | line => line.reverse

def lines (t : Text) : List Text :=
  collect [] [] t
where
  /-- `done` holds the finished lines and `line` the open one, both back to
  front. -/
  collect (done : List Text) (line : Text) : Text → List Text
    | [] => (if line.isEmpty then done else line.reverse :: done).reverse
    | c :: rest =>
      if c = '\n' then collect (closeLine line :: done) [] rest
      else collect done (c :: line) rest

/-- The first line, or nothing of an empty text. -/
def firstLine (t : Text) : Text :=
  (lines t).headD []

/-- The lines that are finished only stand in front. -/
theorem lines.collect_eq (t : Text) : ∀ (done : List Text) (line : Text),
    lines.collect done line t = done.reverse ++ lines.collect [] line t := by
  induction t with
  | nil => intro done line; cases line <;> simp [lines.collect]
  | cons c rest ih =>
    intro done line
    by_cases h : c = '\n'
    · rw [lines.collect, if_pos h, ih, lines.collect, if_pos h, ih [closeLine line]]; simp
    · rw [lines.collect, if_neg h, ih, lines.collect, if_neg h]

end Text
end PolicyLint
