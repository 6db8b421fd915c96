/-
Texts with one line changed.

A change between two line feeds changes one line, and the lines around it are read as
before.  Only a last line without a line feed keeps a carriage return at its end, and is no
line at all when it is empty.
-/
import PolicyLint.Proofs.Text.Line
import PolicyLint.Proofs.Text.Pieces

namespace PolicyLint
namespace Text

/-- The text with what stands on line number `n`, counted from one, changed by `f`.  The line
feeds stay where they are. -/
def editLine (f : Text → Text) (n : Nat) (t : Text) : Text :=
  join ['\n'] ((pieces '\n' t).modify (n - 1) f)

/-- The lines that the pieces between line feeds are read as. -/
def linesOfPieces : List Text → List Text
  | [] => []
  | [last] => if last.isEmpty then [] else [last]
  | p :: q :: ps => ended p :: linesOfPieces (q :: ps)

theorem lines_eq_linesOfPieces (t : Text) : lines t = linesOfPieces (pieces '\n' t) := by
  induction t using induction_on_lines with
  | last line h => rw [lines_last h, pieces_of_not_mem h, linesOfPieces]
  | cons line rest h ih =>
    rw [lines_cons h, pieces_append_sep, pieces_of_not_mem h, List.singleton_append, ih]
    cases hp : pieces '\n' rest with
    | nil => exact absurd hp (pieces_ne_nil '\n' rest)
    | cons q ps => rfl

theorem linesOfPieces_append {rest : List Text} (h : rest ≠ []) (front : List Text) :
    linesOfPieces (front ++ rest) = front.map ended ++ linesOfPieces rest := by
  induction front with
  | nil => rfl
  | cons p front ih =>
    cases hr : front ++ rest with
    | nil => exact absurd (List.append_eq_nil_iff.mp hr).2 h
    | cons q ps => rw [List.cons_append, hr, linesOfPieces, ← hr, ih, List.map_cons, List.cons_append]

/- Line by line the pieces in front are found; each of them is ended by a line feed. -/
theorem exists_piece {ps before after : List Text} {line : Text}
    (h : linesOfPieces ps = before ++ line :: after) :
    ∃ front p back, ps = front ++ p :: back ∧ front.map ended = before ∧
      linesOfPieces (p :: back) = line :: after := by
  induction before generalizing ps with
  | nil =>
    cases ps with
    | nil => exact nomatch h
    | cons p back => exact ⟨[], p, back, rfl, rfl, h⟩
  | cons first before ih =>
    match ps with
    | [] => exact nomatch h
    | [last] =>
      have hlength := congrArg List.length h
      rw [linesOfPieces, List.length_append, List.length_cons, List.length_cons] at hlength
      split at hlength
      · rw [List.length_nil] at hlength
        omega
      · rw [List.length_singleton] at hlength
        omega
    | p :: q :: ps =>
      obtain ⟨hp, hrest⟩ := List.cons.inj h
      obtain ⟨front, p', back, hps, hfront, hback⟩ := ih hrest
      exact ⟨p :: front, p', back, by rw [hps]; rfl, by rw [List.map_cons, hp, hfront], hback⟩

/-- A change to one line leaves the lines around it. -/
theorem lines_editLine {t line : Text} {before after : List Text}
    (h : lines t = before ++ line :: after) {f : Text → Text}
    (hf : ∀ p, '\n' ∉ p → '\n' ∉ f p) :
    ∃ p back, linesOfPieces (p :: back) = line :: after ∧
      lines (editLine f (before.length + 1) t) = before ++ linesOfPieces (f p :: back) := by
  rw [lines_eq_linesOfPieces] at h
  obtain ⟨front, p, back, hps, hfront, hback⟩ := exists_piece h
  have hlength : before.length = front.length := by rw [← hfront, List.length_map]
  have hfeed : ∀ q ∈ front ++ p :: back, '\n' ∉ q := by
    rw [← hps]
    exact fun q hq => not_mem_of_mem_pieces hq
  have hedited : ∀ q ∈ front ++ f p :: back, '\n' ∉ q := by
    intro q hq
    rcases List.mem_append.mp hq with hq | hq
    · exact hfeed q (List.mem_append_left _ hq)
    · rcases List.mem_cons.mp hq with hq | hq
      · rw [hq]
        exact hf p (hfeed p (List.mem_append_right _ List.mem_cons_self))
      · exact hfeed q (List.mem_append_right _ (List.mem_cons_of_mem p hq))
  have hmodify : (pieces '\n' t).modify (before.length + 1 - 1) f = front ++ f p :: back := by
    rw [hps, Nat.add_sub_cancel, hlength, List.modify_eq_take_drop, List.take_left,
      List.drop_left, List.modifyHead_cons]
  refine ⟨p, back, hback, ?_⟩
  rw [lines_eq_linesOfPieces, editLine, hmodify, pieces_join (by simp) hedited,
    linesOfPieces_append (by simp), hfront]

/-- A piece in the place of the last one is a line unless it is empty; in front of others it
is ended by a line feed. -/
theorem linesOfPieces_replace {p : Text} {back : List Text} {line : Text} {after : List Text}
    (h : linesOfPieces (p :: back) = line :: after) :
    (after = [] ∧ line = p ∧ ∀ q, linesOfPieces (q :: back) = if q.isEmpty then [] else [q]) ∨
      (line = ended p ∧ ∀ q, linesOfPieces (q :: back) = ended q :: after) := by
  cases back with
  | nil =>
    left
    rw [linesOfPieces] at h
    split at h
    · exact nomatch h
    · obtain ⟨hline, hafter⟩ := List.cons.inj h
      exact ⟨hafter.symm, hline.symm, fun q => rfl⟩
  | cons r rs =>
    right
    obtain ⟨hline, hafter⟩ := List.cons.inj h
    exact ⟨hline.symm, fun q => by rw [linesOfPieces, hafter]⟩

/-- The line with `word` behind it, in front of the carriage return that belongs to its
end. -/
def putBehind (word line : Text) : Text :=
  ended line ++ word ++ line.drop (ended line).length

theorem ended_append (line word : Text) {c : Char} (hc : c ≠ '\r') :
    ended (line ++ (word ++ [c])) = line ++ (word ++ [c]) := by
  rw [← List.append_assoc, ended_of_ne_return hc]

theorem ended_putBehind (word line : Text) {c : Char} (hc : c ≠ '\r') :
    ended (putBehind (word ++ [c]) line) = ended line ++ (word ++ [c]) := by
  unfold putBehind
  rcases List.eq_nil_or_concat line with h | ⟨front, d, h⟩
  · rw [h, List.drop_nil, List.append_nil]
    exact ended_append [] word hc
  · rw [h, List.concat_eq_append]
    by_cases hd : d = '\r'
    · rw [hd, ended_return, List.drop_left, ended_return]
    · rw [ended_of_ne_return hd, List.drop_length, List.append_nil, ended_append _ _ hc]

theorem not_mem_putBehind {word line : Text} (hw : '\n' ∉ word) (h : '\n' ∉ line) :
    '\n' ∉ putBehind word line := by
  intro hmem
  rcases List.mem_append.mp hmem with hmem | hmem
  · rcases List.mem_append.mp hmem with hmem | hmem
    · exact h ((ended_isPrefix line).subset hmem)
    · exact hw hmem
  · exact h (List.mem_of_mem_drop hmem)

end Text
end PolicyLint
