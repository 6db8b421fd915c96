/-
Texts are lists of characters.

Everything the program reads or says is a `Text`.  A list is what the proofs
recurse on; `String` appears only where a literal is written and at the outer
edge, where bytes come in and go out.  Cutting and joining are the same for the
bytes of a path, so they are written for lists of anything.
-/

namespace PolicyLint

/-- A text, character by character. -/
abbrev Text := List Char

namespace Text

/-- Bytes the text takes in UTF-8. -/
def byteLength (t : Text) : Nat :=
  t.foldl (fun n c => n + c.utf8Size) 0

/-- True when `word` stands somewhere in the text, as consecutive characters. -/
def mentions (word : Text) : Text → Bool
  | [] => word.isEmpty
  | c :: rest => word.isPrefixOf (c :: rest) || mentions word rest

theorem mentions_iff {word t : Text} : mentions word t = true ↔ word <:+: t := by
  induction t with
  | nil => simp [mentions]
  | cons c rest ih => simp [mentions, ih, List.infix_cons_iff]

/-- The decimal numeral of a natural number. -/
def numeral (n : Nat) : Text :=
  (Nat.toDigits 10 n)

section Pieces

variable {α : Type}

/-- Lists one after the other with `sep` between neighbours. -/
def join (sep : List α) : List (List α) → List α
  | [] => []
  | t :: ts => t ++ (ts.map (sep ++ ·)).flatten

theorem join_cons_cons (sep t u : List α) (ts : List (List α)) :
    join sep (t :: u :: ts) = t ++ sep ++ join sep (u :: ts) := by
  simp [join]

variable [DecidableEq α]

/-- The pieces between the occurrences of `sep`, empty pieces included: one more
piece than there are occurrences. -/
def pieces (sep : α) (t : List α) : List (List α) :=
  cut [] [] t
where
  /-- `done` holds the finished pieces and `piece` the open one, both back to
  front. -/
  cut (done : List (List α)) (piece : List α) : List α → List (List α)
    | [] => (piece.reverse :: done).reverse
    | c :: rest =>
      if c = sep then cut (piece.reverse :: done) [] rest
      else cut done (c :: piece) rest

/-- What has been cut already only stands in front. -/
theorem pieces.cut_eq (sep : α) (t : List α) : ∀ (done : List (List α)) (piece : List α),
    pieces.cut sep done piece t =
      done.reverse ++ (piece.reverse ++ (pieces sep t).headD []) :: (pieces sep t).tail := by
  induction t with
  | nil => intro done piece; simp [pieces, pieces.cut]
  | cons c rest ih =>
    intro done piece
    unfold pieces
    by_cases h : c = sep
    · rw [pieces.cut, if_pos h, ih, pieces.cut, if_pos h, ih [[].reverse] []]; simp
    · rw [pieces.cut, if_neg h, ih, pieces.cut, if_neg h, ih [] [c]]; simp

theorem pieces_nil (sep : α) : pieces sep [] = [[]] := rfl

theorem pieces_ne_nil (sep : α) (t : List α) : pieces sep t ≠ [] := by
  rw [pieces, pieces.cut_eq]; simp

theorem pieces_sep (sep : α) (t : List α) : pieces sep (sep :: t) = [] :: pieces sep t := by
  have h := pieces_ne_nil sep t
  rw [pieces, pieces.cut, if_pos rfl, pieces.cut_eq]
  cases hp : pieces sep t with
  | nil => exact absurd hp h
  | cons p ps => simp

theorem pieces_cons {sep c : α} (h : c ≠ sep) (t : List α) :
    pieces sep (c :: t) = (c :: (pieces sep t).headD []) :: (pieces sep t).tail := by
  rw [pieces, pieces.cut, if_neg h, pieces.cut_eq]; simp

/-- Joining undoes cutting. -/
theorem join_pieces (sep : α) (t : List α) : join [sep] (pieces sep t) = t := by
  induction t with
  | nil => rfl
  | cons c rest ih =>
    have h := pieces_ne_nil sep rest
    by_cases hc : c = sep
    · subst hc
      rw [pieces_sep]
      cases hp : pieces c rest with
      | nil => exact absurd hp h
      | cons p ps => rw [hp] at ih; rw [join_cons_cons, ih]; rfl
    · rw [pieces_cons hc]
      cases hp : pieces sep rest with
      | nil => exact absurd hp h
      | cons p ps => rw [hp] at ih; rw [← ih]; simp [join]

end Pieces

end Text

end PolicyLint
