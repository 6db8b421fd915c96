/-
Blocks that hold nothing but blank lines, comments and document markers.

Such a text begins, white space aside, with a comment, a marker or not at all.  So it settles no
format, whatever its comments mention, is an empty document when it is read as YAML, and is no
JSON.
-/
import PolicyLint.Proofs.Json.Document
import PolicyLint.Proofs.Policy.Resolution
import PolicyLint.Proofs.Text.Edited

namespace PolicyLint
namespace Policy

/-- White space around it aside, the line is blank, a comment or a document marker. -/
def HoldsNothing (line : Text) : Prop :=
  Text.trim line = [] ∨ (Text.trim line).head? = some '#' ∨ Text.trim line = "---".toList ∨
    Text.trim line = "...".toList

theorem isHollowLine_iff {line : Text} : isHollowLine line = true ↔ HoldsNothing line := by
  unfold isHollowLine HoldsNothing
  simp only [Bool.or_eq_true, List.isEmpty_iff, decide_eq_true_eq, or_assoc]

theorem holdsNothing_ended {line : Text} : HoldsNothing (Text.ended line) ↔ HoldsNothing line := by
  rw [HoldsNothing, Text.trim_ended, HoldsNothing]

/- An empty last piece is no line, but it is blank. -/
theorem holdsNothing_linesOfPieces (ps : List Text) :
    (∀ line ∈ Text.linesOfPieces ps, HoldsNothing line) ↔ ∀ p ∈ ps, HoldsNothing p := by
  induction ps with
  | nil => rfl
  | cons p ps ih =>
    cases ps with
    | nil =>
      cases p with
      | nil => simp [Text.linesOfPieces, HoldsNothing, Text.trim, Text.trimStart, Text.trimEnd]
      | cons c p => simp [Text.linesOfPieces]
    | cons q ps =>
      rw [Text.linesOfPieces, List.forall_mem_cons, List.forall_mem_cons, ih, holdsNothing_ended]

/-- Whether lines end in carriage returns does not matter. -/
theorem isHollow_iff {t : Text} :
    isHollow t = true ↔ ∀ line ∈ Text.pieces '\n' t, HoldsNothing line := by
  rw [isHollow, List.all_eq_true, Text.lines_eq_linesOfPieces, ← holdsNothing_linesOfPieces]
  simp only [isHollowLine_iff]

/-! ## What such texts begin with -/

/-- The first line that is not blank is what the text begins with. -/
theorem trimStart_pieces (t : Text) :
    Text.trimStart t = [] ∨ ∃ line ∈ Text.pieces '\n' t, Text.trimStart line ≠ [] ∧
      Text.trimStart line <+: Text.trimStart t := by
  induction t using Text.induction_on_lines with
  | last line h =>
    rw [Text.pieces_of_not_mem h]
    by_cases hline : Text.trimStart line = []
    · exact .inl hline
    · exact .inr ⟨line, List.mem_singleton_self line, hline, List.prefix_refl _⟩
  | cons line rest h ih =>
    have hstart : Text.trimStart (line ++ '\n' :: rest) =
        if (Text.trimStart line).isEmpty then Text.trimStart rest
        else Text.trimStart line ++ '\n' :: rest := by
      rw [Text.trimStart, List.dropWhile_append, List.dropWhile_cons_of_pos (by decide)]
      rfl
    rw [Text.pieces_append_sep, Text.pieces_of_not_mem h, List.singleton_append, hstart]
    by_cases hline : Text.trimStart line = []
    · rw [if_pos (List.isEmpty_iff.mpr hline)]
      rcases ih with hrest | ⟨first, hmem, hne, hprefix⟩
      · exact .inl hrest
      · exact .inr ⟨first, List.mem_cons_of_mem line hmem, hne, hprefix⟩
    · rw [if_neg (by rw [List.isEmpty_iff]; exact hline)]
      exact .inr ⟨line, List.mem_cons_self, hline, List.prefix_append _ _⟩

/-- What a text begins with that holds nothing. -/
inductive BeginsHollow : Text → Prop
  | blank : BeginsHollow []
  | comment (rest : Text) : BeginsHollow ('#' :: rest)
  | start (rest : Text) : BeginsHollow ('-' :: '-' :: '-' :: rest)
  | finish (rest : Text) : BeginsHollow ('.' :: '.' :: '.' :: rest)

theorem HoldsNothing.begins {line : Text} (h : HoldsNothing line) :
    BeginsHollow (Text.trimStart line) := by
  obtain ⟨gap, -, hstart⟩ := Text.exists_trimStart_eq line
  rcases h with h | h | h | h
  · have hhead := Text.head?_trim_eq_trimStart line
    rw [h] at hhead
    rw [List.head?_eq_none_iff.mp hhead.symm]
    exact .blank
  · rw [Text.head?_trim_eq_trimStart] at h
    obtain ⟨rest, hrest⟩ := List.head?_eq_some_iff.mp h
    rw [hrest]
    exact .comment rest
  · rw [hstart, h]
    exact .start gap
  · rw [hstart, h]
    exact .finish gap

theorem BeginsHollow.append {t u : Text} (h : BeginsHollow t) (hne : t ≠ []) (hu : t <+: u) :
    BeginsHollow u := by
  obtain ⟨back, rfl⟩ := hu
  cases h with
  | blank => exact absurd rfl hne
  | comment rest => exact .comment (rest ++ back)
  | start rest => exact .start (rest ++ back)
  | finish rest => exact .finish (rest ++ back)

theorem beginsHollow_trimStart {t : Text} (h : ∀ line ∈ Text.pieces '\n' t, HoldsNothing line) :
    BeginsHollow (Text.trimStart t) := by
  rcases trimStart_pieces t with hblank | ⟨line, hmem, hne, hprefix⟩
  · rw [hblank]
    exact .blank
  · exact (h line hmem).begins.append hne hprefix

/-! ## The format -/

/-- No key begins where a text that holds nothing begins. -/
theorem BeginsHollow.no_key {t k : Text} (h : BeginsHollow t) (hk : k ∈ keys) : ¬k <+: t := by
  have hall : (keys.all fun k => k.head? = some 'o') = true := by decide
  have hhead : k.head? = some 'o' := of_decide_eq_true (List.all_eq_true.mp hall k hk)
  obtain ⟨rest, rfl⟩ := List.head?_eq_some_iff.mp hhead
  intro hprefix
  cases h with
  | blank => exact absurd (List.prefix_nil.mp hprefix) (List.cons_ne_nil _ _)
  | comment => exact absurd (List.cons_prefix_cons.mp hprefix).1 (by decide)
  | start => exact absurd (List.cons_prefix_cons.mp hprefix).1 (by decide)
  | finish => exact absurd (List.cons_prefix_cons.mp hprefix).1 (by decide)

theorem BeginsHollow.head?_ne_brace {t : Text} (h : BeginsHollow t) : t.head? ≠ some '\x7b' := by
  cases h <;> simp

theorem not_hasLeadingKey_of_hollow {t : Text}
    (h : ∀ line ∈ Text.pieces '\n' t, HoldsNothing line) : ¬HasLeadingKey t := by
  rintro ⟨k, hk, hfirst | hline⟩
  · exact (beginsHollow_trimStart h).no_key hk hfirst
  · obtain ⟨line, hmem, hprefix⟩ := (Text.exists_line_iff_beginsLine (ne_nil_of_mem_keys hk)
      (not_mem_of_mem_keys hk (by decide)) (not_mem_of_mem_keys hk (by decide)) t).mpr hline
    have hnothing : HoldsNothing line :=
      isHollowLine_iff.mp (List.all_eq_true.mp (isHollow_iff.mpr h) line hmem)
    -- The key stands in front of any white space, so it is what the line begins with.
    have hstart : k <+: Text.trimStart line := by
      cases hkey : k with
      | nil => exact List.nil_prefix
      | cons c k' =>
        rw [hkey] at hprefix
        exact Text.prefix_trimStart
          (isBlank_of_mem_keys hk c (by rw [hkey]; exact List.mem_cons_self)) hprefix
    exact hnothing.begins.no_key hk hstart

theorem resolve_of_hollow {t : Text} (h : ∀ line ∈ Text.pieces '\n' t, HoldsNothing line)
    (declared : Format) : resolve t declared = declared := by
  rw [resolve_eq_ite, if_neg (beginsHollow_trimStart h).head?_ne_brace,
    if_neg (not_hasLeadingKey_of_hollow h)]

/-! ## Read as JSON -/

theorem isBlank_of_beginsValue {c : Char} (h : Json.beginsValue c = true) :
    Text.isBlank c = false := by
  rw [Json.beginsValue, Bool.or_eq_true, List.contains_iff_mem] at h
  rcases h with h | h
  · have hall : ("[\x7bntf\"-".toList.all fun c => !Text.isBlank c) = true := by decide
    exact Bool.not_eq_true' _ |>.mp (List.all_eq_true.mp hall c h)
  · rw [Json.Number.isDigit, Bool.and_eq_true, decide_eq_true_eq, decide_eq_true_eq] at h
    have hlow : 48 ≤ c.toNat := h.1
    have hhigh : c.toNat ≤ 57 := h.2
    simp only [Text.isBlank, Text.blankRanges, List.any_cons, List.any_nil, Bool.or_false,
      Bool.or_eq_false_iff, Bool.and_eq_false_iff, decide_eq_false_iff_not]
    omega

/-- JSON has less white space than is trimmed, but nothing in the white space that it does not
know begins a value either. -/
theorem json_of_beginsHollow {t : Text} (h : BeginsHollow (Text.trimStart t)) :
    ∃ f, Json.document t = .error f := by
  have hskip : Text.trimStart (Json.skipSpace t) = Text.trimStart t :=
    Text.trimStart_dropWhile (fun c hc => isBlank_of_isSpace hc) t
  cases hspace : Json.skipSpace t with
  | nil => exact ⟨_, Json.document_blank hspace⟩
  | cons c more =>
    cases hc : Text.isBlank c with
    | true =>
      have hvalue : Json.beginsValue c = false := by
        rw [Bool.eq_false_iff]
        intro hvalue
        rw [isBlank_of_beginsValue hvalue] at hc
        exact Bool.noConfusion hc
      exact ⟨_, Json.document_of_not_beginsValue hspace hvalue⟩
    | false =>
      rw [← hskip, hspace, Text.trimStart, List.dropWhile_cons_of_neg (by simp [hc])] at h
      cases h with
      | comment => exact ⟨_, Json.document_of_not_beginsValue hspace (by decide)⟩
      | start => exact ⟨_, Json.document_two_signs hspace⟩
      | finish => exact ⟨_, Json.document_of_not_beginsValue hspace (by decide)⟩

/-! ## The verdict -/

/-- Blank lines, comments and document markers settle no format, are an empty document when they
are declared YAML, and cannot be read when they are declared JSON. -/
theorem validate_hollow {t : Text}
    (h : ∀ line ∈ Text.pieces '\n' t, Text.trim line = [] ∨ (Text.trim line).head? = some '#' ∨
      Text.trim line = "---".toList ∨ Text.trim line = "...".toList) :
    (∀ declared, resolve t declared = declared) ∧
      validate t .yaml = .error .emptyDocument ∧
      ∃ message, validate t .json = .error (.unreadable message) := by
  refine ⟨resolve_of_hollow h, ?_, ?_⟩
  · rw [validate, resolve_of_hollow h, read, if_pos (isHollow_iff.mpr h)]
    rfl
  · obtain ⟨f, hf⟩ := json_of_beginsHollow (beginsHollow_trimStart h)
    rw [validate, resolve_of_hollow h, read, Json.parse, hf]
    exact ⟨f.message t, rfl⟩

/-- A comment that mentions a key and a brace, between markers, with line ends of both kinds and
a no-break space. -/
def commentedOut : Text :=
  "---\r\n  # \x7b on_tcp_connect: []\n\u00a0\n...\r\n# on_http_request:\r".toList

theorem commentedOut_rejected :
    (∀ line ∈ Text.pieces '\n' commentedOut, Text.trim line = [] ∨
        (Text.trim line).head? = some '#' ∨ Text.trim line = "---".toList ∨
        Text.trim line = "...".toList) ∧
      (∀ declared, resolve commentedOut declared = declared) ∧
      validate commentedOut .yaml = .error .emptyDocument ∧
      ∃ message, validate commentedOut .json = .error (.unreadable message) := by
  have h : ∀ line ∈ Text.pieces '\n' commentedOut, Text.trim line = [] ∨
      (Text.trim line).head? = some '#' ∨ Text.trim line = "---".toList ∨
      Text.trim line = "...".toList := by decide
  exact ⟨h, validate_hollow h⟩

end Policy
end PolicyLint
