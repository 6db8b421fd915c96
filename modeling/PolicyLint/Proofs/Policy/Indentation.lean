/-
Blocks in indented lists.

A block that stands inside a list is indented with it, and may have blank lines around it.
Its format is found on the trimmed text, but it is the untrimmed text that is read.  For an
object this makes no difference to the verdict: white space around a JSON text or in front
of its lines stands between tokens, or behind a line feed that breaks a token in two as it
did before.
-/
import PolicyLint.Proofs.Json.Spacing.Document
import PolicyLint.Proofs.Policy.DeclaredFormat

namespace PolicyLint
namespace Text

/-- The text with `indent n` in front of line number `n`, counted from zero. -/
def indentLines (indent : Nat → Text) (t : Text) : Text :=
  join ['\n'] ((pieces '\n' t).mapIdx fun n line => indent n ++ line)

theorem indentLines_nil (indent : Nat → Text) : indentLines indent [] = indent 0 := by
  rw [indentLines, pieces_nil]
  simp [join]

theorem indentLines_feed (indent : Nat → Text) (t : Text) :
    indentLines indent ('\n' :: t) =
      indent 0 ++ '\n' :: indentLines (fun n => indent (n + 1)) t := by
  rw [indentLines, pieces_sep, indentLines]
  cases hp : pieces '\n' t with
  | nil => exact absurd hp (pieces_ne_nil '\n' t)
  | cons line lines =>
    rw [List.mapIdx_cons, List.mapIdx_cons, join_cons_cons, List.append_nil,
      List.append_assoc]
    rfl

/-- A character of the first line stays behind what is put in front of that line. -/
theorem indentLines_cons {indent : Nat → Text} {c : Char} {t u : Text} (hc : c ≠ '\n')
    (h : indentLines indent t = indent 0 ++ u) : indentLines indent (c :: t) = indent 0 ++ c :: u := by
  rw [indentLines] at h ⊢
  rw [pieces_cons hc]
  cases hp : pieces '\n' t with
  | nil => exact absurd hp (pieces_ne_nil '\n' t)
  | cons line lines =>
    rw [hp, List.mapIdx_cons, join, List.append_assoc] at h
    rw [List.mapIdx_cons, join, List.headD_cons, List.tail_cons, List.append_assoc, List.cons_append,
      List.append_cancel_left h]

end Text

namespace Json

/-- Lines behind the first one that are indented have white space behind a line feed. -/
theorem exists_spaced_indentLines (t : Text) : ∀ {indent : Nat → Text},
    (∀ n, ∀ c ∈ indent n, isSpace c = true) →
      ∃ u, Text.indentLines indent t = indent 0 ++ u ∧ Spaced t u := by
  induction t with
  | nil =>
    intro indent hindent
    refine ⟨[], ?_, .finish (by simp)⟩
    rw [Text.indentLines_nil, List.append_nil]
  | cons c t ih =>
    intro indent hindent
    by_cases hc : c = '\n'
    · obtain ⟨u, hu, hspaced⟩ := ih fun n => hindent (n + 1)
      rw [hc, Text.indentLines_feed, hu]
      exact ⟨_, rfl, .feed (hindent 1) hspaced⟩
    · obtain ⟨u, hu, hspaced⟩ := ih hindent
      exact ⟨c :: u, Text.indentLines_cons hc hu, .keep hspaced⟩

theorem Spaced.head?_trim {t u : Text} (h : Spaced t u) :
    (Text.trim t).head? = (Text.trim u).head? := by
  have hblank : ∀ {w : Text}, (∀ c ∈ w, isSpace c = true) → ∀ c ∈ w, Text.isBlank c = true :=
    fun hw c hc => Policy.isBlank_of_isSpace (hw c hc)
  induction h with
  | @finish w hw =>
    have hnil := Text.trim_append_of_blank (hblank hw) []
    rw [List.append_nil] at hnil
    rw [hnil]
  | feed hw h ih =>
    have hfeed : Text.isBlank '\n' = true := by decide
    rw [Text.trim_cons hfeed, Text.trim_cons hfeed, Text.trim_append_of_blank (hblank hw), ih]
  | @keep c t u h ih =>
    cases hc : Text.isBlank c with
    | true => rw [Text.trim_cons hc, Text.trim_cons hc, ih]
    | false => rw [Text.head?_trim hc, Text.head?_trim hc]

/-- The message that names a cause and a position. -/
def Cause.told (cause : Cause) (p : Position) : Text :=
  cause.message.toList ++ " at line ".toList ++ Text.numeral p.line ++ " column ".toList
    ++ Text.numeral p.column

theorem Cause.head?_told (cause : Cause) (p : Position) :
    (cause.told p).head? = cause.message.toList.head? := by
  cases cause <;> rfl

end Json

namespace Policy

/-- Two verdicts of the same kind.  Where a text cannot be read, the messages name causes that
`causes` relates, each with a position of its own. -/
inductive SameKind (causes : Json.Cause → Json.Cause → Prop) :
    Except Rejection Unit → Except Rejection Unit → Prop
  | accepted : SameKind causes (.ok ()) (.ok ())
  | rejected {r : Rejection} (h : ∀ message, r ≠ .unreadable message) :
      SameKind causes (.error r) (.error r)
  | unreadable {cause cause' : Json.Cause} {p p' : Json.Position} (h : causes cause cause') :
      SameKind causes (.error (.unreadable (cause.told p))) (.error (.unreadable (cause'.told p')))

theorem SameKind.of_unreadable {causes : Json.Cause → Json.Cause → Prop} {m m' : Text}
    (h : SameKind causes (.error (.unreadable m)) (.error (.unreadable m'))) :
    ∃ cause cause' p p', causes cause cause' ∧ m = cause.told p ∧ m' = cause'.told p' := by
  generalize hr : Except.error (Rejection.unreadable m) = r at h
  generalize hr' : Except.error (Rejection.unreadable m') = r' at h
  cases h with
  | accepted => exact absurd hr (by simp)
  | rejected hne =>
    obtain rfl := Except.error.inj hr
    exact absurd rfl (hne m)
  | unreadable hcause =>
    exact ⟨_, _, _, _, hcause, Rejection.unreadable.inj (Except.error.inj hr),
      Rejection.unreadable.inj (Except.error.inj hr')⟩

theorem resolve_of_brace {t : Text} (h : (Text.trim t).head? = some '\x7b') (declared : Format) :
    resolve t declared = .json :=
  if_pos h

theorem sameKind_accept (causes : Json.Cause → Json.Cause → Prop) (d : Data) :
    SameKind causes (accept d) (accept d) := by
  cases d with
  | null => exact .rejected (by simp)
  | mapping bindings =>
    rw [accept]
    split
    · exact .accepted
    · exact .rejected (by simp)
  | bool b => exact .rejected (by simp)
  | number n => exact .rejected (by simp)
  | string s => exact .rejected (by simp)
  | list items => exact .rejected (by simp)

theorem validate_of_brace {t : Text} (h : (Text.trim t).head? = some '\x7b') (declared : Format) :
    validate t declared =
      ((Json.document t).mapError fun f => .unreadable (f.cause.told (f.position t))).bind accept := by
  rw [validate, resolve_of_brace h, read, Json.parse]
  cases Json.document t <;> rfl

/- The position of a failure depends on the whole text, but its cause does not. -/
theorem sameKind_verdict {causes : Json.Cause → Json.Cause → Prop}
    {r r' : Except Json.Failure Data} (h : Agree (fun f f' => causes f.cause f'.cause) Eq r r')
    (place place' : Json.Failure → Json.Position) :
    SameKind causes
      ((r.mapError fun f => .unreadable (f.cause.told (place f))).bind accept)
      ((r'.mapError fun f => .unreadable (f.cause.told (place' f))).bind accept) := by
  cases h with
  | error hcause => exact .unreadable hcause
  | ok hd =>
    rw [hd]
    exact sameKind_accept causes _

/-- White space around a text that begins with a brace, and blanks in front of its lines, leave
the kind of its verdict as it is, however the block is declared.  A message may tell another
position, and another cause where the text ends inside a string or a value. -/
theorem validate_indented {t : Text} (hbrace : (Text.trim t).head? = some '\x7b') {front back : Text}
    (hfront : ∀ c ∈ front, Json.isSpace c = true) (hback : ∀ c ∈ back, Json.isSpace c = true)
    {indent : Nat → Text} (hindent : ∀ n, ∀ c ∈ indent n, c = ' ' ∨ c = '\t')
    (declared declared' : Format) :
    SameKind Json.Cause.Reworded (validate t declared)
      (validate (front ++ Text.indentLines indent t ++ back) declared') := by
  have hspaces : ∀ n, ∀ c ∈ indent n, Json.isSpace c = true := by
    intro n c hc
    rcases hindent n c hc with rfl | rfl <;> decide
  obtain ⟨u, hu, hspaced⟩ := Json.exists_spaced_indentLines t hspaces
  have hfirst : ∀ c ∈ front ++ indent 0, Json.isSpace c = true := by
    intro c hc
    rcases List.mem_append.mp hc with hc | hc
    · exact hfront c hc
    · exact hspaces 0 c hc
  have hwhole : front ++ Text.indentLines indent t ++ back = (front ++ indent 0) ++ (u ++ back) := by
    rw [hu]
    simp only [List.append_assoc]
  have hsame := hspaced.append_space hback
  have hbrace' : (Text.trim ((front ++ indent 0) ++ (u ++ back))).head? = some '\x7b' := by
    rw [Text.trim_append_of_blank fun c hc => isBlank_of_isSpace (hfirst c hc), ← hsame.head?_trim, hbrace]
  rw [hwhole, validate_of_brace hbrace, validate_of_brace hbrace',
    Json.document_congr (Json.skipSpace_append hfirst (u ++ back))]
  exact sameKind_verdict (Json.document_spaced hsame) _ _

/-- An object on two lines. -/
def brokenObject : Text :=
  "\x7b\"on_tcp_connect\":\n[]\x7d\n".toList

theorem brokenObject_indented :
    validate brokenObject .yaml = .ok () ∧
      SameKind Json.Cause.Reworded (validate brokenObject .yaml)
        (validate (['\r', '\n'] ++ Text.indentLines (fun _ => [' ', '\t']) brokenObject ++ ['\n'])
          .json) :=
  ⟨by decide +kernel,
    validate_indented (by decide) (by simp [Json.isSpace]) (by simp [Json.isSpace])
      (fun _ => by simp) .yaml .json⟩

/-- A text that ends inside a key. -/
def cutKey : Text :=
  "\x7b\"a".toList

/- A line feed behind it breaks the key off, so more than the position changes. -/
theorem cutKey_reworded :
    (Text.trim cutKey).head? = some '\x7b' ∧
      ¬SameKind Eq (validate cutKey .json)
        (validate ([] ++ Text.indentLines (fun _ => []) cutKey ++ ['\n']) .json) := by
  refine ⟨by decide, fun h => ?_⟩
  have hcut : validate cutKey .json =
      .error (.unreadable "EOF while parsing a string at line 1 column 3".toList) := by
    decide +kernel
  have hbroken : validate ([] ++ Text.indentLines (fun _ => []) cutKey ++ ['\n']) .json =
      .error (.unreadable ("control character (\\u0000-\\u001F) found while parsing a string".toList ++
        " at line 2 column 0".toList)) := by
    decide +kernel
  rw [hcut, hbroken] at h
  obtain ⟨cause, _, p, p', rfl, hfirst, hsecond⟩ := h.of_unreadable
  have hhead := congrArg List.head? hfirst
  have hhead' := congrArg List.head? hsecond
  rw [Json.Cause.head?_told] at hhead hhead'
  exact absurd (hhead.trans hhead'.symm) (by decide)

end Policy
end PolicyLint
