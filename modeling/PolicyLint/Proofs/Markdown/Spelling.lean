/-
Line ends and fences spelled in other ways.

A fence is read without the white space around it and around its info string, and in lower case.
So a document whose fences are spelled in another way has the same regions and blocks, as long
as the other lines stay as they are, and how lines end does not show in them at all.
-/
import PolicyLint.Proofs.Markdown.Exempted
import PolicyLint.Proofs.Markdown.Notices
import PolicyLint.Proofs.Text.Letters
import PolicyLint.Proofs.Text.Returns

namespace PolicyLint
namespace Markdown

/-! ## One fence -/

/-- The second line is the same fence as the first: white space around it and in front of the
info string aside, and but for the case of letters in the info string. -/
inductive Respelled : Text → Text → Prop
  | intro {before gap i behind before' gap' i' behind' : Text}
      (hblank : ∀ c ∈ before ++ gap ++ behind, Text.isBlank c = true)
      (hblank' : ∀ c ∈ before' ++ gap' ++ behind', Text.isBlank c = true)
      (hletters : Text.SameLetters i i') :
      Respelled (before ++ fence ++ gap ++ i ++ behind) (before' ++ fence ++ gap' ++ i' ++ behind')

/-- A text behind three backticks is trimmed at its end only. -/
theorem exists_trim_fence (t : Text) :
    ∃ rest gap, t = rest ++ gap ∧ (∀ c ∈ gap, Text.isBlank c = true) ∧
      Text.trim (fence ++ t) = fence ++ rest := by
  obtain ⟨gap, hgap, hstart⟩ := Text.exists_trimStart_eq (fence ++ t)
  have hwhole : fence ++ t = Text.trim (fence ++ t) ++ gap := by
    rw [← hstart]
    rfl
  have hprefix : "``".toList ++ ['\x60'] <+: Text.trim (fence ++ t) := by
    rw [← Text.prefix_append_blank (by decide) hgap, ← hwhole]
    exact List.prefix_append fence t
  obtain ⟨rest, hrest⟩ := hprefix
  refine ⟨rest, gap, ?_, hgap, hrest.symm⟩
  rw [← hrest, List.append_assoc] at hwhole
  exact List.append_cancel_left hwhole

theorem info_fence (t : Text) : info (fence ++ t) = some (Text.lower (Text.trim t)) := by
  obtain ⟨rest, gap, ht, hgap, htrim⟩ := exists_trim_fence t
  refine info_eq_some_iff.mpr ⟨rest, htrim, ?_⟩
  rw [ht, Text.trim_append_trailing hgap]

theorem trim_fence_iff (t : Text) : Text.trim (fence ++ t) = fence ↔ Text.trim t = [] := by
  obtain ⟨rest, gap, ht, hgap, htrim⟩ := exists_trim_fence t
  constructor
  · intro h
    have hrest : rest = [] := List.append_right_eq_self.mp (htrim.symm.trans h)
    rw [ht, Text.trim_append_trailing hgap, hrest]
    rfl
  · intro h
    rw [Text.trim_append_trailing fun c hc => Text.isBlank_of_trim_eq_nil h hc]
    decide

theorem trim_respelling {before gap i behind : Text}
    (hblank : ∀ c ∈ before ++ gap ++ behind, Text.isBlank c = true) :
    Text.trim (before ++ fence ++ gap ++ i ++ behind) = Text.trim (fence ++ (gap ++ i)) ∧
      Text.trim (gap ++ i) = Text.trim i := by
  rw [List.append_assoc, List.forall_mem_append, List.forall_mem_append] at hblank
  obtain ⟨hbefore, hgap, hbehind⟩ := hblank
  rw [Text.trim_append_trailing hbehind, List.append_assoc, List.append_assoc,
    Text.trim_append_of_blank hbefore, Text.trim_append_of_blank hgap]
  exact ⟨rfl, rfl⟩

theorem Respelled.opening_eq {p q : Text} (h : Respelled p q) : opening q = opening p := by
  obtain ⟨hblank, hblank', hletters⟩ := h
  obtain ⟨hp, hi⟩ := trim_respelling hblank
  obtain ⟨hq, hi'⟩ := trim_respelling hblank'
  rw [opening_of_trim_eq hp, opening_of_trim_eq hq]
  unfold opening
  rw [info_fence, info_fence, hi, hi', hletters.trim.lower_eq]

theorem Respelled.closes_eq {p q : Text} (h : Respelled p q) : closes q = closes p := by
  obtain ⟨hblank, hblank', hletters⟩ := h
  obtain ⟨hp, hi⟩ := trim_respelling hblank
  obtain ⟨hq, hi'⟩ := trim_respelling hblank'
  rw [closes_of_trim_eq hp, closes_of_trim_eq hq, Bool.eq_iff_iff, closes_iff, closes_iff,
    trim_fence_iff, trim_fence_iff, hi, hi', ← List.map_eq_nil_iff, ← hletters.trim,
    List.map_eq_nil_iff]

theorem Respelled.ne_nil {p q : Text} (h : Respelled p q) : p ≠ [] ∧ q ≠ [] := by
  obtain ⟨hblank, hblank', hletters⟩ := h
  constructor <;> simp [fence]

/-! ## The fences of a document -/

/-- Behind `before`, the line opens a region where none is open, or closes the one that is. -/
def ActsAsFence (before : List Text) (line : Text) : Prop :=
  Closed before ∧ Opens line ∨ LeftOpen before ∧ Text.trim line = fence

theorem actsAsFence_iff {before : List Text} {line : Text} :
    ActsAsFence before line ↔
      Reading.regionAfter 0 .prose before = .prose ∧ opening line ≠ none ∨
        Reading.regionAfter 0 .prose before ≠ .prose ∧ closes line = true := by
  have hopens : opening line ≠ none ↔ Opens line :=
    (not_congr opening_eq_none_iff).trans not_not
  rw [ActsAsFence, Reading.closed_iff, Reading.leftOpen_iff, closes_iff, hopens]

instance (before : List Text) (line : Text) : Decidable (ActsAsFence before line) :=
  decidable_of_iff _ actsAsFence_iff.symm

/-- The second lines are the first ones, standing behind `before`, with some of those that act
as fences spelled in another way.  The lines are those between line feeds. -/
inductive FencesRespelled : (before : List Text) → List Text → List Text → Prop
  | nil {before : List Text} : FencesRespelled before [] []
  | keep {before ps qs : List Text} (p : Text)
      (rest : FencesRespelled (before ++ [Text.ended p]) ps qs) :
      FencesRespelled before (p :: ps) (p :: qs)
  | fence {before ps qs : List Text} {p q : Text} (hacts : ActsAsFence before p)
      (h : Respelled p q) (rest : FencesRespelled (before ++ [Text.ended p]) ps qs) :
      FencesRespelled before (p :: ps) (q :: qs)

/-- Behind `before` the second line is read as the first: it is the same line, or it opens and
closes as the first, which acts as a fence there. -/
def ReadsAs (before : List Text) (p q : Text) : Prop :=
  q = p ∨ ActsAsFence before p ∧ opening q = opening p ∧ closes q = closes p

/-- Each of the second lines is read as the first line in its place. -/
inductive Alike : (before : List Text) → List Text → List Text → Prop
  | nil {before : List Text} : Alike before [] []
  | cons {before ls ms : List Text} {p q : Text} (h : ReadsAs before p q)
      (rest : Alike (before ++ [p]) ls ms) : Alike before (p :: ls) (q :: ms)

theorem ActsAsFence.ended {before : List Text} {p : Text} (h : ActsAsFence before p) :
    ActsAsFence before (Text.ended p) := by
  refine h.imp (fun ⟨hbefore, hopens⟩ => ⟨hbefore, ?_⟩) fun ⟨hbefore, hcloses⟩ => ⟨hbefore, ?_⟩
  · obtain ⟨o, ho⟩ := exists_opening hopens
    rw [← opening_of_trim_eq (Text.trim_ended p)] at ho
    exact ⟨o.format, (opening_eq_some_iff.mp ho).1⟩
  · rw [Text.trim_ended, hcloses]

theorem ReadsAs.ended {before : List Text} {p q : Text} (h : ReadsAs before p q) :
    ReadsAs before (Text.ended p) (Text.ended q) := by
  rcases h with rfl | ⟨hacts, hopening, hcloses⟩
  · exact .inl rfl
  · refine .inr ⟨hacts.ended, ?_, ?_⟩
    · rw [opening_of_trim_eq (Text.trim_ended q), opening_of_trim_eq (Text.trim_ended p), hopening]
    · rw [closes_of_trim_eq (Text.trim_ended q), closes_of_trim_eq (Text.trim_ended p), hcloses]

/- A last line keeps its carriage return, and is a line unless it is empty. -/
theorem Alike.cons_piece {before ps qs : List Text} {p q : Text} (h : ReadsAs before p q)
    (hempty : p = [] ↔ q = []) (hlast : ps = [] ↔ qs = [])
    (rest : Alike (before ++ [Text.ended p]) (Text.linesOfPieces ps) (Text.linesOfPieces qs)) :
    Alike before (Text.linesOfPieces (p :: ps)) (Text.linesOfPieces (q :: qs)) := by
  match ps, qs with
  | [], [] =>
    rw [Text.linesOfPieces, Text.linesOfPieces]
    by_cases hp : p = []
    · rw [hempty.mp hp, hp]
      exact .nil
    · rw [if_neg (mt List.isEmpty_iff.mp hp),
        if_neg (mt List.isEmpty_iff.mp fun hq => hp (hempty.mpr hq))]
      exact .cons h .nil
  | [], q' :: qs => exact absurd (hlast.mp rfl) (List.cons_ne_nil q' qs)
  | p' :: ps, [] => exact absurd (hlast.mpr rfl) (List.cons_ne_nil p' ps)
  | p' :: ps, q' :: qs => exact .cons h.ended rest

theorem FencesRespelled.eq_nil_iff {before ps qs : List Text} (h : FencesRespelled before ps qs) :
    ps = [] ↔ qs = [] := by
  cases h with
  | nil => rfl
  | keep p rest => exact iff_of_false (List.cons_ne_nil _ _) (List.cons_ne_nil _ _)
  | fence hacts h rest => exact iff_of_false (List.cons_ne_nil _ _) (List.cons_ne_nil _ _)

theorem FencesRespelled.alike {before ps qs : List Text} (h : FencesRespelled before ps qs) :
    Alike before (Text.linesOfPieces ps) (Text.linesOfPieces qs) := by
  induction h with
  | nil => exact .nil
  | keep p rest ih => exact .cons_piece (.inl rfl) Iff.rfl rest.eq_nil_iff ih
  | fence hacts h rest ih =>
    have hempty := iff_of_false h.ne_nil.1 h.ne_nil.2
    exact .cons_piece (.inr ⟨hacts, h.opening_eq, h.closes_eq⟩) hempty rest.eq_nil_iff ih

/-! ## Reading lines that are alike -/

namespace Reading

/-- A line that acts as a fence is not kept, so only how it opens and closes has an effect. -/
theorem effect_readsAs {before : List Text} {p q : Text} (h : ReadsAs before p q)
    (line reported : Nat) :
    effect line reported q (regionAfter 0 .prose before) =
      effect line reported p (regionAfter 0 .prose before) := by
  rcases h with rfl | ⟨hacts, hopening, hcloses⟩
  · rfl
  · cases hregion : regionAfter 0 .prose before with
    | prose => rw [effect, effect, hopening]
    | exempt => rw [effect, effect, hcloses]
    | inside f opened body =>
      rcases actsAsFence_iff.mp hacts with ⟨hprose, -⟩ | ⟨-, hp⟩
      · exact absurd (hregion.symm.trans hprose) (by simp)
      · rw [effect, effect, hcloses, hp]
        rfl

/-- One pass over lines that are alike collects the same blocks and gives the same notices. -/
theorem pass_alike {before ls ms : List Text} (h : Alike before ls ms) : ∀ reported : Nat,
    collected before.length reported (regionAfter 0 .prose before) ms =
        collected before.length reported (regionAfter 0 .prose before) ls ∧
      noticed before.length (regionAfter 0 .prose before) ms =
        noticed before.length (regionAfter 0 .prose before) ls := by
  induction h with
  | nil => exact fun reported => ⟨rfl, rfl⟩
  | @cons before ls ms p q h rest ih =>
    intro reported
    have hregion : regionAfter 0 .prose (before ++ [p]) =
        (effect (before.length + 1) 0 p (regionAfter 0 .prose before)).region := by
      rw [regionAfter_append, Nat.zero_add]
      rfl
    rw [hregion, List.length_append, List.length_singleton] at ih
    constructor
    · rw [collected, collected, effect_readsAs h, effect_region]
      cases (effect (before.length + 1) reported p (regionAfter 0 .prose before)).block with
      | none => exact (ih reported).1
      | some b => exact congrArg (b :: ·) (ih (reported + 1)).1
    · rw [noticed, noticed, effect_readsAs h, (ih reported).2]

end Reading

/-! ## The regions of lines that are alike -/

/-- How each line opens and closes. -/
def fences (ls : List Text) : List (Option Opening × Bool) :=
  ls.map fun line => (opening line, closes line)

theorem Alike.fences_eq {before ls ms : List Text} (h : Alike before ls ms) :
    fences ms = fences ls := by
  induction h with
  | nil => rfl
  | @cons before ls ms p q h rest ih =>
    rw [fences, List.map_cons, ← fences, ih, fences, fences, List.map_cons]
    rcases h with rfl | ⟨-, hopening, hcloses⟩
    · rfl
    · rw [hopening, hcloses]

theorem exists_lineAt {ls ms : List Text} (h : fences ms = fences ls) {n : Nat} {line : Text}
    (hline : lineAt ls n = some line) :
    ∃ line', lineAt ms n = some line' ∧ (Opens line' ↔ Opens line) ∧
      (Text.trim line' = fence ↔ Text.trim line = fence) := by
  cases n with
  | zero => exact nomatch hline
  | succ n =>
    have hfences : (ms[n]?).map (fun line => (opening line, closes line)) =
        some (opening line, closes line) := by
      have hget := congrArg (·[n]?) h
      simp only [fences, List.getElem?_map] at hget
      rw [hget, show ls[n]? = some line from hline, Option.map_some]
    obtain ⟨line', hline', hsame⟩ := Option.map_eq_some_iff.mp hfences
    obtain ⟨hopening, hcloses⟩ := Prod.mk.inj hsame
    refine ⟨line', hline', ?_, ?_⟩
    · rw [← not_iff_not, ← opening_eq_none_iff, ← opening_eq_none_iff, hopening]
    · rw [← closes_iff, ← closes_iff, hcloses]

theorem Span.IsNext.alike {ls ms : List Text} (h : fences ms = fences ls) {start : Nat} {s : Span}
    (hs : s.IsNext ls start) : s.IsNext ms start where
  from_start := hs.from_start
  opens := by
    obtain ⟨line, hline, hopens⟩ := hs.opens
    obtain ⟨line', hline', hiff, -⟩ := exists_lineAt h hline
    exact ⟨line', hline', hiff.mpr hopens⟩
  first_opening := by
    intro n line hl hu hline
    obtain ⟨line', hline', hiff, -⟩ := exists_lineAt h.symm hline
    exact fun hopens => hs.first_opening n line' hl hu hline' (hiff.mpr hopens)
  after_opened := hs.after_opened
  closes := by
    obtain ⟨line, hline, hcloses⟩ := hs.closes
    obtain ⟨line', hline', -, hiff⟩ := exists_lineAt h hline
    exact ⟨line', hline', hiff.mpr hcloses⟩
  first_closing := by
    intro n line hl hu hline
    obtain ⟨line', hline', -, hiff⟩ := exists_lineAt h.symm hline
    exact fun hcloses => hs.first_closing n line' hl hu hline' (hiff.mpr hcloses)

theorem Spans.alike {ls ms : List Text} (h : fences ms = fences ls) {start : Nat} {ss : List Span}
    (hss : Spans ls start ss) : Spans ms start ss := by
  induction hss with
  | stop hnone => exact .stop fun s hs => hnone s (hs.alike h.symm)
  | next hnext _ ih => exact .next (hnext.alike h) ih

theorem isRegion_alike {ls ms : List Text} (h : fences ms = fences ls) {s : Span} :
    IsRegion ms s ↔ IsRegion ls s := by
  constructor
  · exact fun ⟨ss, hss, hs⟩ => ⟨ss, hss.alike h.symm, hs⟩
  · exact fun ⟨ss, hss, hs⟩ => ⟨ss, hss.alike h, hs⟩

/-! ## Documents -/

/-- The content of a block is lines of the document, with line feeds between them. -/
theorem exists_body {t : Text} {b : Block} (hb : b ∈ blocks t) :
    ∃ body, body <:+: Text.lines t ∧ b.content = Text.join ['\n'] body := by
  rw [blocks_eq_collected] at hb
  obtain ⟨front, first, body, last, after, o, hregion, -, hblock⟩ := Reading.exists_closedRegion hb
  refine ⟨body, ⟨front ++ [first], last :: after, ?_⟩, ?_⟩
  · rw [hregion.lines_eq, List.append_assoc, List.append_assoc]
    rfl
  · simp only [Reading.blockOf, Option.ite_none_right_eq_some, Option.some.injEq] at hblock
    rw [← hblock.2]

/-- The blocks of a document do not depend on how its lines end, nor on how its fences are
spelled: on white space around them and in front of their info strings, and on the case of
letters in the info strings.  The same regions are exempt as well. -/
theorem blocks_respelled (t : Text) :
    (¬['\r', '\n'] <:+: t → ∀ u, Text.WithReturns t u →
      blocks u = blocks t ∧
        ∀ b ∈ blocks u, ∃ body, body <:+: Text.lines t ∧ b.content = Text.join ['\n'] body) ∧
    ∀ u, FencesRespelled [] (Text.pieces '\n' t) (Text.pieces '\n' u) →
      blocks u = blocks t ∧
        (∀ s, IsRegion (Text.lines u) s ↔ IsRegion (Text.lines t) s) ∧
        ∀ n, ExemptAt (Text.lines u) n ↔ ExemptAt (Text.lines t) n := by
  constructor
  · intro hnone u hu
    have hlines := hu.lines_eq hnone
    refine ⟨?_, fun b hb => ?_⟩
    · rw [blocks_eq_collected, blocks_eq_collected, hlines]
    · rw [← hlines]
      exact exists_body hb
  · intro u hu
    have halike : Alike [] (Text.lines t) (Text.lines u) := by
      rw [Text.lines_eq_linesOfPieces, Text.lines_eq_linesOfPieces]
      exact hu.alike
    obtain ⟨hcollected, hnoticed⟩ := Reading.pass_alike halike 0
    refine ⟨?_, fun s => isRegion_alike halike.fences_eq, fun n => ?_⟩
    · rw [blocks_eq_collected, blocks_eq_collected]
      exact hcollected
    · rw [← Reading.exempt_mem_noticed, ← Reading.exempt_mem_noticed]
      exact iff_of_eq (congrArg (Notice.exempt n ∈ ·) hnoticed)

/-- The lines of a page with a region that is reported and one that is exempt. -/
def plainLines : List Text :=
  ["```yaml".toList, "on_tcp_connect:".toList, fence, "```json skip-validation".toList,
    "[]".toList, fence, []]

/-- The lines with the fences spelled in another way. -/
def respelledLines : List Text :=
  [" ```\u00a0YAML\t\r".toList, "on_tcp_connect:".toList, "\t```\r".toList,
    "``` Json Skip-Validation".toList, "[]".toList, "```\x0c".toList, []]

def plainPage : Text :=
  Text.join ['\n'] plainLines

def respelledPage : Text :=
  Text.join ['\n'] respelledLines

/-- The page with a carriage return at the end of its first two lines. -/
def returnedPage : Text :=
  "```yaml".toList ++ '\r' :: '\n' :: ("on_tcp_connect:".toList ++ '\r' :: '\n' ::
    Text.join ['\n'] (plainLines.drop 2))

theorem fencesRespelled_plainLines : FencesRespelled [] plainLines respelledLines := by
  have hyaml : Respelled ([] ++ fence ++ [] ++ "yaml".toList ++ [])
      (" ".toList ++ fence ++ "\u00a0".toList ++ "YAML".toList ++ "\t\r".toList) :=
    .intro (List.all_eq_true.mp (by decide)) (List.all_eq_true.mp (by decide)) (by decide)
  have hjson : Respelled ([] ++ fence ++ [] ++ "json skip-validation".toList ++ [])
      ([] ++ fence ++ " ".toList ++ "Json Skip-Validation".toList ++ []) :=
    .intro (List.all_eq_true.mp (by decide)) (List.all_eq_true.mp (by decide)) (by decide)
  have hfirst : Respelled ([] ++ fence ++ [] ++ [] ++ [])
      ("\t".toList ++ fence ++ [] ++ [] ++ "\r".toList) :=
    .intro (List.all_eq_true.mp (by decide)) (List.all_eq_true.mp (by decide)) (by decide)
  have hsecond : Respelled ([] ++ fence ++ [] ++ [] ++ [])
      ([] ++ fence ++ [] ++ [] ++ "\x0c".toList) :=
    .intro (List.all_eq_true.mp (by decide)) (List.all_eq_true.mp (by decide)) (by decide)
  exact .fence (by decide +kernel) hyaml <| .keep _ <| .fence (by decide +kernel) hfirst <|
    .fence (by decide +kernel) hjson <| .keep _ <| .fence (by decide +kernel) hsecond <|
    .keep _ .nil

theorem plainPage_respelled :
    ¬['\r', '\n'] <:+: plainPage ∧ Text.WithReturns plainPage returnedPage ∧
      blocks returnedPage = blocks plainPage ∧ blocks respelledPage = blocks plainPage ∧
      blocks plainPage = [⟨1, 1, .yaml, "on_tcp_connect:".toList⟩] ∧
      ExemptAt (Text.lines respelledPage) 4 := by
  have hnone : ¬['\r', '\n'] <:+: plainPage := by decide +kernel
  have hreturned : Text.WithReturns plainPage returnedPage := .line _ (.line _ (.refl _))
  have hrespelled : FencesRespelled [] (Text.pieces '\n' plainPage)
      (Text.pieces '\n' respelledPage) := by
    rw [plainPage, respelledPage, Text.pieces_join (by decide) (by decide),
      Text.pieces_join (by decide) (by decide)]
    exact fencesRespelled_plainLines
  have hexempt : ExemptAt (Text.lines plainPage) 4 := by
    rw [← Reading.exempt_mem_noticed]
    decide +kernel
  obtain ⟨hreturns, hfences⟩ := blocks_respelled plainPage
  obtain ⟨hblocks, -, hexempts⟩ := hfences respelledPage hrespelled
  exact ⟨hnone, hreturned, (hreturns hnone returnedPage hreturned).1, hblocks, by decide +kernel,
    (hexempts 4).mpr hexempt⟩

end Markdown
end PolicyLint
