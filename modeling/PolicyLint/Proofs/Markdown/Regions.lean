/-
The regions of a document, and the blocks that they make.

A region is given by the numbers of its two fence lines.  From the first line on,
the next region is the first opening fence and the first bare fence after it;
reading goes on behind that.  The regions that are not exempt and mention a policy
key are the blocks.  Nothing here knows how lines are read one by one.
-/
import PolicyLint.Markdown.Block
import PolicyLint.Proofs.Markdown.Fence

namespace PolicyLint
namespace Markdown

/-! ## Numbered lines -/

/-- The line with number `n`, counted from one. -/
def lineAt (ls : List Text) : (n : Nat) → Option Text
  | 0 => none
  | n + 1 => ls[n]?

theorem lineAt_append_cons (before after : List Text) (line : Text) :
    lineAt (before ++ line :: after) (before.length + 1) = some line := by
  simp [lineAt]

theorem le_length_of_lineAt {ls : List Text} {n : Nat} {line : Text}
    (h : lineAt ls n = some line) : n ≤ ls.length := by
  cases n with
  | zero => exact Nat.zero_le _
  | succ n => exact (List.getElem?_eq_some_iff.mp h).1

theorem lineAt_split {ls : List Text} {n : Nat} {line : Text} (h : lineAt ls n = some line) :
    ls = ls.take (n - 1) ++ line :: ls.drop n ∧ (ls.take (n - 1)).length + 1 = n := by
  cases n with
  | zero => exact nomatch h
  | succ n =>
    obtain ⟨hn, hline⟩ := List.getElem?_eq_some_iff.mp h
    rw [Nat.add_sub_cancel, ← hline, ← List.drop_eq_getElem_cons hn, List.take_append_drop,
      List.length_take, Nat.min_eq_left (Nat.le_of_lt hn)]
    exact ⟨rfl, rfl⟩

theorem mem_of_lineAt (before middle after : List Text) {n : Nat} {line : Text}
    (h : lineAt (before ++ (middle ++ after)) n = some line) (hl : before.length < n)
    (hu : n ≤ before.length + middle.length) : line ∈ middle := by
  cases n with
  | zero => omega
  | succ n =>
    rw [lineAt, List.getElem?_append_right (by omega),
      List.getElem?_append_left (by omega)] at h
    exact List.mem_of_getElem? h

/-! ## Regions -/

/-- A region, by the numbers of its two fence lines. -/
structure Span where
  opened : Nat
  closed : Nat
deriving DecidableEq, Repr

namespace Span

/-- The lines between the two fences. -/
def body (ls : List Text) (s : Span) : List Text :=
  (ls.drop s.opened).take (s.closed - s.opened - 1)

/-- The text between the two fences. -/
def content (ls : List Text) (s : Span) : Text :=
  Text.join ['\n'] (s.body ls)

/-- The region that comes next when line `start` is the first one not yet passed:
its opening fence is the first one from there on, and its closing fence the first
bare fence after that. -/
structure IsNext (ls : List Text) (start : Nat) (s : Span) : Prop where
  from_start : start ≤ s.opened
  opens : ∃ line, lineAt ls s.opened = some line ∧ Opens line
  first_opening : ∀ n line, start ≤ n → n < s.opened → lineAt ls n = some line → ¬Opens line
  after_opened : s.opened < s.closed
  closes : ∃ line, lineAt ls s.closed = some line ∧ Text.trim line = fence
  first_closing : ∀ n line, s.opened < n → n < s.closed → lineAt ls n = some line →
    Text.trim line ≠ fence

/-- The region is a block with this format and content: it declares the format, it
is not exempt, and its content mentions a policy key. -/
structure Reports (ls : List Text) (s : Span) (f : Format) (content : Text) : Prop where
  declares : ∃ line, lineAt ls s.opened = some line ∧ Declares line f ∧ ¬IsExempt line
  content_eq : content = s.content ls
  mentions : ∃ k ∈ Policy.keys, k <:+: content

end Span

/-- The regions of a document from line `start` on, in order.  The reading stops
where no opening fence is left, or none that is closed. -/
inductive Spans (ls : List Text) : (start : Nat) → List Span → Prop
  | stop {start : Nat} (h : ∀ s, ¬Span.IsNext ls start s) : Spans ls start []
  | next {start : Nat} {s : Span} {ss : List Span} (h : s.IsNext ls start)
      (rest : Spans ls (s.closed + 1) ss) : Spans ls start (s :: ss)

/-- A region that the reading of the whole document comes to. -/
def IsRegion (ls : List Text) (s : Span) : Prop :=
  ∃ ss, Spans ls 1 ss ∧ s ∈ ss

/-- The blocks of regions, in order, after `reported` earlier ones. -/
inductive Listed (ls : List Text) : (reported : Nat) → List Span → List Block → Prop
  | nil {reported : Nat} : Listed ls reported [] []
  | skip {reported : Nat} {s : Span} {ss : List Span} {bs : List Block}
      (h : ∀ f content, ¬s.Reports ls f content) (rest : Listed ls reported ss bs) :
      Listed ls reported (s :: ss) bs
  | report {reported : Nat} {s : Span} {ss : List Span} {bs : List Block} {f : Format}
      {content : Text} (h : s.Reports ls f content) (rest : Listed ls (reported + 1) ss bs) :
      Listed ls reported (s :: ss) (⟨reported + 1, s.opened, f, content⟩ :: bs)

/-! ## A document has one reading -/

theorem Span.IsNext.unique {ls : List Text} {start : Nat} {s u : Span} (hs : s.IsNext ls start)
    (hu : u.IsNext ls start) : s = u := by
  obtain ⟨ps, hps, hpo⟩ := hs.opens
  obtain ⟨pu, hpu, huo⟩ := hu.opens
  have hopened : s.opened = u.opened := by
    rcases Nat.lt_trichotomy s.opened u.opened with h | h | h
    · exact absurd hpo (hu.first_opening _ _ hs.from_start h hps)
    · exact h
    · exact absurd huo (hs.first_opening _ _ hu.from_start h hpu)
  obtain ⟨cs, hcs, hcf⟩ := hs.closes
  obtain ⟨cu, hcu, huf⟩ := hu.closes
  have hsc := hs.after_opened
  have huc := hu.after_opened
  have hclosed : s.closed = u.closed := by
    rcases Nat.lt_trichotomy s.closed u.closed with h | h | h
    · exact absurd hcf (hu.first_closing _ _ (by omega) h hcs)
    · exact h
    · exact absurd huf (hs.first_closing _ _ (by omega) h hcu)
  cases s
  cases u
  simp_all

theorem Spans.unique {ls : List Text} {start : Nat} {ss us : List Span} (hs : Spans ls start ss)
    (hu : Spans ls start us) : ss = us := by
  induction hs generalizing us with
  | stop h =>
    cases hu with
    | stop _ => rfl
    | next h' _ => exact absurd h' (h _)
  | next h _ ih =>
    cases hu with
    | stop h' => exact absurd h (h' _)
    | next h' rest' =>
      obtain rfl := h.unique h'
      rw [ih rest']

theorem Span.Reports.unique {ls : List Text} {s : Span} {f g : Format} {c d : Text}
    (hc : s.Reports ls f c) (hd : s.Reports ls g d) : f = g ∧ c = d := by
  obtain ⟨line, hl, hf, -⟩ := hc.declares
  obtain ⟨line', hl', hg, -⟩ := hd.declares
  obtain rfl := Option.some.inj (hl.symm.trans hl')
  exact ⟨hf.unique hg, hc.content_eq.trans hd.content_eq.symm⟩

theorem Listed.unique {ls : List Text} {reported : Nat} {ss : List Span} {as bs : List Block}
    (ha : Listed ls reported ss as) (hb : Listed ls reported ss bs) : as = bs := by
  induction ha generalizing bs with
  | nil => cases hb; rfl
  | skip h _ ih =>
    cases hb with
    | skip _ rest' => exact ih rest'
    | report h' _ => exact absurd h' (h _ _)
  | report h _ ih =>
    cases hb with
    | skip h' _ => exact absurd h (h' _ _)
    | report h' rest' =>
      obtain ⟨rfl, rfl⟩ := h.unique h'
      rw [ih rest']

theorem Listed.exists_of_reports {ls : List Text} {reported : Nat} {ss : List Span}
    {bs : List Block} {s : Span} {f : Format} {content : Text} (h : Listed ls reported ss bs)
    (hs : s ∈ ss) (hreports : s.Reports ls f content) :
    ∃ b ∈ bs, b.line = s.opened ∧ b.format = f ∧ b.content = content := by
  induction h with
  | nil => exact absurd hs List.not_mem_nil
  | skip hnone _ ih =>
    rcases List.mem_cons.mp hs with rfl | hs
    · exact absurd hreports (hnone f content)
    · exact ih hs
  | report hfirst _ ih =>
    rcases List.mem_cons.mp hs with rfl | hs
    · obtain ⟨rfl, rfl⟩ := hfirst.unique hreports
      exact ⟨_, List.mem_cons_self, rfl, rfl, rfl⟩
    · obtain ⟨b, hb, hblock⟩ := ih hs
      exact ⟨b, List.mem_cons_of_mem _ hb, hblock⟩

end Markdown
end PolicyLint
