/-
Reading line by line finds the regions.

In prose nothing happens until an opening fence; from there a region goes on until
a bare fence.  So a pass over the lines falls apart at the fences of the first
region, and the rest of the lines is read as prose again.
-/
import PolicyLint.Proofs.Markdown.Regions
import PolicyLint.Proofs.Markdown.Run

namespace PolicyLint
namespace Markdown

/-! ## Runs of lines -/

namespace Reading

theorem collected_prose {ls : List Text} (h : ∀ line ∈ ls, ¬Opens line) :
    ∀ count reported : Nat, collected count reported .prose ls = [] ∧
      regionAfter count .prose ls = .prose := by
  induction ls with
  | nil => intro count reported; exact ⟨rfl, rfl⟩
  | cons text rest ih =>
    intro count reported
    have ho : opening text = none := opening_eq_none_iff.mpr (h text List.mem_cons_self)
    have hr := ih (fun line hl => h line (List.mem_cons_of_mem text hl)) (count + 1) reported
    simp only [collected, regionAfter, effect, ho]
    exact hr

theorem collected_exempt {ls : List Text} (h : ∀ line ∈ ls, Text.trim line ≠ fence) :
    ∀ count reported : Nat, collected count reported .exempt ls = [] ∧
      regionAfter count .exempt ls = .exempt := by
  induction ls with
  | nil => intro count reported; exact ⟨rfl, rfl⟩
  | cons text rest ih =>
    intro count reported
    have hc : closes text = false := closes_eq_false_iff.mpr (h text List.mem_cons_self)
    have hr := ih (fun line hl => h line (List.mem_cons_of_mem text hl)) (count + 1) reported
    simp only [collected, regionAfter, effect, hc]
    exact hr

theorem collected_inside {ls : List Text} (h : ∀ line ∈ ls, Text.trim line ≠ fence)
    (f : Format) (opened : Nat) : ∀ (count reported : Nat) (body : List Text),
    collected count reported (.inside f opened body) ls = [] ∧
      regionAfter count (.inside f opened body) ls = .inside f opened (ls.reverse ++ body) := by
  induction ls with
  | nil => intro count reported body; exact ⟨rfl, rfl⟩
  | cons text rest ih =>
    intro count reported body
    have hc : closes text = false := closes_eq_false_iff.mpr (h text List.mem_cons_self)
    have hr := ih (fun line hl => h line (List.mem_cons_of_mem text hl)) (count + 1) reported
      (text :: body)
    simp only [collected, regionAfter, effect, hc, Bool.false_eq_true, if_false]
    rw [List.reverse_cons, List.append_assoc]
    exact hr

/-- The region after an opening fence. -/
def entered (line : Nat) (o : Opening) : Region :=
  if o.exempt then .exempt else .inside o.format line []

theorem collected_opening {text : Text} {o : Opening} (ho : opening text = some o)
    (rest : List Text) (count reported : Nat) :
    collected count reported .prose (text :: rest) =
      collected (count + 1) reported (entered (count + 1) o) rest := by
  simp only [collected, effect, ho, entered]
  cases o.exempt <;> rfl

theorem collected_unclosed {ls : List Text} (h : ∀ line ∈ ls, Text.trim line ≠ fence)
    (o : Opening) (opened count reported : Nat) :
    collected count reported (entered opened o) ls = [] := by
  unfold entered
  by_cases he : o.exempt = true
  · rw [if_pos he]
    exact (collected_exempt h count reported).1
  · rw [if_neg he]
    exact (collected_inside h o.format opened count reported []).1

/-- The block of a closed region, if it is one. -/
def blockOf (opened reported : Nat) (o : Opening) (body : List Text) : Option Block :=
  let content := Text.join ['\n'] body
  if !o.exempt && Policy.mentioned content then some ⟨reported + 1, opened, o.format, content⟩
  else none

/-- A region that is closed reports its block, if it is one, and prose follows. -/
theorem collected_closed {body : List Text} (h : ∀ line ∈ body, Text.trim line ≠ fence)
    {last : Text} (hlast : Text.trim last = fence) (o : Opening) (opened : Nat)
    (rest : List Text) (count reported : Nat) :
    collected count reported (entered opened o) (body ++ last :: rest) =
      match blockOf opened reported o body with
      | some b => b :: collected (count + body.length + 1) (reported + 1) .prose rest
      | none => collected (count + body.length + 1) reported .prose rest := by
  have hc : closes last = true := closes_iff.mpr hlast
  unfold entered blockOf
  by_cases he : o.exempt = true
  · obtain ⟨hnone, hafter⟩ := collected_exempt h count reported
    rw [if_pos he, collected_append, hnone, hafter]
    simp [collected, effect, hc, he]
  · obtain ⟨hnone, hafter⟩ := collected_inside h o.format opened count reported []
    rw [if_neg he, collected_append, hnone, hafter]
    rw [Bool.not_eq_true] at he
    by_cases hm : Policy.mentioned (Text.join ['\n'] body) = true <;>
      simp [collected, effect, hc, he, hm]

end Reading

/-! ## The two readings agree -/

theorem first_or_none {α : Type} (p : α → Prop) (ls : List α) :
    (∀ x ∈ ls, ¬p x) ∨ ∃ as x bs, ls = as ++ x :: bs ∧ p x ∧ ∀ y ∈ as, ¬p y := by
  induction ls with
  | nil => exact .inl (by simp)
  | cons y ls ih =>
    by_cases hy : p y
    · exact .inr ⟨[], y, ls, rfl, hy, by simp⟩
    · rcases ih with hn | ⟨as, x, bs, rfl, hx, has⟩
      · refine .inl fun x hx => ?_
        rcases List.mem_cons.mp hx with rfl | hx
        · exact hy
        · exact hn x hx
      · refine .inr ⟨y :: as, x, bs, rfl, hx, fun z hz => ?_⟩
        rcases List.mem_cons.mp hz with rfl | hz
        · exact hy
        · exact has z hz

section Split

variable (before prose body after : List Text) {first last : Text} {o : Opening}

/-- The region with this body, when `before` and `prose` come before it. -/
def spanAt : Span where
  opened := before.length + prose.length + 1
  closed := before.length + prose.length + 1 + body.length + 1

theorem lineAt_opened (first : Text) :
    lineAt (before ++ (prose ++ first :: after)) (before.length + prose.length + 1) =
      some first := by
  have h := lineAt_append_cons (before ++ prose) after first
  rwa [List.append_assoc, List.length_append] at h

theorem lineAt_closed (first last : Text) :
    lineAt (before ++ (prose ++ first :: (body ++ last :: after)))
      (before.length + prose.length + 1 + body.length + 1) = some last := by
  have h := lineAt_append_cons (before ++ prose ++ first :: body) after last
  simpa [Nat.add_assoc, Nat.add_comm, Nat.add_left_comm] using h

theorem not_opens_of_lineAt (hprose : ∀ line ∈ prose, ¬Opens line) (n : Nat) (line : Text)
    (hl : before.length + 1 ≤ n) (hu : n < before.length + prose.length + 1)
    (h : lineAt (before ++ (prose ++ after)) n = some line) : ¬Opens line :=
  hprose line (mem_of_lineAt before prose after h (by omega) (by omega))

theorem isNext_spanAt (hprose : ∀ line ∈ prose, ¬Opens line) (hfirst : Opens first)
    (hbody : ∀ line ∈ body, Text.trim line ≠ fence) (hlast : Text.trim last = fence) :
    (spanAt before prose body).IsNext (before ++ (prose ++ first :: (body ++ last :: after)))
      (before.length + 1) where
  from_start := by
    show before.length + 1 ≤ before.length + prose.length + 1
    omega
  opens := ⟨first, lineAt_opened before prose (body ++ last :: after) first, hfirst⟩
  first_opening := not_opens_of_lineAt before prose (first :: (body ++ last :: after)) hprose
  after_opened := by
    show before.length + prose.length + 1 < before.length + prose.length + 1 + body.length + 1
    omega
  closes := ⟨last, lineAt_closed before prose body after first last, hlast⟩
  first_closing := by
    intro n line hl hu h
    have hmem : line ∈ body := by
      refine mem_of_lineAt (before ++ prose ++ [first]) body (last :: after) (by simpa using h)
        ?_ ?_
      · simp only [spanAt, List.length_append, List.length_singleton] at hl ⊢
        exact hl
      · simp only [spanAt, List.length_append, List.length_singleton] at hu ⊢
        omega
    exact hbody line hmem

theorem not_isNext_of_prose (hprose : ∀ line ∈ prose, ¬Opens line) (s : Span) :
    ¬s.IsNext (before ++ prose) (before.length + 1) := by
  intro h
  obtain ⟨line, hline, ho⟩ := h.opens
  have hstart := h.from_start
  have hlen := le_length_of_lineAt hline
  rw [List.length_append] at hlen
  refine hprose line (mem_of_lineAt before prose [] ?_ (by omega) hlen) ho
  rwa [List.append_nil]

theorem not_isNext_of_unclosed (hprose : ∀ line ∈ prose, ¬Opens line)
    (hbody : ∀ line ∈ body, Text.trim line ≠ fence) (s : Span) :
    ¬s.IsNext (before ++ (prose ++ first :: body)) (before.length + 1) := by
  intro h
  obtain ⟨line, hline, ho⟩ := h.opens
  obtain ⟨line', hline', hc⟩ := h.closes
  have hstart := h.from_start
  have hafter := h.after_opened
  have hle : before.length + prose.length + 1 ≤ s.opened := by
    refine Nat.le_of_not_lt fun hlt => ?_
    exact not_opens_of_lineAt before prose (first :: body) hprose _ _ hstart (by omega) hline ho
  have hlen := le_length_of_lineAt hline'
  have hrest : before ++ (prose ++ first :: body) =
      before ++ prose ++ [first] ++ (body ++ []) := by simp
  rw [hrest] at hline' hlen
  refine hbody line' (mem_of_lineAt (before ++ prose ++ [first]) body [] hline' ?_ ?_) hc
  · simp only [List.length_append, List.length_singleton]
    omega
  · simp only [List.length_append, List.length_singleton, List.length_nil] at hlen ⊢
    omega

theorem body_spanAt (first last : Text) :
    (spanAt before prose body).body (before ++ (prose ++ first :: (body ++ last :: after))) =
      body := by
  have hdrop : (before ++ (prose ++ first :: (body ++ last :: after))).drop
      (before.length + prose.length + 1) = body ++ last :: after := by
    have h := @List.drop_left Text (before ++ prose ++ [first]) (body ++ last :: after)
    simp only [List.append_assoc, List.singleton_append, List.length_append,
      List.length_singleton] at h
    exact h
  have htake : before.length + prose.length + 1 + body.length + 1 -
      (before.length + prose.length + 1) - 1 = body.length := by omega
  simp only [Span.body, spanAt, hdrop, htake, List.take_left']

/-- A region is a block exactly when reading it line by line completes one. -/
theorem reports_iff_blockOf (last : Text) (ho : opening first = some o) (reported : Nat) (f : Format)
    (content : Text) :
    (spanAt before prose body).Reports (before ++ (prose ++ first :: (body ++ last :: after)))
        f content ↔
      Reading.blockOf (spanAt before prose body).opened reported o body =
        some ⟨reported + 1, (spanAt before prose body).opened, f, content⟩ := by
  obtain ⟨hdecl, hex⟩ := opening_eq_some_iff.mp ho
  have hline := lineAt_opened before prose (body ++ last :: after) first
  have hcontent : (spanAt before prose body).content
      (before ++ (prose ++ first :: (body ++ last :: after))) = Text.join ['\n'] body := by
    rw [Span.content, body_spanAt]
  have hblock : Reading.blockOf (spanAt before prose body).opened reported o body =
      some ⟨reported + 1, (spanAt before prose body).opened, f, content⟩ ↔
        (o.exempt = false ∧ Policy.mentioned (Text.join ['\n'] body) = true) ∧
          o.format = f ∧ Text.join ['\n'] body = content := by
    simp [Reading.blockOf]
  rw [hblock, mentioned_iff, Bool.eq_false_iff, ne_eq, hex]
  constructor
  · intro h
    obtain ⟨line, hl, hf, hne⟩ := h.declares
    obtain rfl := Option.some.inj (hline.symm.trans hl)
    have hc := h.content_eq.trans hcontent
    exact ⟨⟨hne, hc ▸ h.mentions⟩, hdecl.unique hf, hc.symm⟩
  · rintro ⟨⟨hne, hm⟩, rfl, rfl⟩
    exact ⟨⟨first, hline, hdecl, hne⟩, hcontent.symm, hm⟩

end Split

/-- From any line on that is read as prose, the blocks collected are those of the
regions from that line on.  The induction is on the lines that are left; every
region takes up its two fences at least. -/
theorem collected_listed (after before : List Text) (reported : Nat) :
    ∃ ss, Spans (before ++ after) (before.length + 1) ss ∧
      Listed (before ++ after) reported ss
        (Reading.collected before.length reported .prose after) := by
  rcases first_or_none Opens after with hprose | ⟨prose, first, rest, rfl, hfirst, hprose⟩
  · rw [(Reading.collected_prose hprose before.length reported).1]
    exact ⟨[], .stop (not_isNext_of_prose before after hprose), .nil⟩
  · obtain ⟨hnone, hprosed⟩ := Reading.collected_prose hprose before.length reported
    obtain ⟨o, ho⟩ : ∃ o, opening first = some o := by
      cases ho : opening first with
      | none => exact absurd hfirst (opening_eq_none_iff.mp ho)
      | some o => exact ⟨o, rfl⟩
    rw [Reading.collected_append, hnone, hprosed, List.nil_append, List.length_nil,
      Nat.add_zero, Reading.collected_opening ho]
    rcases first_or_none (fun line => Text.trim line = fence) rest with
      hbody | ⟨body, last, later, rfl, hlast, hbody⟩
    · rw [Reading.collected_unclosed hbody]
      exact ⟨[], .stop (not_isNext_of_unclosed before prose rest hprose hbody), .nil⟩
    · rw [Reading.collected_closed hbody hlast]
      have hnext := isNext_spanAt before prose body later hprose hfirst hbody hlast
      have hreports := reports_iff_blockOf before prose body later last ho reported
      -- The lines up to the closing fence have been passed.
      have hls : before ++ (prose ++ first :: (body ++ last :: later)) =
          (before ++ prose ++ first :: (body ++ [last])) ++ later := by simp
      have hlen : (before ++ prose ++ first :: (body ++ [last])).length =
          (spanAt before prose body).closed := by
        simp only [spanAt, List.length_append, List.length_cons, List.length_nil]
        omega
      have ih := collected_listed later (before ++ prose ++ first :: (body ++ [last]))
      rw [← hls, hlen] at ih
      cases hb : Reading.blockOf (before.length + prose.length + 1) reported o body with
      | none =>
        obtain ⟨ss, hss, hlist⟩ := ih reported
        refine ⟨_ :: ss, .next hnext hss, .skip (fun f content h => ?_) hlist⟩
        have hsome := (hreports f content).mp h
        rw [show (spanAt before prose body).opened = before.length + prose.length + 1 from rfl,
          hb] at hsome
        exact absurd hsome (by simp)
      | some b =>
        obtain ⟨ss, hss, hlist⟩ := ih (reported + 1)
        have hbe : b = ⟨reported + 1, before.length + prose.length + 1, b.format, b.content⟩ := by
          simp only [Reading.blockOf, Option.ite_none_right_eq_some, Option.some.injEq] at hb
          rw [← hb.2]
        rw [hbe] at hb ⊢
        exact ⟨_ :: ss, .next hnext hss,
          .report ((hreports b.format b.content).mpr hb) hlist⟩
termination_by after.length

/-- The blocks of a document are those of its regions. -/
theorem blocks_listed (t : Text) :
    ∃ ss, Spans (Text.lines t) 1 ss ∧ Listed (Text.lines t) 0 ss (blocks t) := by
  rw [blocks_eq_collected]
  exact collected_listed (Text.lines t) [] 0

theorem exists_block_of_reports {t : Text} {s : Span} {f : Format} {content : Text}
    (hs : IsRegion (Text.lines t) s) (h : s.Reports (Text.lines t) f content) :
    ∃ b ∈ blocks t, b.line = s.opened ∧ b.format = f ∧ b.content = content := by
  obtain ⟨us, hus, hmem⟩ := hs
  obtain ⟨ss, hss, hlist⟩ := blocks_listed t
  obtain rfl := hus.unique hss
  exact hlist.exists_of_reports hmem h

/-- Asking for blocks until there are no more gives the blocks of the regions, and
no others. -/
theorem yields_iff_regions (t : Text) (bs : List Block) :
    (Reading.Yields (Reading.start t) bs ↔ bs = blocks t) ∧
      (bs = blocks t ↔
        ∃ ss, Spans (Text.lines t) 1 ss ∧ Listed (Text.lines t) 0 ss bs) := by
  obtain ⟨ss, hss, hlist⟩ := blocks_listed t
  have hyields := yields_blocks t
  refine ⟨⟨fun h => h.unique hyields, fun h => h ▸ hyields⟩, fun h => ⟨ss, hss, h ▸ hlist⟩, ?_⟩
  rintro ⟨us, hus, h⟩
  obtain rfl := hus.unique hss
  exact h.unique hlist

/-! ## Ordinals and lines of the blocks -/

theorem Listed.ordinals {ls : List Text} {reported : Nat} {ss : List Span} {bs : List Block}
    (h : Listed ls reported ss bs) :
    bs.map (·.ordinal) = List.range' (reported + 1) bs.length := by
  induction h with
  | nil => rfl
  | skip _ _ ih => exact ih
  | report _ _ ih => rw [List.map_cons, ih, List.length_cons, List.range'_succ]

-- No policy key is empty, so a region that mentions one has a line between its fences.
theorem Span.Reports.opened_add_two_le {ls : List Text} {s : Span} {f : Format} {content : Text}
    (h : s.Reports ls f content) : s.opened + 2 ≤ s.closed := by
  obtain ⟨k, hk, hkc⟩ := h.mentions
  have hne : k ≠ [] := by
    rintro rfl
    exact absurd hk (by decide)
  refine Nat.le_of_not_lt fun hlt => hne ?_
  have hbody : s.body ls = [] := by
    rw [Span.body, show s.closed - s.opened - 1 = 0 by omega, List.take_zero]
  rw [h.content_eq, Span.content, hbody] at hkc
  exact List.infix_nil.mp hkc

theorem Listed.lines {ls : List Text} {start reported : Nat} {ss : List Span} {bs : List Block}
    (hss : Spans ls start ss) (h : Listed ls reported ss bs) :
    (∀ b ∈ bs, start ≤ b.line) ∧ bs.Pairwise fun a b => a.line + 3 ≤ b.line := by
  induction hss generalizing reported bs with
  | stop _ =>
    cases h
    exact ⟨by simp, .nil⟩
  | @next start s ss hnext _ ih =>
    have hstart := hnext.from_start
    have hafter := hnext.after_opened
    cases h with
    | skip _ hrest =>
      obtain ⟨hle, hpair⟩ := ih hrest
      refine ⟨fun b hb => ?_, hpair⟩
      have := hle b hb
      omega
    | report hreport hrest =>
      obtain ⟨hle, hpair⟩ := ih hrest
      have htwo := hreport.opened_add_two_le
      refine ⟨fun b hb => ?_, List.pairwise_cons.mpr ⟨fun b hb => ?_, hpair⟩⟩
      · rcases List.mem_cons.mp hb with rfl | hb
        · exact hstart
        · have := hle b hb
          omega
      · have := hle b hb
        show s.opened + 3 ≤ b.line
        omega

/-- The blocks of a document are numbered from one, without a gap. -/
theorem blocks_ordinals (t : Text) :
    (blocks t).map (·.ordinal) = List.range' 1 (blocks t).length := by
  obtain ⟨ss, -, h⟩ := blocks_listed t
  exact h.ordinals

/-- Between the opening fences of two blocks lie a line of content and a bare fence. -/
theorem blocks_lines_apart (t : Text) :
    (blocks t).Pairwise fun a b => a.line + 3 ≤ b.line := by
  obtain ⟨ss, hss, h⟩ := blocks_listed t
  exact (h.lines hss).2

end Markdown
end PolicyLint
