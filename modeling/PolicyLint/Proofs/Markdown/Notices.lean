/-
The notices of one pass over the lines of a document.

A line gives notice when it opens a region that is exempt, and the end of the lines gives
notice of a region that is open there and not exempt.  So the notices of a pass are the numbers
of those lines, in increasing order.
-/
import Mathlib.Data.List.Induction
import PolicyLint.Proofs.Markdown.Closed

namespace PolicyLint
namespace Markdown

/-! ## Regions that are not reported -/

/-- Line `n` opens a region that is exempt. -/
def ExemptAt (ls : List Text) (n : Nat) : Prop :=
  ∃ line, lineAt ls n = some line ∧ Closed (ls.take (n - 1)) ∧ Opens line ∧ IsExempt line

/-- Line `n` opens a region that is not exempt, and the lines end in it. -/
def UnclosedAt (ls : List Text) (n : Nat) : Prop :=
  ∃ front first body, OpenRegion ls front first body ∧ ¬IsExempt first ∧ n = front.length + 1

/-- The numbers with the property, in increasing order. -/
structure InOrder (ns : List Nat) (p : Nat → Prop) : Prop where
  sorted : ns.Pairwise (· < ·)
  mem_iff : ∀ n, n ∈ ns ↔ p n

theorem lineAt_append {front : List Text} {n : Nat} (hn : n ≤ front.length) (rest : List Text) :
    lineAt (front ++ rest) n = lineAt front n := by
  cases n with
  | zero => rfl
  | succ n => exact List.getElem?_append_left hn

theorem ExemptAt.le_length {ls : List Text} {n : Nat} (h : ExemptAt ls n) : n ≤ ls.length := by
  obtain ⟨line, hline, -⟩ := h
  exact le_length_of_lineAt hline

theorem exemptAt_append {front rest : List Text} {n : Nat} :
    ExemptAt (front ++ rest) n ∧ n ≤ front.length ↔ ExemptAt front n := by
  constructor
  · intro ⟨⟨line, hline, hclosed, hexempt⟩, hn⟩
    rw [lineAt_append hn] at hline
    rw [List.take_append_of_le_length (by omega)] at hclosed
    exact ⟨line, hline, hclosed, hexempt⟩
  · intro ⟨line, hline, hclosed, hexempt⟩
    have hn := le_length_of_lineAt hline
    rw [← lineAt_append hn rest] at hline
    rw [← List.take_append_of_le_length (by omega)] at hclosed
    exact ⟨⟨line, hline, hclosed, hexempt⟩, hn⟩

theorem exemptAt_concat {front : List Text} {line : Text} {n : Nat} :
    ExemptAt (front ++ [line]) n ↔ ExemptAt front n ∨
      (n = front.length + 1 ∧ Closed front ∧ Opens line ∧ IsExempt line) := by
  have hlast : lineAt (front ++ [line]) (front.length + 1) = some line :=
    lineAt_append_cons front [] line
  have htake : (front ++ [line]).take (front.length + 1 - 1) = front := by
    rw [Nat.add_sub_cancel, List.take_left]
  constructor
  · intro h
    by_cases hn : n ≤ front.length
    · exact .inl (exemptAt_append.mp ⟨h, hn⟩)
    · obtain ⟨l, hl, hclosed, hexempt⟩ := h
      have hlength := le_length_of_lineAt hl
      rw [List.length_append, List.length_singleton] at hlength
      obtain rfl : n = front.length + 1 := by omega
      rw [hlast, Option.some.injEq] at hl
      rw [htake] at hclosed
      rw [← hl] at hexempt
      exact .inr ⟨rfl, hclosed, hexempt⟩
  · rintro (h | ⟨rfl, hclosed, hexempt⟩)
    · exact (exemptAt_append.mpr h).1
    · refine ⟨line, hlast, ?_, hexempt⟩
      rw [htake]
      exact hclosed

namespace Reading

/-! ## One pass -/

/-- The notices that the lines give when they are read one after the other, from `region` on,
after `count` lines. -/
def noticed (count : Nat) (region : Region) : List Text → List Notice
  | [] => []
  | text :: rest =>
    let e := effect (count + 1) 0 text region
    e.notice.toList ++ noticed (count + 1) e.region rest

/-- What is told about the region in which the lines end. -/
def leftover : Region → List Notice
  | .inside _ line _ => [.unterminated line]
  | _ => []

/-- A line gives notice of nothing but the exempt region that it opens. -/
theorem notice_of_effect (line reported : Nat) (text : Text) (region : Region) :
    (effect line reported text region).notice =
      if region = .prose ∧ (opening text).any (·.exempt) then some (.exempt line) else none := by
  cases region with
  | prose =>
    unfold effect
    cases opening text with
    | none => rfl
    | some o =>
      obtain ⟨f, exempt⟩ := o
      cases exempt <;> rfl
  | exempt => rfl
  | inside f n body =>
    unfold effect
    cases closes text <;> rfl

theorem effect_notice (line reported : Nat) (text : Text) (region : Region) :
    (effect line reported text region).notice = (effect line 0 text region).notice := by
  rw [notice_of_effect, notice_of_effect]

theorem noticed_append (as bs : List Text) : ∀ (count : Nat) (region : Region),
    noticed count region (as ++ bs) = noticed count region as ++
      noticed (count + as.length) (regionAfter count region as) bs := by
  induction as with
  | nil => intro count region; rfl
  | cons text rest ih =>
    intro count region
    have hlen : count + (text :: rest).length = count + 1 + rest.length := by
      rw [List.length_cons]; omega
    rw [List.cons_append, noticed, noticed, ih, hlen, regionAfter, List.append_assoc]

theorem noticed_behind_closed {front : List Text} (h : Closed front) (rest : List Text) :
    noticed 0 .prose (front ++ rest) =
      noticed 0 .prose front ++ noticed front.length .prose rest := by
  rw [noticed_append, regionAfter_of_closed h, Nat.zero_add]

theorem any_exempt_iff {text : Text} :
    (opening text).any (·.exempt) = true ↔ Opens text ∧ IsExempt text := by
  cases ho : opening text with
  | none =>
    rw [Option.any_none]
    exact ⟨fun h => (nomatch h), fun h => absurd h.1 (opening_eq_none_iff.mp ho)⟩
  | some o =>
    obtain ⟨hdeclares, hexempt⟩ := opening_eq_some_iff.mp ho
    rw [Option.any_some, hexempt]
    exact ⟨fun h => ⟨⟨_, hdeclares⟩, h⟩, fun h => h.2⟩

/-- One pass over the lines gives notice of the exempt regions, in order. -/
theorem noticed_eq (ls : List Text) :
    ∃ ns, noticed 0 .prose ls = ns.map .exempt ∧ InOrder ns (ExemptAt ls) := by
  induction ls using List.reverseRecOn with
  | nil =>
    refine ⟨[], rfl, .nil, fun n => ⟨fun h => absurd h List.not_mem_nil, ?_⟩⟩
    intro ⟨line, hline, _⟩
    cases n with
    | zero => exact nomatch hline
    | succ n => exact nomatch hline
  | append_singleton front line ih =>
    obtain ⟨ns, hns, horder⟩ := ih
    have hpass : noticed 0 .prose (front ++ [line]) = noticed 0 .prose front ++
        (effect (front.length + 1) 0 line (regionAfter 0 .prose front)).notice.toList := by
      rw [noticed_append, Nat.zero_add, noticed, noticed, List.append_nil]
    rw [hpass, hns, notice_of_effect]
    by_cases h : Closed front ∧ Opens line ∧ IsExempt line
    · have hlast : ∀ m ∈ ns, m < front.length + 1 := fun m hm =>
        Nat.lt_succ_of_le ((horder.mem_iff m).mp hm).le_length
      rw [if_pos ⟨closed_iff.mp h.1, any_exempt_iff.mpr h.2⟩]
      refine ⟨ns ++ [front.length + 1], by rw [List.map_append]; rfl, ?_, fun n => ?_⟩
      · refine List.pairwise_append.mpr ⟨horder.sorted, List.pairwise_singleton _ _, ?_⟩
        intro m hm k hk
        rw [List.mem_singleton.mp hk]
        exact hlast m hm
      · rw [List.mem_append, List.mem_singleton, horder.mem_iff, exemptAt_concat,
          and_iff_left h]
    · rw [if_neg fun hp => h ⟨closed_iff.mpr hp.1, any_exempt_iff.mp hp.2⟩]
      refine ⟨ns, List.append_nil _, horder.sorted, fun n => ?_⟩
      rw [horder.mem_iff, exemptAt_concat, or_iff_left fun hp => h hp.2]

theorem exempt_mem_noticed {ls : List Text} {n : Nat} :
    .exempt n ∈ noticed 0 .prose ls ↔ ExemptAt ls n := by
  obtain ⟨ns, hns, horder⟩ := noticed_eq ls
  rw [hns, ← horder.mem_iff, List.mem_map]
  constructor
  · intro ⟨m, hm, hsame⟩
    rw [← Notice.exempt.inj hsame]
    exact hm
  · exact fun h => ⟨n, h, rfl⟩

theorem lt_of_exempt_mem_noticed {n : Nat} (ls : List Text) : ∀ {count : Nat} {region : Region},
    .exempt n ∈ noticed count region ls → count < n := by
  induction ls with
  | nil => exact fun h => absurd h List.not_mem_nil
  | cons text rest ih =>
    intro count region h
    rw [noticed, List.mem_append, Option.mem_toList, notice_of_effect] at h
    rcases h with h | h
    · split at h
      · rw [Option.some.injEq, Notice.exempt.injEq] at h
        omega
      · exact nomatch h
    · exact Nat.lt_of_succ_lt (ih h)

/-- The notices behind lines that are closed are those of the exempt regions there. -/
theorem exempt_mem_noticed_behind {front rest : List Text} (h : Closed front) {n : Nat} :
    .exempt n ∈ noticed front.length .prose rest ↔
      ExemptAt (front ++ rest) n ∧ front.length < n := by
  have hwhole : ExemptAt (front ++ rest) n ↔
      ExemptAt front n ∨ .exempt n ∈ noticed front.length .prose rest := by
    rw [← exempt_mem_noticed, noticed_behind_closed h, List.mem_append, exempt_mem_noticed]
  constructor
  · exact fun hmem => ⟨hwhole.mpr (.inr hmem), lt_of_exempt_mem_noticed rest hmem⟩
  · intro ⟨hexempt, hlt⟩
    refine (hwhole.mp hexempt).resolve_left fun hfront => ?_
    exact Nat.not_le_of_lt hlt hfront.le_length

/-! ## Where the lines end -/

/-- What is told at the end is the opening of the region that the lines end in, unless it is
exempt. -/
theorem leftover_eq (ls : List Text) :
    ∃ last : Option Nat, leftover (regionAfter 0 .prose ls) = last.toList.map .unterminated ∧
      ∀ n, last = some n ↔ UnclosedAt ls n := by
  have hinside : ∀ n, UnclosedAt ls n → ∃ f body, regionAfter 0 .prose ls = .inside f n body := by
    intro n ⟨front, first, body, hregion, hexempt, hn⟩
    obtain ⟨o, ho⟩ := exists_opening hregion.opens
    have he : ¬o.exempt = true := fun he => hexempt ((opening_eq_some_iff.mp ho).2.mp he)
    refine ⟨o.format, body.reverse, ?_⟩
    rw [regionAfter_openRegion hregion ho, if_neg he, hn]
  cases hregion : regionAfter 0 .prose ls with
  | prose =>
    refine ⟨none, rfl, fun n => ⟨fun h => (nomatch h), fun h => ?_⟩⟩
    obtain ⟨f, body, hinside⟩ := hinside n h
    rw [hregion] at hinside
    exact nomatch hinside
  | exempt =>
    refine ⟨none, rfl, fun n => ⟨fun h => (nomatch h), fun h => ?_⟩⟩
    obtain ⟨f, body, hinside⟩ := hinside n h
    rw [hregion] at hinside
    exact nomatch hinside
  | inside f opened body =>
    refine ⟨some opened, rfl, fun n => ⟨fun h => ?_, fun h => ?_⟩⟩
    · obtain ⟨front, first, hopen, ho, hopened⟩ := region_of_inside hregion
      have hexempt : ¬IsExempt first := fun hx =>
        Bool.false_ne_true ((opening_eq_some_iff.mp ho).2.mpr hx)
      rw [Option.some.injEq] at h
      exact ⟨front, first, _, hopen, hexempt, h.symm.trans hopened⟩
    · obtain ⟨f', body', hinside⟩ := hinside n h
      rw [hregion, Region.inside.injEq] at hinside
      rw [hinside.2.1]

end Reading

end Markdown
end PolicyLint
