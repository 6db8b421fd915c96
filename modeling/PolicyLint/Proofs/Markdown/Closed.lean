/-
Whether a region is open behind some lines.

Lines fall apart into prose and regions that are closed, unless the last region is opened and
never closed.  Reading them ends in prose in the first case and in that region in the second.
-/
import PolicyLint.Proofs.Markdown.RegionReading

namespace PolicyLint
namespace Markdown

/-- Lines in which every region that is opened is closed. -/
inductive Closed : List Text → Prop
  | nil : Closed []
  | prose {line : Text} {ls : List Text} (h : ¬Opens line) (rest : Closed ls) :
      Closed (line :: ls)
  | region {first last : Text} {body ls : List Text} (hfirst : Opens first)
      (hbody : ∀ line ∈ body, Text.trim line ≠ fence) (hlast : Text.trim last = fence)
      (rest : Closed ls) : Closed (first :: (body ++ last :: ls))

theorem Closed.behind_prose {prose ls : List Text} (h : ∀ line ∈ prose, ¬Opens line)
    (hls : Closed ls) : Closed (prose ++ ls) := by
  induction prose with
  | nil => exact hls
  | cons line prose ih =>
    apply Closed.prose (h line List.mem_cons_self)
    exact ih fun l hl => h l (List.mem_cons_of_mem line hl)

/-- The last region is opened and never closed. -/
def LeftOpen (ls : List Text) : Prop :=
  ∃ front first body, ls = front ++ first :: body ∧ Closed front ∧ Opens first ∧
    ∀ line ∈ body, Text.trim line ≠ fence

/- The recursion is on the lines that are left; every region takes up its two fences at
least. -/
theorem closed_or_leftOpen (ls : List Text) : Closed ls ∨ LeftOpen ls := by
  rcases first_or_none Opens ls with hprose | ⟨prose, first, rest, hls, hfirst, hprose⟩
  · left
    have hclosed := Closed.behind_prose hprose .nil
    rwa [List.append_nil] at hclosed
  · rcases first_or_none (fun line => Text.trim line = fence) rest with
      hbody | ⟨body, last, later, hrest, hlast, hbody⟩
    · right
      have hfront := Closed.behind_prose hprose .nil
      rw [List.append_nil] at hfront
      exact ⟨prose, first, rest, hls, hfront, hfirst, hbody⟩
    · rw [hls, hrest]
      rcases closed_or_leftOpen later with hclosed | hopen
      · left
        exact Closed.behind_prose hprose (.region hfirst hbody hlast hclosed)
      · right
        obtain ⟨front, first', body', hlater, hfront, hfirst', hbody'⟩ := hopen
        refine ⟨prose ++ first :: (body ++ last :: front), first', body', ?_, ?_, hfirst', hbody'⟩
        · rw [hlater]
          simp only [List.append_assoc, List.cons_append]
        · exact Closed.behind_prose hprose (.region hfirst hbody hlast hfront)
termination_by ls.length
decreasing_by
  rw [hls, hrest]
  simp only [List.length_append, List.length_cons]
  omega

/-- The lines end in the body of a region that `first` opens behind `front`. -/
structure OpenRegion (ls front : List Text) (first : Text) (body : List Text) : Prop where
  lines_eq : ls = front ++ first :: body
  front_closed : Closed front
  opens : Opens first
  no_fence : ∀ line ∈ body, Text.trim line ≠ fence

/-- Behind `front` stands a region with this body between `first` and `last`. -/
structure ClosedRegion (ls front : List Text) (first : Text) (body : List Text) (last : Text)
    (after : List Text) : Prop where
  lines_eq : ls = front ++ first :: (body ++ last :: after)
  front_closed : Closed front
  opens : Opens first
  no_fence : ∀ line ∈ body, Text.trim line ≠ fence
  closes : Text.trim last = fence

theorem OpenRegion.append {ls front : List Text} {first : Text} {body : List Text}
    (h : OpenRegion ls front first body) {rest : List Text}
    (hrest : ∀ line ∈ rest, Text.trim line ≠ fence) :
    OpenRegion (ls ++ rest) front first (body ++ rest) where
  lines_eq := by rw [h.lines_eq, List.append_assoc, List.cons_append]
  front_closed := h.front_closed
  opens := h.opens
  no_fence := List.forall_mem_append.mpr ⟨h.no_fence, hrest⟩

theorem OpenRegion.close {ls front : List Text} {first : Text} {body : List Text}
    (h : OpenRegion ls front first body) {last : Text} (hlast : Text.trim last = fence)
    (after : List Text) : ClosedRegion (ls ++ last :: after) front first body last after where
  lines_eq := by rw [h.lines_eq, List.append_assoc, List.cons_append]
  front_closed := h.front_closed
  opens := h.opens
  no_fence := h.no_fence
  closes := hlast

theorem exists_opening {line : Text} (h : Opens line) : ∃ o, opening line = some o := by
  cases ho : opening line with
  | none => exact absurd h (opening_eq_none_iff.mp ho)
  | some o => exact ⟨o, rfl⟩

namespace Reading

/-! ## The region at the end of lines -/

theorem regionAfter_append (as bs : List Text) : ∀ (count : Nat) (region : Region),
    regionAfter count region (as ++ bs) =
      regionAfter (count + as.length) (regionAfter count region as) bs := by
  induction as with
  | nil => intro count region; rfl
  | cons text rest ih =>
    intro count region
    have hlen : count + (text :: rest).length = count + 1 + rest.length := by
      rw [List.length_cons]; omega
    rw [List.cons_append, regionAfter, ih, hlen]
    rfl

theorem regionAfter_opening {text : Text} {o : Opening} (ho : opening text = some o)
    (rest : List Text) (count : Nat) :
    regionAfter count .prose (text :: rest) =
      regionAfter (count + 1) (entered (count + 1) o) rest := by
  simp only [regionAfter, effect, ho, entered]
  cases o.exempt <;> rfl

theorem regionAfter_unclosed {ls : List Text} (h : ∀ line ∈ ls, Text.trim line ≠ fence)
    (o : Opening) (opened count : Nat) : regionAfter count (entered opened o) ls ≠ .prose := by
  unfold entered
  by_cases he : o.exempt = true
  · rw [if_pos he, (collected_exempt h count 0).2]
    exact fun hp => nomatch hp
  · rw [if_neg he, (collected_inside h o.format opened count 0 []).2]
    exact fun hp => nomatch hp

theorem regionAfter_closed {body : List Text} (h : ∀ line ∈ body, Text.trim line ≠ fence)
    {last : Text} (hlast : Text.trim last = fence) (o : Opening) (opened : Nat)
    (rest : List Text) (count : Nat) :
    regionAfter count (entered opened o) (body ++ last :: rest) =
      regionAfter (count + body.length + 1) .prose rest := by
  have hc : closes last = true := closes_iff.mpr hlast
  unfold entered
  by_cases he : o.exempt = true
  · rw [if_pos he, regionAfter_append, (collected_exempt h count 0).2]
    simp only [regionAfter, effect, hc, if_true]
  · rw [if_neg he, regionAfter_append, (collected_inside h o.format opened count 0 []).2]
    simp only [regionAfter, effect, hc, if_true]

theorem regionAfter_of_closed {ls : List Text} (h : Closed ls) (count : Nat) :
    regionAfter count .prose ls = .prose := by
  induction h generalizing count with
  | nil => rfl
  | prose h _ ih =>
    simp only [regionAfter, effect, opening_eq_none_iff.mpr h]
    exact ih (count + 1)
  | region hfirst hbody hlast _ ih =>
    obtain ⟨o, ho⟩ := exists_opening hfirst
    rw [regionAfter_opening ho, regionAfter_closed hbody hlast]
    exact ih _

/-- A region is open at the end exactly when the reading does not end in prose. -/
theorem leftOpen_iff {ls : List Text} : LeftOpen ls ↔ regionAfter 0 .prose ls ≠ .prose := by
  constructor
  · intro ⟨front, first, body, hls, hfront, hfirst, hbody⟩
    obtain ⟨o, ho⟩ := exists_opening hfirst
    rw [hls, regionAfter_append, regionAfter_of_closed hfront, regionAfter_opening ho]
    exact regionAfter_unclosed hbody o _ _
  · intro h
    rcases closed_or_leftOpen ls with hclosed | hopen
    · exact absurd (regionAfter_of_closed hclosed 0) h
    · exact hopen

/-- The reading ends in prose exactly when every region is closed. -/
theorem closed_iff {ls : List Text} : Closed ls ↔ regionAfter 0 .prose ls = .prose := by
  refine ⟨fun h => regionAfter_of_closed h 0, fun h => ?_⟩
  rcases closed_or_leftOpen ls with hclosed | hopen
  · exact hclosed
  · exact absurd h (leftOpen_iff.mp hopen)

theorem regionAfter_openRegion {ls front : List Text} {first : Text} {body : List Text}
    (h : OpenRegion ls front first body) {o : Opening} (ho : opening first = some o) :
    regionAfter 0 .prose ls =
      if o.exempt then .exempt else .inside o.format (front.length + 1) body.reverse := by
  rw [h.lines_eq, regionAfter_append, regionAfter_of_closed h.front_closed,
    regionAfter_opening ho, entered, Nat.zero_add]
  by_cases he : o.exempt = true
  · rw [if_pos he, if_pos he, (collected_exempt h.no_fence _ 0).2]
  · rw [if_neg he, if_neg he, (collected_inside h.no_fence _ _ _ 0 []).2, List.append_nil]

/-! ## The blocks of a region behind lines that are closed -/

/-- Lines that end in the body of a region have the blocks of the lines in front of it. -/
theorem collected_openRegion {ls front : List Text} {first : Text} {body : List Text}
    (h : OpenRegion ls front first body) :
    collected 0 0 .prose ls = collected 0 0 .prose front := by
  obtain ⟨o, ho⟩ := exists_opening h.opens
  rw [h.lines_eq, collected_append, regionAfter_of_closed h.front_closed, collected_opening ho,
    collected_unclosed h.no_fence, List.append_nil]

/-- The blocks of a document are those in front of a region, the one of the region, if it has
one, and those behind it. -/
theorem collected_closedRegion {ls front : List Text} {first : Text} {body : List Text}
    {last : Text} {after : List Text} (h : ClosedRegion ls front first body last after)
    {o : Opening} (ho : opening first = some o) :
    collected 0 0 .prose ls = collected 0 0 .prose front ++
      match blockOf (front.length + 1) (collected 0 0 .prose front).length o body with
      | some b => b :: collected (front.length + 1 + body.length + 1)
          ((collected 0 0 .prose front).length + 1) .prose after
      | none => collected (front.length + 1 + body.length + 1)
          (collected 0 0 .prose front).length .prose after := by
  have hblock := collected_closed h.no_fence h.closes o (front.length + 1) after
    (front.length + 1) (collected 0 0 .prose front).length
  rw [h.lines_eq, collected_append, regionAfter_of_closed h.front_closed, Nat.zero_add,
    Nat.zero_add, collected_opening ho]
  exact congrArg (collected 0 0 .prose front ++ ·) hblock

theorem closed_append {as bs : List Text} (ha : Closed as) (hb : Closed bs) : Closed (as ++ bs) := by
  rw [closed_iff, regionAfter_append, regionAfter_of_closed ha]
  exact regionAfter_of_closed hb _

theorem region_of_inside {ls : List Text} {f : Format} {opened : Nat} {body : List Text}
    (h : regionAfter 0 .prose ls = .inside f opened body) :
    ∃ front first, OpenRegion ls front first body.reverse ∧ opening first = some ⟨f, false⟩ ∧
      opened = front.length + 1 := by
  rcases closed_or_leftOpen ls with hclosed | ⟨front, first, body', hls, hfront, hfirst, hbody⟩
  · rw [regionAfter_of_closed hclosed] at h
    exact nomatch h
  · have hregion : OpenRegion ls front first body' := ⟨hls, hfront, hfirst, hbody⟩
    obtain ⟨⟨f', exempt⟩, ho⟩ := exists_opening hfirst
    rw [regionAfter_openRegion hregion ho] at h
    cases exempt with
    | true => exact nomatch h
    | false =>
      obtain ⟨hformat, hopened, hreverse⟩ := Region.inside.inj h
      rw [← hreverse, List.reverse_reverse, ← hformat]
      exact ⟨front, first, hregion, ho, hopened.symm⟩

/-- A line that completes a block closes the region that it stands in. -/
theorem effect_of_block {line reported : Nat} {text : Text} {region : Region} {b : Block}
    (h : (effect line reported text region).block = some b) :
    ∃ f body, region = .inside f b.line body ∧ Text.trim text = fence ∧
      (effect line reported text region).region = .prose ∧
      blockOf b.line reported ⟨f, false⟩ body.reverse = some b := by
  have hsome : some b ≠ none := Option.some_ne_none b
  cases region with
  | prose =>
    have hnone : (effect line reported text .prose).block = none := by
      unfold effect
      cases opening text with
      | none => rfl
      | some o =>
        obtain ⟨f, exempt⟩ := o
        cases exempt <;> rfl
    exact absurd (h.symm.trans hnone) hsome
  | exempt => exact absurd h.symm hsome
  | inside f opened body =>
    unfold effect at h ⊢
    by_cases hc : closes text = true
    · simp only [hc, if_true, Option.ite_none_right_eq_some, Option.some.injEq] at h ⊢
      obtain ⟨hmentioned, hb⟩ := h
      refine ⟨f, body, by rw [← hb], closes_iff.mp hc, trivial, ?_⟩
      rw [← hb, blockOf, hmentioned]
      rfl
    · simp only [hc] at h
      exact absurd h.symm hsome

/- Every block is completed by one of the lines. -/
theorem exists_effect {b : Block} {ls : List Text} : ∀ {count reported : Nat} {region : Region},
    b ∈ collected count reported region ls →
    ∃ front last rest, ls = front ++ last :: rest ∧
      (effect (count + front.length + 1) (reported + (collected count reported region front).length)
        last (regionAfter count region front)).block = some b := by
  induction ls with
  | nil => exact fun h => absurd h List.not_mem_nil
  | cons text rest ih =>
    intro count reported region h
    have hregion := effect_region (count + 1) reported text region
    have hcount : ∀ front : List Text, count + (text :: front).length = count + 1 + front.length := by
      intro front
      rw [List.length_cons]
      omega
    cases hb : (effect (count + 1) reported text region).block with
    | some b' =>
      simp only [collected, hb, hregion, List.mem_cons] at h
      rcases h with h | h
      · rw [← h] at hb
        exact ⟨[], text, rest, rfl, hb⟩
      · obtain ⟨front, last, rest', hrest, hblock⟩ := ih h
        refine ⟨text :: front, last, rest', by rw [hrest, List.cons_append], ?_⟩
        simp only [collected, hb, hregion, regionAfter]
        rw [hcount, List.length_cons, ← Nat.add_assoc, Nat.add_right_comm reported]
        exact hblock
    | none =>
      simp only [collected, hb, hregion] at h
      obtain ⟨front, last, rest', hrest, hblock⟩ := ih h
      refine ⟨text :: front, last, rest', by rw [hrest, List.cons_append], ?_⟩
      simp only [collected, hb, hregion, regionAfter]
      rw [hcount]
      exact hblock

/-- A block is the one of a region that is closed. -/
theorem exists_closedRegion {ls : List Text} {b : Block} (h : b ∈ collected 0 0 .prose ls) :
    ∃ front first body last after o, ClosedRegion ls front first body last after ∧
      opening first = some o ∧
      blockOf (front.length + 1) (collected 0 0 .prose front).length o body = some b := by
  obtain ⟨read, last, rest, hls, heffect⟩ := exists_effect h
  obtain ⟨f, body, hinside, hlast, -, hblock⟩ := effect_of_block heffect
  obtain ⟨front, first, hopen, ho, hline⟩ := region_of_inside hinside
  rw [hline, collected_openRegion hopen, Nat.zero_add] at hblock
  rw [hls]
  exact ⟨front, first, body.reverse, last, rest, _, hopen.close hlast rest, ho, hblock⟩

end Reading

end Markdown
end PolicyLint
