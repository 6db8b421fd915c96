/-
The calls for the blocks of a document, one by one.

Asking for the next block reads on to the closing fence of the block and gives the notices of
the lines on the way.  So after some calls that each gave a block, the notices so far are those
of one pass over the lines up to the last closing fence.  The call that finds no further block
reads the rest of the lines; the calls after it have no lines to read.
-/
import PolicyLint.Proofs.Markdown.Notices

namespace PolicyLint
namespace Markdown
namespace Reading

/-! ## One call -/

theorem reverse_notices (notice : Option Notice) (notices : List Notice) :
    (notice.toList ++ notices).reverse = notices.reverse ++ notice.toList := by
  cases notice <;> simp

theorem advance_none (ls : List Text) : ∀ {count reported : Nat} {region : Region}
    {notices : List Notice}, (advance count reported region notices ls).block = none →
    advance count reported region notices ls =
      ⟨notices.reverse ++ noticed count region ls ++ leftover (regionAfter count region ls), none,
        ⟨[], count + ls.length, .prose, reported⟩⟩ := by
  induction ls with
  | nil =>
    intro count reported region notices _
    rw [noticed, List.append_nil]
    cases region <;> rfl
  | cons text rest ih =>
    intro count reported region notices h
    cases hb : (effect (count + 1) reported text region).block with
    | some b =>
      simp only [advance, hb] at h
      exact absurd h (Option.some_ne_none b)
    | none =>
      simp only [advance, hb] at h ⊢
      rw [ih h, reverse_notices, effect_region, effect_notice, noticed, regionAfter,
        List.length_cons, Nat.add_right_comm count 1, Nat.add_assoc count]
      simp only [List.append_assoc]

/-- A call that gives a block reads up to the line that completes it. -/
theorem advance_some {b : Block} (ls : List Text) : ∀ {count reported : Nat} {region : Region}
    {notices : List Notice}, (advance count reported region notices ls).block = some b →
    ∃ front last rest, ls = front ++ last :: rest ∧
      (effect (count + front.length + 1) reported last (regionAfter count region front)).block =
        some b ∧
      advance count reported region notices ls =
        ⟨notices.reverse ++ noticed count region (front ++ [last]), some b,
          ⟨rest, count + front.length + 1, .prose, reported + 1⟩⟩ := by
  induction ls with
  | nil =>
    intro count reported region notices h
    exact nomatch h
  | cons text rest ih =>
    intro count reported region notices h
    cases hb : (effect (count + 1) reported text region).block with
    | some b' =>
      simp only [advance, hb, Option.some.injEq] at h ⊢
      obtain ⟨-, -, -, -, hprose, -⟩ := effect_of_block hb
      rw [h] at hb
      refine ⟨[], text, rest, rfl, hb, ?_⟩
      rw [reverse_notices, hprose, effect_notice, h, List.nil_append, noticed, noticed,
        List.append_nil]
      rfl
    | none =>
      simp only [advance, hb] at h ⊢
      obtain ⟨front, last, rest', hrest, hblock, hadvance⟩ := ih h
      have hlength : count + 1 + front.length = count + (text :: front).length := by
        rw [List.length_cons]
        omega
      rw [hlength, effect_region] at hblock
      refine ⟨text :: front, last, rest', by rw [hrest, List.cons_append], hblock, ?_⟩
      rw [hadvance, reverse_notices, effect_region, effect_notice, hlength, List.append_assoc,
        List.cons_append, noticed]

/-! ## Several calls -/

/-- The answers to a number of calls, the first one first. -/
def asked : Nat → Reading → List Answer
  | 0, _ => []
  | n + 1, r => r.next :: asked n r.next.after

/-- The reading after a number of calls. -/
def later : Nat → Reading → Reading
  | 0, r => r
  | n + 1, r => later n r.next.after

theorem asked_add (m n : Nat) : ∀ r : Reading,
    asked (m + n) r = asked m r ++ asked n (later m r) := by
  induction m with
  | zero => intro r; rw [Nat.zero_add]; rfl
  | succ m ih =>
    intro r
    rw [Nat.add_right_comm, asked, ih]
    rfl

theorem later_succ (n : Nat) : ∀ r : Reading, later (n + 1) r = (later n r).next.after := by
  induction n with
  | zero => intro r; rfl
  | succ n ih => intro r; exact ih r.next.after

theorem asked_succ (n : Nat) (r : Reading) : asked (n + 1) r = asked n r ++ [(later n r).next] :=
  asked_add n 1 r

/-- No line is left and no region is open. -/
structure Exhausted (r : Reading) : Prop where
  rest_eq : r.rest = []
  region_eq : r.region = .prose

theorem next_none {r : Reading} (h : r.next.block = none) :
    r.next.notices = noticed r.count r.region r.rest ++
        leftover (regionAfter r.count r.region r.rest) ∧ Exhausted r.next.after := by
  have hnext := advance_none r.rest h
  rw [next, hnext]
  exact ⟨rfl, rfl, rfl⟩

theorem Exhausted.next_eq {r : Reading} (h : r.Exhausted) :
    r.next.block = none ∧ r.next.notices = [] := by
  rw [next, h.rest_eq, h.region_eq]
  exact ⟨rfl, rfl⟩

theorem Exhausted.asked {r : Reading} (h : r.Exhausted) (n : Nat) :
    ∀ a ∈ asked n r, a.block = none ∧ a.notices = [] := by
  induction n generalizing r with
  | zero => exact fun a ha => absurd ha List.not_mem_nil
  | succ n ih =>
    intro a ha
    rcases List.mem_cons.mp ha with ha | ha
    · rw [ha]
      exact h.next_eq
    · exact ih (next_none h.next_eq.1).2 a ha

/-- The answers that follow one without a block are without blocks and notices. -/
theorem asked_after_none {n : Nat} {r : Reading} {earlier rest : List Answer} {a : Answer}
    (h : asked n r = earlier ++ a :: rest) (ha : a.block = none) :
    ∀ b ∈ rest, b.block = none ∧ b.notices = [] := by
  induction earlier generalizing n r with
  | nil =>
    cases n with
    | zero => exact nomatch h
    | succ n =>
      obtain ⟨hfirst, hrest⟩ := List.cons.inj h
      rw [← hfirst] at ha
      rw [← hrest]
      exact (next_none ha).2.asked n
  | cons first earlier ih =>
    cases n with
    | zero => exact nomatch h
    | succ n => exact ih (List.cons.inj h).2

/-! The blocks of the answers are the pending ones. -/

theorem next_block (r : Reading) :
    r.next.block = r.pending.head? ∧ r.next.after.pending = r.pending.tail := by
  cases h : r.next.block with
  | none =>
    obtain ⟨-, hrest, hregion⟩ := next_none h
    rw [pending_of_next_none h, pending, hrest]
    exact ⟨rfl, rfl⟩
  | some b =>
    rw [(pending_of_next_some h).1]
    exact ⟨rfl, rfl⟩

theorem pending_later (n : Nat) : ∀ r : Reading, (later n r).pending = r.pending.drop n := by
  induction n with
  | zero => intro r; rfl
  | succ n ih =>
    intro r
    rw [later, ih, (next_block r).2, List.drop_tail]

theorem next_later_block (n : Nat) (r : Reading) : (later n r).next.block = r.pending[n]? := by
  rw [(next_block _).1, pending_later, List.head?_drop]

theorem blocks_asked (n : Nat) : ∀ r : Reading,
    (asked n r).filterMap (·.block) = r.pending.take n := by
  induction n with
  | zero => intro r; rfl
  | succ n ih =>
    intro r
    obtain ⟨hblock, hafter⟩ := next_block r
    rw [asked, List.filterMap_cons, hblock, ih, hafter]
    cases r.pending with
    | nil => exact List.take_nil
    | cons b bs => rfl

theorem map_block_asked (n : Nat) (r : Reading) :
    (asked n r).map (·.block) = (List.range n).map (r.pending[·]?) := by
  induction n with
  | zero => rfl
  | succ n ih =>
    rw [asked_succ, List.map_append, ih, List.range_succ, List.map_append, List.map_singleton,
      List.map_singleton, next_later_block]

theorem answers_eq_asked {fuel : Nat} : ∀ {r : Reading}, r.rest.length < fuel →
    r.answers fuel = asked (r.pending.length + 1) r := by
  induction fuel with
  | zero => intro r h; omega
  | succ fuel ih =>
    intro r h
    cases hb : r.next.block with
    | none =>
      rw [answers, hb, pending_of_next_none hb]
      rfl
    | some b =>
      obtain ⟨hp, hl⟩ := pending_of_next_some hb
      rw [answers, hb, hp, List.length_cons, asked, ← ih (by omega)]

/-! The notices of the answers are those of one pass. -/

/-- The reading has read `front` of the lines, and no region is open there. -/
structure StandsBehind (ls front : List Text) (r : Reading) : Prop where
  lines_eq : ls = front ++ r.rest
  count_eq : r.count = front.length
  region_eq : r.region = .prose
  front_closed : Closed front

/-- All that a number of calls tells. -/
def told (n : Nat) (r : Reading) : List Notice :=
  (asked n r).flatMap (·.notices)

theorem told_add (m n : Nat) (r : Reading) : told (m + n) r = told m r ++ told n (later m r) := by
  rw [told, asked_add, List.flatMap_append]
  rfl

theorem StandsBehind.next_none {ls front : List Text} {r : Reading} (h : StandsBehind ls front r)
    (hb : r.next.block = none) :
    r.next.notices = noticed front.length .prose r.rest ++ leftover (regionAfter 0 .prose ls) := by
  rw [(Reading.next_none hb).1, h.region_eq, h.count_eq, h.lines_eq, regionAfter_append,
    regionAfter_of_closed h.front_closed, Nat.zero_add]

/-- A call that gives a block reads to the closing fence of its region. -/
theorem StandsBehind.next_some {ls front : List Text} {r : Reading} (h : StandsBehind ls front r)
    {b : Block} (hb : r.next.block = some b) :
    ∃ front' first body last, ClosedRegion ls front' first body last r.next.after.rest ∧
      b.line = front'.length + 1 ∧
      StandsBehind ls (front' ++ first :: (body ++ [last])) r.next.after ∧
      noticed 0 .prose front ++ r.next.notices =
        noticed 0 .prose (front' ++ first :: (body ++ [last])) := by
  obtain ⟨middle, last, rest, hrest, hblock, hnext⟩ := advance_some r.rest hb
  obtain ⟨f, body, hregion, hlast, -, -⟩ := effect_of_block hblock
  have hinside : regionAfter 0 .prose (front ++ middle) = .inside f b.line body := by
    rw [regionAfter_append, regionAfter_of_closed h.front_closed, Nat.zero_add, ← h.count_eq,
      ← h.region_eq, hregion]
  obtain ⟨front', first, hopen, -, hline⟩ := region_of_inside hinside
  have hread : front ++ (middle ++ [last]) = front' ++ first :: (body.reverse ++ [last]) := by
    rw [← List.append_assoc, hopen.lines_eq, List.append_assoc, List.cons_append]
  have hlines : ls = front ++ middle ++ last :: rest := by
    rw [h.lines_eq, hrest, List.append_assoc]
  have hclosed := hopen.close hlast rest
  rw [← hlines] at hclosed
  refine ⟨front', first, body.reverse, last, ?_, hline, ?_, ?_⟩
  · rw [next, hnext]
    exact hclosed
  · rw [next, hnext]
    refine ⟨?_, ?_, rfl, ?_⟩
    · rw [← hread, hlines]
      simp only [List.append_assoc, List.singleton_append]
    · rw [← hread, h.count_eq]
      simp only [List.length_append, List.length_singleton, Nat.add_assoc]
    · exact closed_append hopen.front_closed (.region hopen.opens hclosed.no_fence hlast .nil)
  · rw [next, hnext, ← hread, noticed_behind_closed h.front_closed, ← h.count_eq, ← h.region_eq]
    rfl

/-- From lines that are closed on, the calls up to the first without a block tell what one
pass over the other lines does. -/
theorem StandsBehind.told_rest {ls : List Text} {n : Nat} : ∀ {front : List Text} {r : Reading},
    StandsBehind ls front r → r.pending.length = n →
    told (n + 1) r = noticed front.length .prose r.rest ++ leftover (regionAfter 0 .prose ls) := by
  induction n with
  | zero =>
    intro front r h hn
    have hnone : r.next.block = none := by
      rw [(next_block r).1, List.length_eq_zero_iff.mp hn, List.head?_nil]
    rw [← h.next_none hnone]
    exact List.append_nil _
  | succ n ih =>
    intro front r h hn
    obtain ⟨b, hb⟩ : ∃ b, r.next.block = some b := by
      rw [(next_block r).1]
      cases hp : r.pending with
      | nil => rw [hp] at hn; exact nomatch hn
      | cons b bs => exact ⟨b, rfl⟩
    obtain ⟨front', first, body, last, -, -, hafter, hnotices⟩ := h.next_some hb
    have hpending : r.next.after.pending.length = n := by
      rw [(next_block r).2, List.length_tail, hn, Nat.add_sub_cancel]
    -- One pass over all lines, cut at the two places.
    have hpass := noticed_behind_closed h.front_closed r.rest
    rw [← h.lines_eq, hafter.lines_eq, noticed_behind_closed hafter.front_closed, ← hnotices,
      List.append_assoc] at hpass
    rw [Nat.add_comm, told_add, ← List.append_cancel_left hpass, List.append_assoc, later,
      later, ih hafter hpending]
    rw [told, asked, asked, List.flatMap_cons, List.flatMap_nil, List.append_nil]

end Reading

section Calls

open Reading

theorem standsBehind_start (t : Text) : StandsBehind (Text.lines t) [] (start t) :=
  ⟨rfl, rfl, rfl, .nil⟩

theorem pending_start (t : Text) : (start t).pending = blocks t := by
  rw [blocks_eq_collected]
  rfl

/-- As long as there are blocks, the calls tell what stands in front of the last closing
fence. -/
theorem exists_front {t : Text} {n : Nat} (hn : n ≤ (blocks t).length) :
    ∃ front, StandsBehind (Text.lines t) front (later n (start t)) ∧
      told n (start t) = noticed 0 .prose front := by
  induction n with
  | zero => exact ⟨[], standsBehind_start t, rfl⟩
  | succ n ih =>
    obtain ⟨front, hstands, htold⟩ := ih (Nat.le_of_succ_le hn)
    have hblock : (later n (start t)).next.block = some (blocks t)[n] := by
      rw [next_later_block, pending_start, List.getElem?_eq_getElem hn]
    obtain ⟨front', first, body, last, -, -, hafter, hnotices⟩ := hstands.next_some hblock
    rw [later_succ]
    refine ⟨_, hafter, ?_⟩
    rw [← hnotices, ← htold, told_add]
    exact congrArg _ (List.append_nil _)

/-- When a block is given, what has been told is of the exempt regions in front of its closing
fence. -/
theorem exists_span {t : Text} {k : Nat} {b : Block} (h : (blocks t)[k]? = some b) :
    ∃ (s : Span) (front : List Text), s.IsNext (Text.lines t) b.line ∧ s.opened = b.line ∧
      front.length = s.closed ∧ StandsBehind (Text.lines t) front (later (k + 1) (start t)) ∧
      told (k + 1) (start t) = noticed 0 .prose front ∧
      ∀ n, ExemptAt front n ↔ ExemptAt (Text.lines t) n ∧ n < s.closed := by
  have hk : k < (blocks t).length := (List.getElem?_eq_some_iff.mp h).1
  obtain ⟨front, hstands, htold⟩ := exists_front (Nat.le_of_lt hk)
  have hblock : (later k (start t)).next.block = some b := by
    rw [next_later_block, pending_start, h]
  obtain ⟨front', first, body, last, hregion, hline, hafter, hnotices⟩ := hstands.next_some hblock
  have hnext := isNext_spanAt front' [] body (later k (start t)).next.after.rest
    (fun _ h => absurd h List.not_mem_nil) hregion.opens hregion.no_fence hregion.closes
  have hlength : (front' ++ first :: (body ++ [last])).length = (spanAt front' [] body).closed := by
    simp only [spanAt, List.length_append, List.length_cons, List.length_nil]
    omega
  rw [List.nil_append, ← hregion.lines_eq, ← hline] at hnext
  refine ⟨spanAt front' [] body, _, hnext, hline.symm, hlength, ?_, ?_, fun n => ?_⟩
  · rw [later_succ]
    exact hafter
  · rw [← hnotices, ← htold, told_add]
    exact congrArg _ (List.append_nil _)
  · rw [← exemptAt_append, ← hafter.lines_eq, hlength]
    refine and_congr_right fun hat => ⟨fun hn => ?_, Nat.le_of_lt⟩
    -- The closing fence itself opens nothing.
    refine Nat.lt_of_le_of_ne hn fun heq => ?_
    obtain ⟨line, hline, hexempt⟩ := hat
    obtain ⟨fenceLine, hfence, hcloses⟩ := hnext.closes
    rw [heq, hfence, Option.some.injEq] at hline
    rw [hline] at hcloses
    exact not_opens_of_closes hcloses hexempt.2.1

/-- Once there are no more blocks, the calls have told what one pass over all lines does, and
tell no more. -/
theorem told_whole {t : Text} {n : Nat} (hn : (blocks t).length < n) :
    told n (start t) =
      noticed 0 .prose (Text.lines t) ++ leftover (regionAfter 0 .prose (Text.lines t)) := by
  have hlast : (later (blocks t).length (start t)).next.block = none := by
    rw [next_later_block, pending_start]
    exact List.getElem?_eq_none (Nat.le_refl _)
  have hexhausted : Exhausted (later ((blocks t).length + 1) (start t)) := by
    rw [later_succ]
    exact (next_none hlast).2
  have hsilent : told (n - ((blocks t).length + 1))
      (later ((blocks t).length + 1) (start t)) = [] :=
    List.flatMap_eq_nil_iff.mpr fun a ha => (hexhausted.asked _ a ha).2
  have hsplit := told_add ((blocks t).length + 1) (n - ((blocks t).length + 1)) (start t)
  rw [Nat.add_sub_cancel' hn, hsilent, List.append_nil] at hsplit
  rw [hsplit]
  exact (standsBehind_start t).told_rest (congrArg _ (pending_start t))

end Calls

end Markdown
end PolicyLint
