/-
The order of the events of a scan.

The events of checking a text are those of the calls for its blocks, one after the other: what
a call tells, and then whether the block that it gives is read in another format.  So the event
of a block stands between the exempt regions in front of its closing fence and those behind it.
-/
import PolicyLint.Proofs.Markdown.Calls
import PolicyLint.Proofs.Scan.Discovery

namespace PolicyLint
namespace Scan

open Markdown Reading

/-! ## The events of calls -/

/-- The event of a block that is read in another format than it declares. -/
def override (b : Block) : List Event :=
  if Policy.resolve b.content b.format = b.format then []
  else [.overridden b.format (Policy.resolve b.content b.format)]

def Event.isOverride : Event → Bool
  | .overridden _ _ => true
  | _ => false

theorem answerEvents_eq (a : Answer) :
    answerEvents a = a.notices.map noticeEvent ++ a.block.toList.flatMap override := by
  cases h : a.block with
  | none => rw [answerEvents, h]; rfl
  | some b =>
    rw [answerEvents, h, Option.toList_some, List.flatMap_singleton]
    rfl

theorem exempt_mem_map_notice {ns : List Notice} {n : Nat} :
    .exempt n ∈ ns.map noticeEvent ↔ .exempt n ∈ ns := by
  have hevent : ∀ x, noticeEvent x = .exempt n ↔ x = .exempt n := by
    intro x
    cases x with
    | exempt m => rw [noticeEvent, Event.exempt.injEq, Notice.exempt.injEq]
    | unterminated m => exact ⟨fun h => (nomatch h), fun h => (nomatch h)⟩
  rw [List.mem_map]
  constructor
  · intro ⟨x, hx, hsame⟩
    rw [← (hevent x).mp hsame]
    exact hx
  · exact fun h => ⟨_, h, rfl⟩

theorem not_exempt_mem_override {n : Nat} (b : Block) : .exempt n ∉ override b := by
  unfold override
  split
  · exact List.not_mem_nil
  · rw [List.mem_singleton]
    exact fun h => nomatch h

theorem exempt_mem_events {as : List Answer} {n : Nat} :
    .exempt n ∈ as.flatMap answerEvents ↔ .exempt n ∈ as.flatMap (·.notices) := by
  have hanswer : ∀ a, .exempt n ∈ answerEvents a ↔ .exempt n ∈ a.notices := by
    intro a
    rw [answerEvents_eq, List.mem_append, exempt_mem_map_notice, or_iff_left]
    intro hmem
    obtain ⟨b, -, hb⟩ := List.mem_flatMap.mp hmem
    exact not_exempt_mem_override b hb
  simp only [List.mem_flatMap, hanswer]

theorem not_isOverride_notice (ns : List Notice) :
    (ns.map noticeEvent).filter (·.isOverride) = [] := by
  rw [List.filter_eq_nil_iff, List.forall_mem_map]
  intro x _
  cases x with
  | exempt n => exact Bool.false_ne_true
  | unterminated n => exact Bool.false_ne_true

theorem overrides_override (bs : List Block) :
    (bs.flatMap override).filter (·.isOverride) = bs.flatMap override := by
  rw [List.filter_eq_self]
  intro e he
  obtain ⟨b, -, hb⟩ := List.mem_flatMap.mp he
  unfold override at hb
  split at hb
  · exact absurd hb List.not_mem_nil
  · rw [List.mem_singleton.mp hb]
    rfl

theorem overrides_events (as : List Answer) :
    (as.flatMap answerEvents).filter (·.isOverride) =
      (as.filterMap (·.block)).flatMap override := by
  induction as with
  | nil => rfl
  | cons a as ih =>
    rw [List.flatMap_cons, List.filter_append, ih, answerEvents_eq, List.filter_append,
      not_isOverride_notice, overrides_override, List.nil_append, List.filterMap_cons]
    cases a.block with
    | none => rfl
    | some b =>
      rw [Option.toList_some, List.flatMap_singleton, List.flatMap_cons]

/-! ## The events of a text -/

theorem checkText_events (file : Bytes) (text : Text) :
    (checkText file text).1 =
      (asked ((blocks text).length + 1) (start text)).flatMap answerEvents ++
        [.scanned file (blocks text).length] := by
  have hanswers : Markdown.answers text = asked ((blocks text).length + 1) (start text) := by
    rw [Markdown.answers, answers_eq_asked (Nat.lt_succ_self _), pending_start]
  show ((Markdown.answers text).map answerEvents).flatten ++
    [.scanned file ((blocks text).map (outcome file)).length] = _
  rw [hanswers, ← List.flatMap_def, List.length_map]

/-- Events of checking a text, cut at the event of its block number `k`, counted from zero,
whose region is closed on line `closed`. -/
structure CutAt (text : Text) (k : Nat) (b : Block) (closed : Nat)
    (events earlier later : List Event) : Prop where
  events_eq : events = earlier ++ override b ++ later
  earlier_overrides : earlier.filter (·.isOverride) = ((blocks text).take k).flatMap override
  later_overrides : later.filter (·.isOverride) = ((blocks text).drop (k + 1)).flatMap override
  earlier_exempt : ∀ n, .exempt n ∈ earlier ↔ ExemptAt (Text.lines text) n ∧ n < closed
  later_exempt : ∀ n, .exempt n ∈ later ↔ ExemptAt (Text.lines text) n ∧ closed < n

theorem not_exempt_mem_leftover {n : Nat} (region : Region) : .exempt n ∉ leftover region := by
  cases region with
  | prose => exact List.not_mem_nil
  | exempt => exact List.not_mem_nil
  | inside f opened body =>
    rw [leftover, List.mem_singleton]
    exact fun h => nomatch h

/- The calls up to the block are cut off, and its own event from what its call tells. -/
theorem exists_cutAt {text : Text} {k : Nat} {b : Block} (h : (blocks text)[k]? = some b)
    {front : List Text} {closed : Nat} (hlength : front.length = closed)
    (hstands : StandsBehind (Text.lines text) front (later (k + 1) (start text)))
    (htold : told (k + 1) (start text) = noticed 0 .prose front)
    (hexempt : ∀ n, ExemptAt front n ↔ ExemptAt (Text.lines text) n ∧ n < closed) (file : Bytes) :
    ∃ earlier later, CutAt text k b closed (checkText file text).1 earlier later := by
  have hk : k < (blocks text).length := (List.getElem?_eq_some_iff.mp h).1
  have hblock : (later k (start text)).next.block = some b := by
    rw [next_later_block, pending_start, h]
  have hcount : (blocks text).length + 1 = k + 1 + ((blocks text).length - (k + 1) + 1) := by omega
  have hpending : (later (k + 1) (start text)).pending = (blocks text).drop (k + 1) := by
    rw [pending_later, pending_start]
  have hrest := hstands.told_rest (n := (blocks text).length - (k + 1)) (by
    rw [hpending, List.length_drop])
  refine ⟨(asked k (start text)).flatMap answerEvents ++
      (later k (start text)).next.notices.map noticeEvent,
    (asked ((blocks text).length - (k + 1) + 1) (later (k + 1) (start text))).flatMap answerEvents ++
      [.scanned file (blocks text).length], ?_, ?_, ?_, fun n => ?_, fun n => ?_⟩
  · rw [checkText_events, hcount, asked_add, asked_succ, List.flatMap_append, List.flatMap_append,
      List.flatMap_singleton, answerEvents_eq (later k (start text)).next, hblock,
      Option.toList_some, List.flatMap_singleton]
    simp only [List.append_assoc]
  · rw [List.filter_append, overrides_events, not_isOverride_notice, List.append_nil,
      blocks_asked, pending_start]
  · rw [List.filter_append, overrides_events, blocks_asked, hpending,
      List.take_of_length_le (by rw [List.length_drop]; omega)]
    exact List.append_nil _
  · have hmem : .exempt n ∈ told (k + 1) (start text) ↔ ExemptAt (Text.lines text) n ∧ n < closed := by
      rw [htold, exempt_mem_noticed, hexempt]
    rw [← hmem, told, asked_succ, List.flatMap_append, List.flatMap_singleton, List.mem_append,
      List.mem_append, exempt_mem_events, exempt_mem_map_notice]
  · have hmem : .exempt n ∈ told ((blocks text).length - (k + 1) + 1) (later (k + 1) (start text)) ↔
        ExemptAt (Text.lines text) n ∧ closed < n := by
      rw [hrest, List.mem_append, or_iff_left (not_exempt_mem_leftover _),
        exempt_mem_noticed_behind hstands.front_closed, ← hstands.lines_eq, hlength]
    rw [← hmem, List.mem_append, exempt_mem_events, List.mem_singleton]
    exact or_iff_left Event.noConfusion

/-! ## The events of a scan -/

theorem checkText_infix_checkFiles {t : Files.Tree} {c : Config} {path : Bytes}
    {text : Text} (hread : readFile t c.maxFileSize path = .ok text) {back front : List Bytes} :
    ∀ {r : Report}, (∀ p ∈ front, ∃ x, readFile t c.maxFileSize p = .ok x) →
      (checkText (c.displayPath path) text).1 <:+:
        (checkFiles t c r (front ++ path :: back)).events := by
  induction front with
  | nil =>
    intro r _
    rw [List.nil_append, checkFiles, hread]
    exact List.infix_append [] _ _
  | cons p front ih =>
    intro r hfront
    obtain ⟨x, hx⟩ := hfront p List.mem_cons_self
    rw [List.cons_append, checkFiles, hx]
    exact (ih fun q hq => hfront q (List.mem_cons_of_mem p hq)).trans
      (List.suffix_append _ _).isInfix

theorem checkText_infix_run {t : Files.Tree} {c : Config} {front back : List Bytes}
    {path : Bytes} {text : Text} (hfiles : (sourceFiles t c).result = .ok (front ++ path :: back))
    (hfront : ∀ p ∈ front, ∃ x, readFile t c.maxFileSize p = .ok x)
    (hread : readFile t c.maxFileSize path = .ok text) :
    (checkText (c.displayPath path) text).1 <:+: (run t c).events := by
  rw [run, hfiles]
  exact (checkText_infix_checkFiles hread hfront).trans (List.suffix_append _ _).isInfix

/-- The calls for the blocks of a text give them one by one, and once there is none, nothing.
All in all they tell of the exempt regions in order, and then of the region that is left open.
When a block is given, they have told of the exempt regions in front of its closing fence, and
in the events of a scan the one of the block stands behind those and in front of the others. -/
theorem events_in_order (text : Text) :
    (∀ n, (asked n (start text)).map (·.block) = (List.range n).map ((blocks text)[·]?)) ∧
    (∀ n earlier a rest, asked n (start text) = earlier ++ a :: rest → a.block = none →
      ∀ a' ∈ rest, a'.block = none ∧ a'.notices = []) ∧
    (∀ n, (blocks text).length < n →
      ∃ (ns : List Nat) (last : Option Nat),
        told n (start text) = ns.map .exempt ++ last.toList.map .unterminated ∧
        InOrder ns (ExemptAt (Text.lines text)) ∧
        ∀ m, last = some m ↔ UnclosedAt (Text.lines text) m) ∧
    (∀ k b, (blocks text)[k]? = some b →
      ∃ s : Span, s.IsNext (Text.lines text) b.line ∧ s.opened = b.line ∧
        (∃ ns : List Nat, told (k + 1) (start text) = ns.map .exempt ∧
          InOrder ns fun n => ExemptAt (Text.lines text) n ∧ n < s.closed) ∧
        ∀ file, ∃ earlier later, CutAt text k b s.closed (checkText file text).1 earlier later) ∧
    (∀ (t : Files.Tree) (c : Config) (front back : List Bytes) (path : Bytes),
      (sourceFiles t c).result = .ok (front ++ path :: back) →
      (∀ p ∈ front, ∃ x, readFile t c.maxFileSize p = .ok x) →
      readFile t c.maxFileSize path = .ok text →
      (checkText (c.displayPath path) text).1 <:+: (run t c).events) := by
  refine ⟨fun n => ?_, fun n earlier a rest h ha => asked_after_none h ha, fun n hn => ?_,
    fun k b h => ?_, fun t c front back path => checkText_infix_run⟩
  · rw [map_block_asked, pending_start]
  · obtain ⟨ns, hns, horder⟩ := noticed_eq (Text.lines text)
    obtain ⟨last, hlast, hunclosed⟩ := leftover_eq (Text.lines text)
    exact ⟨ns, last, by rw [told_whole hn, hns, hlast], horder, hunclosed⟩
  · obtain ⟨s, front, hnext, hopened, hlength, hstands, htold, hexempt⟩ := exists_span h
    obtain ⟨ns, hns, horder⟩ := noticed_eq front
    refine ⟨s, hnext, hopened, ⟨ns, htold.trans hns, horder.sorted, fun n => ?_⟩,
      exists_cutAt h hlength hstands htold hexempt⟩
    rw [horder.mem_iff, hexempt]

/-- A page with a block between two regions that are exempt, and a region left open. -/
def noticePage : String :=
  "```yaml skip-validation\n```\n```json\non_tcp_connect:\n```\n```json skip_validation\n```\n```yaml"

/-- A root with that page alone. -/
def noticeTree : Files.Tree where
  items :=
    [(["docs"].map Bytes.of, .directory),
     (["traffic-policy", "docs"].map Bytes.of, .directory),
     (["a.md", "traffic-policy", "docs"].map Bytes.of, .file noticePage.toUTF8)]
  working := []

theorem sourceFiles_noticeTree :
    (sourceFiles noticeTree linkedConfig).result = .ok [Bytes.of "docs/traffic-policy/a.md"] := by
  have hsearch : (search noticeTree linkedConfig linkedConfig.resolvedSearchDirs).result =
      .ok [Bytes.of "docs/traffic-policy/a.md"] := by
    decide +kernel
  rw [sourceFiles, hsearch, Except.map, arrange, List.mergeSort_singleton]
  rfl

theorem noticePage_in_order :
    [.exempt 1, .overridden .json .yaml, .exempt 6, .unterminated 8,
        .scanned (Bytes.of "traffic-policy/a.md") 1] <:+: (run noticeTree linkedConfig).events ∧
      (∃ (ns : List Nat) (last : Option Nat),
        [.exempt 1, .exempt 6, .unterminated 8] =
          ns.map Notice.exempt ++ last.toList.map .unterminated ∧
        InOrder ns (ExemptAt (Text.lines noticePage.toList)) ∧
        ∀ n, last = some n ↔ UnclosedAt (Text.lines noticePage.toList) n) ∧
      (∃ s : Span, s.IsNext (Text.lines noticePage.toList) 3 ∧
        ∃ ns : List Nat, [.exempt 1] = ns.map Notice.exempt ∧
          InOrder ns fun n => ExemptAt (Text.lines noticePage.toList) n ∧ n < s.closed) ∧
      (later 2 (start noticePage.toList)).next.notices = [] := by
  obtain ⟨-, hsilent, hwhole, hblock, hscan⟩ := events_in_order noticePage.toList
  have hpage : blocks noticePage.toList = [⟨1, 3, .json, "on_tcp_connect:".toList⟩] := by
    decide +kernel
  have hfirst : (blocks noticePage.toList)[0]? = some ⟨1, 3, .json, "on_tcp_connect:".toList⟩ := by
    rw [hpage]
    rfl
  have htold : told 1 (start noticePage.toList) = [.exempt 1] ∧ told 2 (start noticePage.toList) =
      [.exempt 1, .exempt 6, .unterminated 8] := by decide +kernel
  have hevents : (checkText (linkedConfig.displayPath (Bytes.of "docs/traffic-policy/a.md"))
      noticePage.toList).1 = [.exempt 1, .overridden .json .yaml, .exempt 6, .unterminated 8,
        .scanned (Bytes.of "traffic-policy/a.md") 1] := by decide +kernel
  refine ⟨?_, ?_, ?_, ?_⟩
  · rw [← hevents]
    apply hscan noticeTree linkedConfig [] [] _ sourceFiles_noticeTree
    · exact fun p hp => absurd hp List.not_mem_nil
    · decide +kernel
  · rw [← htold.2]
    exact hwhole 2 (by rw [hpage]; decide)
  · obtain ⟨s, hnext, -, htold1, -⟩ := hblock 0 _ hfirst
    rw [htold.1] at htold1
    exact ⟨s, hnext, htold1⟩
  · have hsecond : (later 1 (start noticePage.toList)).next.block = none := by
      rw [next_later_block, pending_start, hpage]
      rfl
    exact (hsilent 3 [(start noticePage.toList).next] _ [(later 2 (start noticePage.toList)).next]
      rfl hsecond _ List.mem_cons_self).2

end Scan
end PolicyLint
