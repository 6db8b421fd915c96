/-
Documents with text appended.

Lines that follow do not change what was reported before them.  When no region is open
at the cut, the lines behind it are read as a document of their own; only the ordinals
and the line numbers of its blocks go on from those in front.
-/
import PolicyLint.Proofs.Markdown.Closed
import PolicyLint.Proofs.Text.Line

namespace PolicyLint

/-- The block further down in a document, behind more blocks and more lines. -/
def Block.moved (blocks lines : Nat) (b : Block) : Block :=
  { b with ordinal := b.ordinal + blocks, line := b.line + lines }

namespace Markdown

/-! ## Reading further down -/

def Region.moved (lines : Nat) : Region → Region
  | .inside format line body => .inside format (line + lines) body
  | region => region

def Notice.moved (lines : Nat) : Notice → Notice
  | .exempt line => .exempt (line + lines)
  | .unterminated line => .unterminated (line + lines)

namespace Reading

def Effect.moved (blocks lines : Nat) (e : Effect) : Effect where
  region := e.region.moved lines
  notice := e.notice.map (Notice.moved lines)
  block := e.block.map (Block.moved blocks lines)

/-- A line has the same effect further down. -/
theorem effect_moved (blocks lines line reported : Nat) (text : Text) (region : Region) :
    effect (line + lines) (reported + blocks) text (region.moved lines) =
      (effect line reported text region).moved blocks lines := by
  cases region with
  | prose =>
    show effect _ _ text .prose = _
    unfold effect
    cases opening text with
    | none => rfl
    | some o =>
      obtain ⟨f, exempt⟩ := o
      cases exempt <;> rfl
  | exempt =>
    show effect _ _ text .exempt = _
    unfold effect
    cases closes text <;> rfl
  | inside f opened body =>
    show effect _ _ text (.inside f (opened + lines) body) = _
    unfold effect
    cases closes text with
    | false => rfl
    | true =>
      dsimp only
      rw [Nat.add_right_comm reported]
      cases Policy.mentioned (Text.join ['\n'] body.reverse) <;> rfl

theorem collected_moved (blocks lines : Nat) (ls : List Text) :
    ∀ (count reported : Nat) (region : Region),
      collected (count + lines) (reported + blocks) (region.moved lines) ls =
        (collected count reported region ls).map (Block.moved blocks lines) := by
  induction ls with
  | nil => intro count reported region; rfl
  | cons text rest ih =>
    intro count reported region
    rw [collected, Nat.add_right_comm, effect_moved, collected]
    cases hb : (effect (count + 1) reported text region).block with
    | none => simp only [Effect.moved, hb, Option.map_none, ih]
    | some b =>
      simp only [Effect.moved, hb, Option.map_some, List.map_cons]
      rw [Nat.add_right_comm reported, ih]

/-! ## Lines that are the same fences -/

theorem effect_of_trim_eq {text text' : Text} (h : Text.trim text' = Text.trim text)
    (line reported : Nat) (region : Region) :
    (effect line reported text' region).block = (effect line reported text region).block ∧
      ((effect line reported text region).region = .prose →
        (effect line reported text' region).region = .prose) := by
  have hopening : opening text' = opening text := opening_of_trim_eq h
  have hcloses : closes text' = closes text := closes_of_trim_eq h
  unfold effect
  cases region with
  | prose =>
    rw [hopening]
    exact ⟨rfl, id⟩
  | exempt =>
    rw [hcloses]
    exact ⟨rfl, id⟩
  | inside f opened body =>
    rw [hcloses]
    cases closes text with
    | true => exact ⟨rfl, id⟩
    | false => exact ⟨rfl, fun hp => nomatch hp⟩

theorem effect_empty (line reported : Nat) (region : Region) :
    (effect line reported [] region).block = none ∧
      (region = .prose → (effect line reported [] region).region = .prose) := by
  have hopening : opening [] = none := by decide
  have hcloses : closes [] = false := by decide
  unfold effect
  cases region with
  | prose =>
    rw [hopening]
    exact ⟨rfl, fun _ => rfl⟩
  | exempt =>
    rw [hcloses]
    exact ⟨rfl, fun hp => nomatch hp⟩
  | inside f opened body =>
    rw [hcloses]
    exact ⟨rfl, fun hp => nomatch hp⟩

theorem collected_singleton (count reported : Nat) (region : Region) (text : Text) :
    collected count reported region [text] =
      (effect (count + 1) reported text region).block.toList := by
  rw [collected]
  cases hb : (effect (count + 1) reported text region).block <;> simp [collected]

/- A line feed at the end completes no block and opens no region. -/
theorem collected_feed (t : Text) :
    collected 0 0 .prose (Text.lines (t ++ ['\n'])) = collected 0 0 .prose (Text.lines t) ∧
      (regionAfter 0 .prose (Text.lines t) = .prose →
        regionAfter 0 .prose (Text.lines (t ++ ['\n'])) = .prose) := by
  rcases Text.lines_feed t with hfeed | ⟨front, last, hlines, hfeed⟩
  · rw [hfeed]
    constructor
    · rw [collected_append, collected_singleton, (effect_empty _ _ _).1, Option.toList_none,
        List.append_nil]
    · intro h
      rw [regionAfter_append, regionAfter, regionAfter]
      exact (effect_empty _ _ _).2 h
  · rw [hfeed, hlines]
    have htrim := effect_of_trim_eq (Text.trim_ended last)
    constructor
    · rw [collected_append, collected_append, collected_singleton, collected_singleton,
        (htrim _ _ _).1]
    · intro h
      rw [regionAfter_append, regionAfter, regionAfter] at h ⊢
      exact (htrim _ _ _).2 h

end Reading

/-- Text behind a line feed takes no block back.  If no region is open before it, it adds
the blocks that it has as a document of its own, numbered on. -/
theorem blocks_append_line (a b : Text) :
    blocks a <+: blocks (a ++ '\n' :: b) ∧
      (¬LeftOpen (Text.lines a) →
        blocks (a ++ '\n' :: b) =
          blocks a ++ (blocks b).map (Block.moved (blocks a).length (a.count '\n' + 1))) := by
  obtain ⟨hfeed, hprose⟩ := Reading.collected_feed a
  have hsplit : blocks (a ++ '\n' :: b) = blocks a ++
      Reading.collected (a.count '\n' + 1) (blocks a).length
        (Reading.regionAfter 0 .prose (Text.lines (a ++ ['\n']))) (Text.lines b) := by
    rw [blocks_eq_collected, Text.lines_append, Reading.collected_append, hfeed,
      ← blocks_eq_collected, Text.length_lines_feed, Nat.zero_add, Nat.zero_add]
  constructor
  · rw [hsplit]
    exact List.prefix_append _ _
  · intro hopen
    have hend : Reading.regionAfter 0 .prose (Text.lines a) = .prose :=
      Classical.not_not.mp fun h => hopen (Reading.leftOpen_iff.mpr h)
    have hmoved := Reading.collected_moved (blocks a).length (a.count '\n' + 1) (Text.lines b) 0 0
      .prose
    rw [Nat.zero_add, Nat.zero_add, ← blocks_eq_collected] at hmoved
    rw [hsplit, hprose hend, ← hmoved]
    rfl

/-- A page with a region that is exempt and a block, cut inside the line end after it. -/
def cutPage : Text :=
  "```yaml skip-validation\n```yaml\n```\n```yaml\non_tcp_connect:\n```\r".toList

/-- A page whose last region is not closed. -/
def looseRegionPage : Text :=
  "```json\n\"on_tcp_connect\"\n```\n```yaml\non_tcp_connect:".toList

theorem cutPage_goes_on :
    ¬LeftOpen (Text.lines cutPage) ∧ LeftOpen (Text.lines looseRegionPage) ∧
      blocks (cutPage ++ '\n' :: looseRegionPage) =
        [⟨1, 4, .yaml, "on_tcp_connect:".toList⟩, ⟨2, 7, .json, "\"on_tcp_connect\"".toList⟩] := by
  have hcut : ¬LeftOpen (Text.lines cutPage) := by
    rw [Reading.leftOpen_iff]
    decide +kernel
  have hloose : LeftOpen (Text.lines looseRegionPage) := by
    rw [Reading.leftOpen_iff]
    decide +kernel
  obtain ⟨-, happended⟩ := blocks_append_line cutPage looseRegionPage
  refine ⟨hcut, hloose, ?_⟩
  rw [happended hcut]
  decide +kernel

end Markdown
end PolicyLint
