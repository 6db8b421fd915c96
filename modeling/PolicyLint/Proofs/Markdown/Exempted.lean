/-
Blocks taken out by a word behind their opening fence.

A fence that opens a region opens one with more words behind it as well, and with one of the
words that exempt a region it opens one that is exempt.  That region ends where the other one
ended, so the document has the same blocks, without that one.
-/
import Mathlib.Data.List.Nodup
import PolicyLint.Proofs.Markdown.Appended
import PolicyLint.Proofs.Text.Edited

namespace PolicyLint
namespace Markdown

/-! ## Fences with words behind them -/

theorem lower_append (s t : Text) : Text.lower (s ++ t) = Text.lower s ++ Text.lower t := by
  rw [Text.lower, List.map_append, List.flatten_append]
  rfl

/-- Words behind a fence stand at the end of its info string. -/
theorem HasInfo.append {line i : Text} (h : HasInfo line i) (hi : i ≠ []) (word : Text) {c : Char}
    (hc : Text.isBlank c = false) :
    ∃ gap, HasInfo (line ++ (word ++ [c])) (i ++ gap ++ Text.lower (word ++ [c])) := by
  obtain ⟨rest, htrim, hinfo⟩ := h
  have hline : Text.trim line ≠ [] := by
    rw [htrim]
    exact fun hnil => nomatch hnil
  have hrest : Text.trim rest ≠ [] := by
    intro hnil
    rw [hnil] at hinfo
    exact hi hinfo
  obtain ⟨gap, hgap⟩ := Text.exists_trim_append hline word hc
  obtain ⟨gap', hgap'⟩ := Text.exists_trim_append hrest (gap ++ word) hc
  refine ⟨Text.lower (gap' ++ gap), rest ++ (gap ++ word ++ [c]), ?_, ?_⟩
  · rw [hgap, htrim]
    simp only [List.append_assoc]
  · rw [hgap', hinfo]
    simp only [lower_append, List.append_assoc]

/- The words that exempt a region are in lower case, and no white space ends them. -/
theorem exemption_shape : ∀ word ∈ exemptions, ' ' :: word = (' ' :: word).dropLast ++ ['n'] ∧
    Text.lower (' ' :: word) = ' ' :: word := by
  decide

/-- A word behind an opening fence exempts its region. -/
theorem opening_append {line : Text} {o : Opening} (h : opening line = some o) {word : Text}
    (hword : word ∈ exemptions) : opening (line ++ ' ' :: word) = some ⟨o.format, true⟩ := by
  obtain ⟨⟨i, hinfo, hname⟩, -⟩ := opening_eq_some_iff.mp h
  have hne : ∀ f : Format, f.name ≠ [] := by
    intro f
    cases f with
    | yaml => decide
    | json => decide
  have hi : i ≠ [] := by
    intro hnil
    rw [hnil, List.prefix_nil] at hname
    exact hne o.format hname
  obtain ⟨hshape, hlower⟩ := exemption_shape word hword
  obtain ⟨gap, hinfo'⟩ := hinfo.append hi (' ' :: word).dropLast (c := 'n') (by decide)
  rw [← hshape, hlower] at hinfo'
  apply opening_eq_some_iff.mpr
  refine ⟨⟨_, hinfo', ?_⟩, fun _ => ⟨_, hinfo', word, hword, ?_⟩, fun _ => rfl⟩
  · rw [List.append_assoc]
    exact hname.trans (List.prefix_append i _)
  · exact ⟨i ++ gap ++ [' '], [], by simp⟩

/-- The document with the word behind what stands on line number `n`. -/
def withWord (word : Text) (n : Nat) (t : Text) : Text :=
  Text.editLine (Text.putBehind (' ' :: word)) n t

theorem lines_withWord {t line word : Text} {before after : List Text}
    (h : Text.lines t = before ++ line :: after) (hafter : after ≠ []) (hword : word ∈ exemptions) :
    Text.lines (withWord word (before.length + 1) t) =
      before ++ (line ++ ' ' :: word) :: after := by
  obtain ⟨hshape, -⟩ := exemption_shape word hword
  have hfeed : '\n' ∉ ' ' :: word := by
    have hwords : ∀ w ∈ exemptions, '\n' ∉ ' ' :: w := by decide
    exact hwords word hword
  obtain ⟨p, back, hback, hedited⟩ :=
    Text.lines_editLine h fun q hq => Text.not_mem_putBehind hfeed hq
  rcases Text.linesOfPieces_replace hback with ⟨hnil, -, -⟩ | ⟨hline, hended⟩
  · exact absurd hnil hafter
  · rw [withWord, hedited, hended, hshape, Text.ended_putBehind _ _ (by decide), ← hline]

/-! ## One block -/

theorem line_of_blockOf {opened reported : Nat} {o : Opening} {body : List Text} {b : Block}
    (h : Reading.blockOf opened reported o body = some b) : b.line = opened := by
  rw [Reading.blockOf] at h
  split at h
  · rw [← Option.some.inj h]
  · exact absurd h.symm (Option.some_ne_none b)

/-- The blocks behind a block that is taken out come one place earlier, and nothing else about
them changes. -/
theorem exists_blocks_withWord {t word : Text} {b : Block} (hb : b ∈ blocks t)
    (hword : word ∈ exemptions) :
    ∃ front back, blocks t = front ++ b :: back.map (Block.moved 1 0) ∧
      blocks (withWord word b.line t) = front ++ back := by
  rw [blocks_eq_collected] at hb ⊢
  obtain ⟨front, first, body, last, after, o, hregion, ho, hblock⟩ :=
    Reading.exists_closedRegion hb
  have hlines : Text.lines (withWord word b.line t) =
      front ++ (first ++ ' ' :: word) :: (body ++ last :: after) := by
    rw [line_of_blockOf hblock]
    exact lines_withWord hregion.lines_eq (by simp) hword
  have ho' : opening (first ++ ' ' :: word) = some ⟨o.format, true⟩ := opening_append ho hword
  have hregion' : ClosedRegion (Text.lines (withWord word b.line t)) front
      (first ++ ' ' :: word) body last after :=
    ⟨hlines, hregion.front_closed, ⟨o.format, (opening_eq_some_iff.mp ho').1⟩, hregion.no_fence,
      hregion.closes⟩
  have hmoved := Reading.collected_moved 1 0 after (front.length + 1 + body.length + 1)
    (Reading.collected 0 0 .prose front).length .prose
  refine ⟨Reading.collected 0 0 .prose front,
    Reading.collected (front.length + 1 + body.length + 1)
      (Reading.collected 0 0 .prose front).length .prose after, ?_, ?_⟩
  · rw [Reading.collected_closedRegion hregion ho, hblock, ← hmoved]
    rfl
  · rw [blocks_eq_collected, Reading.collected_closedRegion hregion' ho']
    rfl

/-! ## Numbers of blocks -/

/-- The blocks numbered from one, in their order. -/
def renumbered (bs : List Block) : List Block :=
  bs.mapIdx fun i b => { b with ordinal := i + 1 }

/-- The block apart from its number. -/
def unnumbered (b : Block) : Block :=
  { b with ordinal := 0 }

theorem renumbered_unnumbered (bs : List Block) : renumbered (bs.map unnumbered) = renumbered bs := by
  apply List.ext_getElem?
  intro k
  rw [renumbered, renumbered, List.getElem?_mapIdx, List.getElem?_mapIdx, List.getElem?_map,
    Option.map_map]
  rfl

theorem ordinal_of_getElem? {t : Text} {k : Nat} {b : Block} (h : (blocks t)[k]? = some b) :
    b.ordinal = k + 1 := by
  have hordinal : ((blocks t).map (·.ordinal))[k]? = some b.ordinal := by
    rw [List.getElem?_map, h, Option.map_some]
  have hk : k < (blocks t).length := (List.getElem?_eq_some_iff.mp h).1
  rw [blocks_ordinals, List.getElem?_range' hk, Option.some.injEq] at hordinal
  omega

theorem blocks_eq_renumbered (t : Text) : blocks t = renumbered (blocks t) := by
  apply List.ext_getElem?
  intro k
  rw [renumbered, List.getElem?_mapIdx]
  cases h : (blocks t)[k]? with
  | none => rfl
  | some b =>
    rw [Option.map_some, ← ordinal_of_getElem? h]

/-! ## Several blocks -/

theorem unnumbered_blocks_withWord {t word : Text} {b : Block} (hb : b ∈ blocks t)
    (hword : word ∈ exemptions) :
    (blocks (withWord word b.line t)).map unnumbered =
      ((blocks t).map unnumbered).filter (·.line ≠ b.line) := by
  obtain ⟨front, back, hblocks, hwithout⟩ := exists_blocks_withWord hb hword
  have hapart := blocks_lines_apart t
  rw [hblocks, List.pairwise_append, List.pairwise_cons] at hapart
  obtain ⟨-, ⟨hback, -⟩, hfront⟩ := hapart
  have hfront' : (front.map unnumbered).filter (·.line ≠ b.line) = front.map unnumbered := by
    rw [List.filter_eq_self, List.forall_mem_map]
    intro c hc
    have hlt : c.line + 3 ≤ b.line := hfront c hc b List.mem_cons_self
    exact decide_eq_true (show c.line ≠ b.line by omega)
  have hback' : ((back.map (Block.moved 1 0)).map unnumbered).filter (·.line ≠ b.line) =
      back.map unnumbered := by
    rw [List.map_map, show unnumbered ∘ Block.moved 1 0 = unnumbered from rfl,
      List.filter_eq_self, List.forall_mem_map]
    intro c hc
    have hlt : b.line + 3 ≤ c.line := hback (Block.moved 1 0 c) (List.mem_map_of_mem hc)
    exact decide_eq_true (show c.line ≠ b.line by omega)
  rw [hblocks, hwithout, List.map_append, List.map_append, List.map_cons, List.filter_append,
    List.filter_cons_of_neg (by simp [unnumbered]), hfront', hback']

/-- The document with words behind the opening fences of blocks, one after the other. -/
def withWords (word : Block → Text) (bs : List Block) (t : Text) : Text :=
  bs.foldl (fun u b => withWord (word b) b.line u) t

/- One word takes out one block and leaves the others at their lines, where the next words
find them. -/
theorem unnumbered_blocks_withWords {word : Block → Text} {bs : List Block} :
    ∀ {t : Text}, (∀ b ∈ bs, word b ∈ exemptions ∧ ∃ c ∈ blocks t, c.line = b.line) →
      (bs.map (·.line)).Nodup →
      (blocks (withWords word bs t)).map unnumbered =
        ((blocks t).map unnumbered).filter (·.line ∉ bs.map (·.line)) := by
  induction bs with
  | nil =>
    intro t _ _
    exact (List.filter_eq_self.mpr fun c _ => decide_eq_true List.not_mem_nil).symm
  | cons b bs ih =>
    intro t hbs hnodup
    obtain ⟨hword, c, hc, hline⟩ := hbs b List.mem_cons_self
    have hstep := unnumbered_blocks_withWord hc hword
    rw [hline] at hstep
    rw [List.map_cons, List.nodup_cons] at hnodup
    have hkept : ∀ b' ∈ bs, word b' ∈ exemptions ∧
        ∃ c ∈ blocks (withWord (word b) b.line t), c.line = b'.line := by
      intro b' hb'
      obtain ⟨hword', c', hc', hline'⟩ := hbs b' (List.mem_cons_of_mem b hb')
      have hne : c'.line ≠ b.line := by
        rw [hline']
        exact fun h => hnodup.1 (h ▸ List.mem_map_of_mem hb')
      have hmem : unnumbered c' ∈ (blocks (withWord (word b) b.line t)).map unnumbered := by
        rw [hstep, List.mem_filter]
        exact ⟨List.mem_map_of_mem hc', decide_eq_true hne⟩
      obtain ⟨d, hd, hsame⟩ := List.mem_map.mp hmem
      exact ⟨hword', d, hd, (congrArg Block.line hsame).trans hline'⟩
    rw [withWords, List.foldl_cons, ← withWords, ih hkept hnodup.2, hstep, List.filter_filter]
    refine List.filter_congr fun d _ => ?_
    rw [← Bool.decide_and, decide_eq_decide, List.map_cons, List.mem_cons, not_or]
    exact and_comm

theorem eq_of_line_eq {t : Text} {b c : Block} (hb : b ∈ blocks t) (hc : c ∈ blocks t)
    (h : b.line = c.line) : b = c := by
  have hnodup : ((blocks t).map (·.line)).Nodup :=
    List.pairwise_map.mpr ((blocks_lines_apart t).imp fun hlt => by omega)
  exact List.inj_on_of_nodup_map hnodup hb hc h

/-- A word behind the opening fence of a block takes out that block; the later ones count one
less and keep their lines, formats and contents.  Words behind the fences of several blocks, in
any order, leave the other blocks, numbered from one. -/
theorem blocks_exempted (t : Text) :
    (∀ k b word, (blocks t)[k]? = some b → word ∈ exemptions →
      blocks (withWord word b.line t) = (blocks t).take k ++
        ((blocks t).drop (k + 1)).map fun c => { c with ordinal := c.ordinal - 1 }) ∧
    (∀ (word : Block → Text) (bs : List Block), bs.Nodup →
      (∀ b ∈ bs, b ∈ blocks t ∧ word b ∈ exemptions) →
      blocks (withWords word bs t) = renumbered ((blocks t).filter (· ∉ bs))) := by
  constructor
  · intro k b word hk hword
    obtain ⟨front, back, hblocks, hwithout⟩ :=
      exists_blocks_withWord (List.mem_of_getElem? hk) hword
    have hfront : (blocks t)[front.length]? = some b := by
      rw [hblocks, List.getElem?_append_right (Nat.le_refl _), Nat.sub_self, List.getElem?_cons_zero]
    have hlength : k = front.length := by
      have hordinal := (ordinal_of_getElem? hk).symm.trans (ordinal_of_getElem? hfront)
      omega
    have hrest : ((back.map (Block.moved 1 0)).map fun c => { c with ordinal := c.ordinal - 1 }) =
        back := by
      rw [List.map_map]
      exact List.map_id back
    have hdrop : (blocks t).drop (front.length + 1) = back.map (Block.moved 1 0) := by
      rw [hblocks, List.append_cons, List.drop_left' (by rw [List.length_append]; rfl)]
    rw [hlength, hdrop, hrest, hblocks, hwithout, List.take_left]
  · intro word bs hnodup hbs
    have hlines : (bs.map (·.line)).Nodup :=
      hnodup.map_on fun b hb c hc h => eq_of_line_eq (hbs b hb).1 (hbs c hc).1 h
    have hrest := unnumbered_blocks_withWords
      (fun b hb => ⟨(hbs b hb).2, b, (hbs b hb).1, rfl⟩) hlines
    rw [blocks_eq_renumbered, ← renumbered_unnumbered, hrest, List.filter_map,
      renumbered_unnumbered]
    refine congrArg renumbered (List.filter_congr fun c hc => decide_eq_decide.mpr ?_)
    show ¬(unnumbered c).line ∈ bs.map (·.line) ↔ c ∉ bs
    rw [not_iff_not, List.mem_map]
    constructor
    · intro ⟨b, hb, hline⟩
      rw [← eq_of_line_eq (hbs b hb).1 hc hline]
      exact hb
    · exact fun hmem => ⟨c, hmem, rfl⟩

/-- A page with two blocks; the line of the first fence ends in a carriage return as well. -/
def twoBlockPage : Text :=
  "``` JSON\r\n\"on_tcp_connect\"\n```\n```yaml\non_tcp_connect:\n```\n".toList

theorem twoBlockPage_exempted :
    withWord "skip_validation".toList 1 twoBlockPage =
        "``` JSON skip_validation\r\n\"on_tcp_connect\"\n```\n```yaml\non_tcp_connect:\n```\n".toList ∧
      blocks (withWord "skip_validation".toList 1 twoBlockPage) =
        [⟨1, 4, .yaml, "on_tcp_connect:".toList⟩] ∧
      blocks (withWords (fun _ => "skip-validation".toList) (blocks twoBlockPage).reverse
        twoBlockPage) = [] := by
  have hblocks : blocks twoBlockPage = [⟨1, 1, .json, "\"on_tcp_connect\"".toList⟩,
      ⟨2, 4, .yaml, "on_tcp_connect:".toList⟩] := by decide +kernel
  obtain ⟨hone, hseveral⟩ := blocks_exempted twoBlockPage
  refine ⟨by decide +kernel, ?_, ?_⟩
  · have hfirst : (blocks twoBlockPage)[0]? =
        some ⟨1, 1, .json, "\"on_tcp_connect\"".toList⟩ := by
      rw [hblocks]
      rfl
    rw [hone 0 _ "skip_validation".toList hfirst (by decide), hblocks]
    rfl
  · rw [hseveral (fun _ => "skip-validation".toList) _ (by rw [hblocks]; decide)
      fun b hb => ⟨List.mem_reverse.mp hb, by decide⟩, hblocks]
    decide

end Markdown
end PolicyLint
