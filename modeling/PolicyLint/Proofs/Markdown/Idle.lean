/-
Lines that are part of no block.

Prose, the bodies of regions that are exempt or never closed, and the bodies of regions
without a policy key are read and left.  What stands in a line among them changes no block,
as long as the line does not become one that opens, closes or makes a block.
-/
import PolicyLint.Proofs.Markdown.Appended
import PolicyLint.Proofs.Text.Edited

namespace PolicyLint
namespace Markdown

/-! ## Roles -/

/-- What a line is when it is part of no block. -/
inductive Role where
  /-- It is read outside every region and opens none. -/
  | prose
  /-- It is in the body of a region that is exempt. -/
  | exempt
  /-- It is in the body of a region that is never closed. -/
  | unclosed
  /-- It is in the body of a region that is closed and mentions no policy key. -/
  | discarded
deriving DecidableEq, Repr

/-- The line plays the role in a document, with `before` in front of it and `after` behind. -/
inductive Plays (before after : List Text) : Role → Text → Prop
  | prose {line : Text} (hbefore : Closed before) (hline : ¬Opens line) :
      Plays before after .prose line
  | exempt {line : Text} {front : List Text} {first : Text} {body : List Text}
      (hregion : OpenRegion before front first body) (hexempt : IsExempt first)
      (hline : Text.trim line ≠ fence) : Plays before after .exempt line
  | unclosed {line : Text} {front : List Text} {first : Text} {body : List Text}
      (hregion : OpenRegion before front first body) (hline : Text.trim line ≠ fence)
      (hafter : ∀ l ∈ after, Text.trim l ≠ fence) : Plays before after .unclosed line
  | discarded {line : Text} {front : List Text} {first : Text} {body rest : List Text}
      {last : Text} {later : List Text} (hregion : OpenRegion before front first body)
      (hline : Text.trim line ≠ fence) (hafter : after = rest ++ last :: later)
      (hrest : ∀ l ∈ rest, Text.trim l ≠ fence) (hlast : Text.trim last = fence)
      (hkeys : ∀ k ∈ Policy.keys, ¬k <:+: Text.join ['\n'] (body ++ line :: rest)) :
      Plays before after .discarded line

/-- The line can take the place of one with this role: it does not open a region outside of
one, it does not close the region that it stands in, and it brings no policy key into a
region without one. -/
def Role.Fits (line : Text) : Role → Prop
  | .prose => ¬Opens line
  | .exempt => Text.trim line ≠ fence
  | .unclosed => Text.trim line ≠ fence
  | .discarded => Text.trim line ≠ fence ∧ ∀ k ∈ Policy.keys, ¬k <:+: line

theorem mentions_join {k : Text} (hk : k ∈ Policy.keys) (ls : List Text) :
    k <:+: Text.join ['\n'] ls ↔ ∃ line ∈ ls, k <:+: line := by
  have hkeys : ∀ k ∈ Policy.keys, '\n' ∉ k ∧ k ≠ [] := by decide
  exact Text.infix_join (hkeys k hk).1 (hkeys k hk).2 ls

theorem Role.Fits.of_trim_eq {role : Role} {line line' : Text} (h : role.Fits line)
    (htrim : Text.trim line' = Text.trim line)
    (hkeys : ∀ k ∈ Policy.keys, k <:+: line' → k <:+: line) : role.Fits line' := by
  have hfence : Text.trim line ≠ fence → Text.trim line' ≠ fence := by
    rw [htrim]
    exact id
  cases role with
  | prose =>
    show ¬Opens line'
    rw [← opening_eq_none_iff, opening_of_trim_eq htrim, opening_eq_none_iff]
    exact h
  | exempt => exact hfence h
  | unclosed => exact hfence h
  | discarded => exact ⟨hfence h.1, fun k hk hin => h.2 k hk (hkeys k hk hin)⟩

theorem not_mentioned_replace {k : Text} (hk : k ∈ Policy.keys) {body rest : List Text}
    {line line' : Text} (h : ¬k <:+: Text.join ['\n'] (body ++ line :: rest))
    (hline : ¬k <:+: line') : ¬k <:+: Text.join ['\n'] (body ++ line' :: rest) := by
  rw [mentions_join hk] at h ⊢
  intro ⟨l, hl, hkl⟩
  rw [List.mem_append, List.mem_cons] at hl
  rcases hl with hl | hl | hl
  · exact h ⟨l, List.mem_append_left _ hl, hkl⟩
  · rw [hl] at hkl
    exact hline hkl
  · exact h ⟨l, List.mem_append_right body (List.mem_cons_of_mem line hl), hkl⟩

namespace Reading

/-! ## Reading a line that plays a role -/

/-- What follows a line that completes no block and keeps the region does not depend on it. -/
theorem collected_kept {before : List Text} {line : Text} {region : Region} {n : Option Notice}
    (hregion : regionAfter 0 .prose before = region)
    (heffect : ∀ reported,
      effect (before.length + 1) reported line region = ⟨region, n, none⟩) (after : List Text) :
    collected 0 0 .prose (before ++ line :: after) = collected 0 0 .prose before ++
      collected (before.length + 1) (collected 0 0 .prose before).length region after := by
  rw [collected_append, hregion, Nat.zero_add, Nat.zero_add, collected, heffect]

/-- A region without a policy key leaves the blocks in front of it and those behind it. -/
theorem collected_keyless {ls front : List Text} {first : Text} {body : List Text} {last : Text}
    {after : List Text} (h : ClosedRegion ls front first body last after)
    (hkeys : ∀ k ∈ Policy.keys, ¬k <:+: Text.join ['\n'] body) :
    collected 0 0 .prose ls = collected 0 0 .prose front ++
      collected (front.length + 1 + body.length + 1) (collected 0 0 .prose front).length .prose
        after := by
  obtain ⟨o, ho⟩ := exists_opening h.opens
  have hmentioned : Policy.mentioned (Text.join ['\n'] body) = false := by
    rw [Bool.eq_false_iff, ne_eq, mentioned_iff]
    exact fun ⟨k, hk, hin⟩ => hkeys k hk hin
  have hblock : ∀ opened reported, blockOf opened reported o body = none := by
    intro opened reported
    rw [blockOf, hmentioned, Bool.and_false]
    rfl
  rw [collected_closedRegion h ho, hblock]

/-- The reading goes the same way over every line that plays the role. -/
theorem collected_plays {before after : List Text} {role : Role} {line line' : Text}
    (h : Plays before after role line) (hfits : role.Fits line') :
    collected 0 0 .prose (before ++ line' :: after) =
      collected 0 0 .prose (before ++ line :: after) := by
  cases h with
  | prose hbefore hline =>
    have hafter := regionAfter_of_closed hbefore 0
    have heffect : ∀ l, ¬Opens l → ∀ reported,
        effect (before.length + 1) reported l .prose = ⟨.prose, none, none⟩ := by
      intro l hl reported
      simp only [effect, opening_eq_none_iff.mpr hl]
    rw [collected_kept hafter (heffect line hline), collected_kept hafter (heffect line' hfits)]
  | exempt hregion hexempt hline =>
    obtain ⟨o, ho⟩ := exists_opening hregion.opens
    have hafter := regionAfter_openRegion hregion ho
    rw [if_pos ((opening_eq_some_iff.mp ho).2.mpr hexempt)] at hafter
    have heffect : ∀ l, Text.trim l ≠ fence → ∀ reported,
        effect (before.length + 1) reported l .exempt = ⟨.exempt, none, none⟩ := by
      intro l hl reported
      simp only [effect, closes_eq_false_iff.mpr hl, Bool.false_eq_true, if_false]
    rw [collected_kept hafter (heffect line hline), collected_kept hafter (heffect line' hfits)]
  | unclosed hregion hline hafter =>
    have hopen := hregion.append (List.forall_mem_cons.mpr ⟨hline, hafter⟩)
    have hopen' := hregion.append (List.forall_mem_cons.mpr ⟨hfits, hafter⟩)
    rw [collected_openRegion hopen, collected_openRegion hopen']
  | @discarded _ front first body rest last later hregion hline hafter hrest hlast hkeys =>
    -- The region is as long as before, whichever line stands in it.
    have hskip : ∀ l, Text.trim l ≠ fence →
        (∀ k ∈ Policy.keys, ¬k <:+: Text.join ['\n'] (body ++ l :: rest)) →
        collected 0 0 .prose (before ++ l :: after) = collected 0 0 .prose front ++
          collected (front.length + 1 + (body.length + (rest.length + 1)) + 1)
            (collected 0 0 .prose front).length .prose later := by
      intro l hl hnone
      have hopen := hregion.append (List.forall_mem_cons.mpr ⟨hl, hrest⟩)
      have hskipped := collected_keyless (hopen.close hlast later) hnone
      rw [List.append_assoc, List.cons_append, ← hafter, List.length_append,
        List.length_cons] at hskipped
      exact hskipped
    have hkeys' : ∀ k ∈ Policy.keys, ¬k <:+: Text.join ['\n'] (body ++ line' :: rest) :=
      fun k hk => not_mentioned_replace hk (hkeys k hk) (hfits.2 k hk)
    rw [hskip line hline hkeys, hskip line' hfits.1 hkeys']

end Reading

/-- The lines of a document with one line replaced, up to an empty line at the end. -/
theorem collected_replaced {t line line' : Text} {before after : List Text}
    (hlines : Text.lines t = before ++ line :: after) (hfeed : '\n' ∉ line') :
    ∃ line'', (line'' = line' ∨ line'' = Text.ended line') ∧
      Reading.collected 0 0 .prose
          (Text.lines (Text.editLine (fun _ => line') (before.length + 1) t)) =
        Reading.collected 0 0 .prose (before ++ line'' :: after) := by
  obtain ⟨p, back, hback, hedited⟩ := Text.lines_editLine hlines (fun _ _ => hfeed)
  rw [hedited]
  rcases Text.linesOfPieces_replace hback with ⟨hafter, -, hlast⟩ | ⟨-, hended⟩
  · refine ⟨line', .inl rfl, ?_⟩
    rw [hlast, hafter]
    cases line' with
    | nil =>
      rw [List.isEmpty_nil, if_pos rfl, List.append_nil, Reading.collected_append,
        Reading.collected_singleton, (Reading.effect_empty _ _ _).1, Option.toList_none,
        List.append_nil]
    | cons c line' => rfl
  · exact ⟨Text.ended line', .inr rfl, by rw [hended]⟩

theorem Role.Fits.ended {role : Role} {line : Text} (h : role.Fits line) :
    role.Fits (Text.ended line) :=
  h.of_trim_eq (Text.trim_ended line) fun _ _ hin =>
    hin.trans (Text.ended_isPrefix line).isInfix

theorem Role.Fits.append_ending {role : Role} {line ending : Text} (h : role.Fits line)
    (hending : ending = [] ∨ ending = ['\r']) : role.Fits (line ++ ending) := by
  rcases hending with he | he
  · rw [he, List.append_nil]
    exact h
  · rw [he]
    refine h.of_trim_eq (Text.trim_concat (by decide) line) fun k hk hin => ?_
    have hkeys : ∀ k ∈ Policy.keys, '\r' ∉ k ∧ ¬k <:+: ([] : Text) := by decide
    rw [Text.infix_append_sep (hkeys k hk).1] at hin
    exact hin.resolve_right (hkeys k hk).2

/-- A line that is part of no block can be replaced by any text that fits its role, whichever
way it ends, and the document has the same blocks. -/
theorem blocks_replace_line {t line line' ending : Text} {n : Nat} {role : Role}
    (hline : lineAt (Text.lines t) n = some line)
    (hplays : Plays ((Text.lines t).take (n - 1)) ((Text.lines t).drop n) role line)
    (hfeed : '\n' ∉ line') (hfits : role.Fits line')
    (hending : ending = [] ∨ ending = ['\r']) :
    blocks (Text.editLine (fun _ => line' ++ ending) n t) = blocks t := by
  obtain ⟨hlines, hnumber⟩ := lineAt_split hline
  have hfeed' : '\n' ∉ line' ++ ending := by
    rw [List.mem_append, not_or]
    refine ⟨hfeed, ?_⟩
    rcases hending with h | h
    · rw [h]
      exact List.not_mem_nil
    · rw [h]
      decide
  have hfits' : role.Fits (line' ++ ending) := hfits.append_ending hending
  obtain ⟨line'', hline'', hcollected⟩ := collected_replaced hlines hfeed'
  rw [hnumber] at hcollected
  have hfits'' : role.Fits line'' := by
    rcases hline'' with h | h
    · rw [h]
      exact hfits'
    · rw [h]
      exact hfits'.ended
  have hplayed := Reading.collected_plays hplays hfits''
  rw [← hlines] at hplayed
  rw [blocks_eq_collected, blocks_eq_collected, hcollected, hplayed]

/-- A page with a region that mentions no policy key and a block. -/
def keylessPage : Text :=
  "```json\n{}\n```\n```yaml\non_tcp_connect:\n```".toList

/-- An opening fence in a region without a policy key opens nothing. -/
theorem keylessPage_rewritten :
    blocks keylessPage = [⟨1, 4, .yaml, "on_tcp_connect:".toList⟩] ∧
      blocks (Text.editLine (fun _ => "```yaml".toList ++ ['\r']) 2 keylessPage) =
        blocks keylessPage := by
  have hopening : opening "```json".toList = some ⟨.json, false⟩ := by decide +kernel
  have hregion : OpenRegion ((Text.lines keylessPage).take 1) [] "```json".toList [] :=
    ⟨by decide +kernel, .nil, ⟨_, (opening_eq_some_iff.mp hopening).1⟩, by decide⟩
  have hplays : Plays ((Text.lines keylessPage).take 1) ((Text.lines keylessPage).drop 2)
      .discarded "{}".toList := by
    have hafter : (Text.lines keylessPage).drop 2 = [] ++ fence :: (Text.lines keylessPage).drop 3 :=
      by decide +kernel
    exact .discarded hregion (by decide +kernel) hafter (by decide) (by decide +kernel)
      (by decide +kernel)
  refine ⟨by decide +kernel, ?_⟩
  apply @blocks_replace_line keylessPage "{}".toList "```yaml".toList ['\r'] 2 .discarded
  · decide +kernel
  · exact hplays
  · decide
  · exact ⟨by decide +kernel, by decide +kernel⟩
  · exact .inr rfl

end Markdown
end PolicyLint
