/-
The contents that blocks can have.

A content is the content of some block exactly when it mentions a policy key and none of
its lines is a bare fence.  Written between fences, such contents are read back as they
are, whatever else stands in them.
-/
import PolicyLint.Proofs.Markdown.RegionReading
import PolicyLint.Proofs.Text.Line
import PolicyLint.Proofs.Text.Pieces

namespace PolicyLint
namespace Markdown

/-- A content that mentions a policy key and has no bare fence among its lines. -/
structure Reportable (content : Text) : Prop where
  mentions : ∃ k ∈ Policy.keys, k <:+: content
  no_fence : ∀ piece ∈ Text.pieces '\n' content, Text.trim piece ≠ fence

/-- The lines of a region with this content. -/
def regionLines (f : Format) (content : Text) : List Text :=
  (fence ++ f.name) :: (Text.pieces '\n' content ++ [fence])

def pageLines (ps : List (Format × Text)) : List Text :=
  ps.flatMap fun p => regionLines p.1 p.2

theorem pageLines_cons (p : Format × Text) (ps : List (Format × Text)) :
    pageLines (p :: ps) = regionLines p.1 p.2 ++ pageLines ps := rfl

/-- A document of regions and nothing else, its lines ended by a carriage return and a
line feed. -/
def page (ps : List (Format × Text)) : Text :=
  (pageLines ps).flatMap (· ++ ['\r', '\n'])

/-! ## What is written is read -/

theorem not_mem_of_mem_regionLines {f : Format} {content line : Text}
    (h : line ∈ regionLines f content) : '\n' ∉ line := by
  rw [regionLines, List.mem_cons, List.mem_append, List.mem_singleton] at h
  rcases h with h | h | h
  · rw [h]
    cases f <;> decide
  · exact Text.not_mem_of_mem_pieces h
  · rw [h]
    decide

theorem lines_page (ps : List (Format × Text)) : Text.lines (page ps) = pageLines ps := by
  apply Text.lines_written
  intro line hline
  obtain ⟨p, -, hp⟩ := List.mem_flatMap.mp hline
  exact not_mem_of_mem_regionLines hp

theorem opening_name (f : Format) : opening (fence ++ f.name) = some ⟨f, false⟩ := by
  cases f <;> decide

namespace Reading

theorem collected_regionLines {f : Format} {content : Text} (h : Reportable content)
    (rest : List Text) (count reported : Nat) :
    collected count reported .prose (regionLines f content ++ rest) =
      ⟨reported + 1, count + 1, f, content⟩ ::
        collected (count + (regionLines f content).length) (reported + 1) .prose rest := by
  have hm : Policy.mentioned content = true := mentioned_iff.mpr h.mentions
  have hblock : blockOf (count + 1) reported ⟨f, false⟩ (Text.pieces '\n' content) =
      some ⟨reported + 1, count + 1, f, content⟩ := by
    unfold blockOf
    rw [Text.join_pieces]
    exact if_pos hm
  have hlength : (regionLines f content).length =
      1 + (Text.pieces '\n' content).length + 1 := by
    rw [regionLines, List.length_cons, List.length_append, List.length_singleton]
    omega
  have hlast : Text.trim fence = fence := by decide
  rw [hlength, regionLines, List.cons_append, List.append_assoc, List.singleton_append,
    collected_opening (opening_name f), collected_closed h.no_fence hlast, hblock]
  dsimp only
  rw [← Nat.add_assoc, ← Nat.add_assoc]

/- The induction is on the regions, from any number of lines and blocks on. -/
theorem collected_pageLines {ps : List (Format × Text)} (h : ∀ p ∈ ps, Reportable p.2) :
    ∀ count reported : Nat, collected count reported .prose (pageLines ps) =
      ps.mapIdx fun i p =>
        ⟨reported + i + 1, count + (pageLines (ps.take i)).length + 1, p.1, p.2⟩ := by
  induction ps with
  | nil => intro count reported; rfl
  | cons p ps ih =>
    intro count reported
    have hp : Reportable p.2 := h p List.mem_cons_self
    have hps := ih fun q hq => h q (List.mem_cons_of_mem p hq)
    rw [pageLines_cons, collected_regionLines hp, hps, List.mapIdx_cons]
    refine congr (congrArg List.cons rfl) (congrArg (fun g => ps.mapIdx g) ?_)
    funext i q
    rw [List.take_succ_cons, pageLines_cons, List.length_append, Block.mk.injEq]
    refine ⟨?_, ?_, rfl, rfl⟩ <;> omega

end Reading

/-! ## What is read can be written -/

theorem reportable_join {body : List Text}
    (hbody : ∀ line ∈ body, '\n' ∉ line ∧ Text.trim line ≠ fence)
    (hm : Policy.mentioned (Text.join ['\n'] body) = true) :
    Reportable (Text.join ['\n'] body) := by
  have hmentions := mentioned_iff.mp hm
  have hne : body ≠ [] := by
    intro h
    rw [h] at hm
    exact absurd hm (by decide)
  refine ⟨hmentions, ?_⟩
  rw [Text.pieces_join hne fun line hline => (hbody line hline).1]
  exact fun line hline => (hbody line hline).2

/-- The lines of a region that is open are lines of a document and do not close it. -/
def Region.Unclosed : Region → Prop
  | .inside _ _ body => ∀ line ∈ body, '\n' ∉ line ∧ Text.trim line ≠ fence
  | _ => True

namespace Reading

theorem effect_unclosed {region : Region} (h : region.Unclosed) {text : Text} (ht : '\n' ∉ text)
    (line reported : Nat) :
    (effect line reported text region).region.Unclosed ∧
      ∀ b, (effect line reported text region).block = some b → Reportable b.content := by
  cases region with
  | prose =>
    unfold effect
    cases opening text with
    | none => exact ⟨trivial, fun b hb => nomatch hb⟩
    | some o =>
      obtain ⟨f, exempt⟩ := o
      cases exempt with
      | true => exact ⟨trivial, fun b hb => nomatch hb⟩
      | false => exact ⟨fun l hl => absurd hl List.not_mem_nil, fun b hb => nomatch hb⟩
  | exempt =>
    unfold effect
    cases closes text <;> exact ⟨trivial, fun b hb => nomatch hb⟩
  | inside f opened body =>
    unfold effect
    cases hc : closes text with
    | true =>
      refine ⟨trivial, fun b hb => ?_⟩
      change (if Policy.mentioned (Text.join ['\n'] body.reverse) = true then _ else none) = _ at hb
      rw [Option.ite_none_right_eq_some] at hb
      obtain ⟨hm, hb⟩ := hb
      rw [← Option.some.inj hb]
      exact reportable_join (fun l hl => h l (List.mem_reverse.mp hl)) hm
    | false =>
      have hopen : Text.trim text ≠ fence := by
        intro hf
        rw [closes_iff.mpr hf] at hc
        exact nomatch hc
      refine ⟨fun l hl => ?_, fun b hb => nomatch hb⟩
      rcases List.mem_cons.mp hl with hl | hl
      · rw [hl]
        exact ⟨ht, hopen⟩
      · exact h l hl

theorem collected_reportable {ls : List Text} (hls : ∀ line ∈ ls, '\n' ∉ line) :
    ∀ (count reported : Nat) (region : Region), region.Unclosed →
      ∀ b ∈ collected count reported region ls, Reportable b.content := by
  induction ls with
  | nil => exact fun _ _ _ _ b hb => absurd hb List.not_mem_nil
  | cons text rest ih =>
    intro count reported region hregion
    obtain ⟨hafter, hblock⟩ :=
      effect_unclosed hregion (hls text List.mem_cons_self) (count + 1) reported
    have hrest := ih fun line hl => hls line (List.mem_cons_of_mem text hl)
    rw [collected]
    cases hb : (effect (count + 1) reported text region).block with
    | none => exact hrest _ _ _ hafter
    | some b =>
      intro b' hb'
      rcases List.mem_cons.mp hb' with h | h
      · rw [h]
        exact hblock b hb
      · exact hrest _ _ _ hafter b' h

end Reading

/-- Reportable contents that are written as regions, one below the other, are the blocks of
the page, in order and as they are; and blocks have no other contents. -/
theorem blocks_page (ps : List (Format × Text)) (h : ∀ p ∈ ps, Reportable p.2) :
    (blocks (page ps) = ps.mapIdx fun i p =>
      ⟨i + 1, (pageLines (ps.take i)).length + 1, p.1, p.2⟩) ∧
      ∀ content, (∃ t, ∃ b ∈ blocks t, b.content = content) ↔ Reportable content := by
  have hpage : ∀ ps : List (Format × Text), (∀ p ∈ ps, Reportable p.2) →
      blocks (page ps) = ps.mapIdx fun i p =>
        ⟨i + 1, (pageLines (ps.take i)).length + 1, p.1, p.2⟩ := by
    intro ps h
    rw [blocks_eq_collected, lines_page, Reading.collected_pageLines h]
    simp only [Nat.zero_add]
  refine ⟨hpage ps h, fun content => ⟨?_, ?_⟩⟩
  · intro ⟨t, b, hb, hcontent⟩
    rw [blocks_eq_collected] at hb
    rw [← hcontent]
    exact Reading.collected_reportable (fun line hl => Text.not_mem_of_mem_lines hl) 0 0 .prose
      trivial b hb
  · intro hcontent
    have hone := hpage [(.yaml, content)] fun p hp => by
      rw [List.mem_singleton.mp hp]
      exact hcontent
    refine ⟨page [(.yaml, content)], ⟨1, 1, .yaml, content⟩, ?_, rfl⟩
    rw [hone]
    exact List.mem_singleton_self _

/-- Contents with fences that do not close, carriage returns and line feeds at both ends. -/
def awkwardContents : List (Format × Text) :=
  [(.json, "\n```yaml\non_tcp_connect\r\r\n ``` x\n\r\n".toList), (.yaml, "on_http_request".toList)]

theorem awkwardContents_read_back :
    (∀ p ∈ awkwardContents, Reportable p.2) ∧
      blocks (page awkwardContents) =
        [⟨1, 1, .json, "\n```yaml\non_tcp_connect\r\r\n ``` x\n\r\n".toList⟩,
         ⟨2, 9, .yaml, "on_http_request".toList⟩] := by
  have hmentions : ∀ p ∈ awkwardContents, Policy.mentioned p.2 = true := by decide +kernel
  have hfence : ∀ p ∈ awkwardContents, ∀ piece ∈ Text.pieces '\n' p.2, Text.trim piece ≠ fence := by
    decide +kernel
  have hreportable : ∀ p ∈ awkwardContents, Reportable p.2 := fun p hp =>
    ⟨mentioned_iff.mp (hmentions p hp), hfence p hp⟩
  refine ⟨hreportable, ?_⟩
  rw [(blocks_page awkwardContents hreportable).1]
  decide +kernel

end Markdown
end PolicyLint
