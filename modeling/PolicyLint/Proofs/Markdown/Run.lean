/-
A document read in one go.

Asking a reading for its next block, again and again until there is none, is
compared here with one pass over the lines that collects every block.  The pass
is what proofs about documents recurse on.
-/
import PolicyLint.Markdown.Block

namespace PolicyLint
namespace Markdown
namespace Reading

/-- The blocks that the lines complete when they are read one after the other,
from `region` on, after `count` lines and `reported` blocks. -/
def collected (count reported : Nat) (region : Region) : List Text → List Block
  | [] => []
  | text :: rest =>
    let e := effect (count + 1) reported text region
    match e.block with
    | some b => b :: collected (count + 1) (reported + 1) e.region rest
    | none => collected (count + 1) reported e.region rest

/-- The region in which the lines leave a reading that is in `region` after `count`
lines.  How many blocks were reported does not matter for it. -/
def regionAfter (count : Nat) (region : Region) : List Text → Region
  | [] => region
  | text :: rest => regionAfter (count + 1) (effect (count + 1) 0 text region).region rest

theorem effect_region (line reported : Nat) (text : Text) (region : Region) :
    (effect line reported text region).region = (effect line 0 text region).region := by
  cases region with
  | prose =>
    unfold effect
    cases opening text with
    | none => rfl
    | some o => cases o.exempt <;> rfl
  | exempt => rfl
  | inside f n body =>
    unfold effect
    cases closes text <;> rfl

/-- What comes after some lines is read from the region in which they end. -/
theorem collected_append (as bs : List Text) : ∀ (count reported : Nat) (region : Region),
    collected count reported region (as ++ bs) =
      collected count reported region as ++
        collected (count + as.length) (reported + (collected count reported region as).length)
          (regionAfter count region as) bs := by
  induction as with
  | nil => intro count reported region; rfl
  | cons text rest ih =>
    intro count reported region
    have hlen : count + (text :: rest).length = count + 1 + rest.length := by
      rw [List.length_cons]; omega
    rw [List.cons_append, hlen, regionAfter]
    cases hb : (effect (count + 1) reported text region).block with
    | none =>
      simp only [collected, hb]
      rw [ih, effect_region]
    | some b =>
      simp only [collected, hb]
      rw [ih, effect_region, List.cons_append, List.length_cons, Nat.add_assoc reported,
        Nat.add_comm 1]

/-- The blocks still to come of a reading. -/
def pending (r : Reading) : List Block :=
  collected r.count r.reported r.region r.rest

/-- Asking again and again gives `bs` one by one, and then nothing. -/
inductive Yields : Reading → List Block → Prop
  | done {r : Reading} (h : r.next.block = none) : Yields r []
  | more {r : Reading} {b : Block} {bs : List Block} (h : r.next.block = some b)
      (rest : Yields r.next.after bs) : Yields r (b :: bs)

theorem Yields.unique {r : Reading} {as bs : List Block} (ha : Yields r as)
    (hb : Yields r bs) : as = bs := by
  induction ha generalizing bs with
  | done h =>
    cases hb with
    | done _ => rfl
    | more h' _ => rw [h] at h'; exact absurd h' (by simp)
  | more h _ ih =>
    cases hb with
    | done h' => rw [h] at h'; exact absurd h' (by simp)
    | more h' rest' =>
      rw [h, Option.some.injEq] at h'
      rw [h', ih rest']

/-- One answer gives the first of the pending blocks and leaves the others to come.
The lines left are fewer, so the answers come to an end. -/
theorem advance_pending (ls : List Text) : ∀ (count reported : Nat) (region : Region)
    (notices : List Notice),
    let a := advance count reported region notices ls
    match a.block with
    | some b => collected count reported region ls = b :: a.after.pending ∧
        a.after.rest.length < ls.length
    | none => collected count reported region ls = [] := by
  induction ls with
  | nil => intro count reported region notices; simp [advance, collected]
  | cons text rest ih =>
    intro count reported region notices
    cases hb : (effect (count + 1) reported text region).block with
    | some b => simp [advance, collected, pending, hb]
    | none =>
      have h := ih (count + 1) reported (effect (count + 1) reported text region).region
        ((effect (count + 1) reported text region).notice.toList ++ notices)
      simp only [advance, collected, hb]
      revert h
      dsimp only
      split
      · rintro ⟨hc, hl⟩
        exact ⟨hc, Nat.lt_succ_of_lt hl⟩
      · exact id

theorem pending_of_next_none {r : Reading} (h : r.next.block = none) : r.pending = [] := by
  have hp := advance_pending r.rest r.count r.reported r.region []
  change r.next.block = none at h
  simp only [next] at h
  simp only [h] at hp
  exact hp

theorem pending_of_next_some {r : Reading} {b : Block} (h : r.next.block = some b) :
    r.pending = b :: r.next.after.pending ∧ r.next.after.rest.length < r.rest.length := by
  have hp := advance_pending r.rest r.count r.reported r.region []
  simp only [next] at h ⊢
  simp only [h] at hp
  exact hp

/-- A reading yields its pending blocks. -/
theorem yields_pending (r : Reading) : Yields r r.pending := by
  cases h : r.next.block with
  | none => rw [pending_of_next_none h]; exact .done h
  | some b =>
    obtain ⟨hp, hl⟩ := pending_of_next_some h
    rw [hp]
    exact .more h (yields_pending r.next.after)
termination_by r.rest.length

/-- With fuel for every line the answers report all pending blocks. -/
theorem answers_blocks {fuel : Nat} : ∀ {r : Reading}, r.rest.length < fuel →
    (r.answers fuel).filterMap (·.block) = r.pending := by
  induction fuel with
  | zero => intro r h; omega
  | succ fuel ih =>
    intro r h
    cases hb : r.next.block with
    | none => simp [answers, hb, pending_of_next_none hb]
    | some b =>
      obtain ⟨hp, hl⟩ := pending_of_next_some hb
      simp [answers, hb, hp, ih (show r.next.after.rest.length < fuel by omega)]

end Reading

/-- The blocks of a document are what one pass over its lines collects. -/
theorem blocks_eq_collected (t : Text) :
    blocks t = Reading.collected 0 0 .prose (Text.lines t) := by
  rw [blocks, answers, Reading.answers_blocks (Nat.lt_succ_self _)]
  rfl

/-- Asking for blocks until there are no more gives the blocks of the document. -/
theorem yields_blocks (t : Text) : Reading.Yields (Reading.start t) (blocks t) := by
  rw [blocks_eq_collected]
  exact Reading.yields_pending (Reading.start t)

end Markdown
end PolicyLint
