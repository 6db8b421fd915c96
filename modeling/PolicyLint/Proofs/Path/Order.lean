/-
The order of paths.

Paths are compared by their components, and lists of components from the front.
The kinds of components have an order; two names are compared byte by byte.  The
comparison that the program makes is this linear order.
-/
import Mathlib.Data.List.Basic
import Mathlib.Data.List.Lex
import Mathlib.Data.Prod.Lex
import PolicyLint.Path

namespace PolicyLint

theorem Bytes.before_iff {a b : Bytes} :
    Bytes.before a b = true ↔ a.map UInt8.toNat < b.map UInt8.toNat := by
  induction a generalizing b with
  | nil => cases b <;> simp [Bytes.before]
  | cons x a ih =>
    cases b with
    | nil => simp [Bytes.before]
    | cons y b =>
      rw [Bytes.before, Bool.or_eq_true, decide_eq_true_eq, Bool.and_eq_true, beq_iff_eq, ih,
        List.map_cons, List.map_cons, List.cons_lt_cons_iff, UInt8.toNat_inj, UInt8.lt_iff_toNat_lt]

namespace Path
namespace Component

/-- What a component is compared by: its kind, then the bytes of its name. -/
def key : Component → Nat ×ₗ List Nat
  | name n => toLex (3, n.map UInt8.toNat)
  | c => toLex (c.rank, [])

theorem key_injective : Function.Injective key := by
  have hbytes : Function.Injective (List.map UInt8.toNat) :=
    List.map_injective_iff.mpr fun _ _ => UInt8.toNat_inj.mp
  intro a b h
  cases a <;> cases b <;> simp_all [key, rank, hbytes.eq_iff]

instance : LinearOrder Component :=
  LinearOrder.lift' key key_injective

theorem before_iff {a b : Component} : a.before b = true ↔ a < b := by
  show a.before b = true ↔ a.key < b.key
  cases a <;> cases b <;>
    simp [before, key, rank, Prod.Lex.toLex_lt_toLex, Bytes.before_iff]

end Component

theorem leComponents_iff {as bs : List Component} : leComponents as bs = true ↔ as ≤ bs := by
  induction as generalizing bs with
  | nil =>
    rw [le_iff_lt_or_eq]
    cases bs <;> simp [leComponents]
  | cons a as ih =>
    cases bs with
    | nil =>
      rw [le_iff_lt_or_eq]
      simp [leComponents]
    | cons b bs =>
      rw [leComponents, Bool.or_eq_true, Component.before_iff, Bool.and_eq_true,
        decide_eq_true_eq, ih, le_iff_lt_or_eq, le_iff_lt_or_eq, List.cons_lt_cons_iff,
        List.cons.injEq, and_or_left, or_assoc]

theorem le_iff {p q : Bytes} : le p q = true ↔ components p ≤ components q :=
  leComponents_iff

/-- The path `p` comes before the path `q`. -/
def Before (p q : Bytes) : Prop :=
  components p < components q

end Path

end PolicyLint
