/-
The values that a block can hold.

JSON and YAML blocks are both read into `Data`, and whether a block is a traffic
policy is decided on it.  A mapping keeps its bindings in the order in which they
were written, repetitions included; the last binding of a key is the one that
counts, and `lookup` says so.
-/
import PolicyLint.Text.Basic

namespace PolicyLint

/-- A decimal number, kept as written: `significand * 10 ^ exponent`, with a
sign. -/
structure Decimal where
  negative : Bool
  significand : Nat
  exponent : Int
deriving DecidableEq, Repr

/-- A document tree. -/
inductive Data where
  | null
  | bool (b : Bool)
  | number (n : Decimal)
  | string (s : Text)
  | list (items : List Data)
  | mapping (bindings : List (Text × Data))
deriving Repr

namespace Data

/-- The value bound to `key`: the last one written. -/
def lookup (key : Text) : List (Text × Data) → Option Data
  | [] => none
  | (k, v) :: rest => (lookup key rest).or (if k = key then some v else none)

/-- True when `key` is bound. -/
def binds (key : Text) (bindings : List (Text × Data)) : Bool :=
  (lookup key bindings).isSome

theorem lookup_eq_none_iff {key : Text} {bindings : List (Text × Data)} :
    lookup key bindings = none ↔ ∀ e ∈ bindings, e.1 ≠ key := by
  induction bindings with
  | nil => simp [lookup]
  | cons e rest ih => obtain ⟨k, v⟩ := e; simp [lookup, ih, and_comm]

theorem binds_iff {key : Text} {bindings : List (Text × Data)} :
    binds key bindings = true ↔ ∃ e ∈ bindings, e.1 = key := by
  rw [binds, ← Option.ne_none_iff_isSome, ne_eq, lookup_eq_none_iff]; simp

end Data
end PolicyLint
