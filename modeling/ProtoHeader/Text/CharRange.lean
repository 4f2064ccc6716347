/-!
# Ranges of characters

A class of characters given by a standard is a list of closed ranges of code points.
-/

namespace ProtoHeader.Text

structure CharRange where
  low : Nat
  high : Nat

def CharRange.contains (r : CharRange) (c : Char) : Bool :=
  r.low ≤ c.toNat && c.toNat ≤ r.high

def inRanges (ranges : List CharRange) (c : Char) : Bool :=
  ranges.any (·.contains c)

theorem inRanges_eq_true_iff {ranges : List CharRange} {c : Char} :
    inRanges ranges c = true ↔ ∃ r ∈ ranges, r.low ≤ c.toNat ∧ c.toNat ≤ r.high := by
  simp [inRanges, CharRange.contains]

end ProtoHeader.Text
