/-!
# Ranges of characters

Classes of characters are given by tables of ranges of code points.
-/

namespace ScriptLoader.Text

/-- The character stands in one of the ranges, whose two ends belong to it. -/
def inRanges (ranges : List (Nat × Nat)) (c : Char) : Bool := ranges.any fun r => r.1 ≤ c.toNat && c.toNat ≤ r.2

theorem inRanges_iff (ranges : List (Nat × Nat)) (c : Char) :
    inRanges ranges c = true ↔ ∃ r ∈ ranges, r.1 ≤ c.toNat ∧ c.toNat ≤ r.2 := by
  simp [inRanges]

end ScriptLoader.Text
