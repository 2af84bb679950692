/-! Membership in a set of code points given by its blocks. -/
namespace TagScript.Unicode

def inRanges (ranges : List (Nat × Nat)) (n : Nat) : Bool :=
  ranges.any fun block => block.1 ≤ n && n ≤ block.2

theorem inRanges_eq_true_iff {ranges : List (Nat × Nat)} {n : Nat} :
    inRanges ranges n = true ↔ ∃ block ∈ ranges, block.1 ≤ n ∧ n ≤ block.2 := by
  simp [inRanges]

end TagScript.Unicode
