/-!
# Ranges of code points

A character class is a list of closed ranges of code points. `covers_iff` reads the test as
membership in one of them.
-/

namespace GdbMi
set_option autoImplicit false

/-- Whether one of the closed ranges holds `n`. -/
def covers (ranges : List (Nat × Nat)) (n : Nat) : Bool :=
  ranges.any fun r => decide (r.1 ≤ n) && decide (n ≤ r.2)

theorem covers_iff {ranges : List (Nat × Nat)} {n : Nat} :
    covers ranges n = true ↔ ∃ r ∈ ranges, r.1 ≤ n ∧ n ≤ r.2 := by
  simp [covers]

end GdbMi
