set_option autoImplicit false

/-! # Ranges of code points

A character property is given by the ranges of code points that have it, in ascending order.
-/

namespace NoiseShader.Text

/-- Whether one of the ranges holds `n`. The ranges ascend, so the search ends at the first
that begins past `n`. -/
def inRanges (n : Nat) : List (Nat × Nat) → Bool
  | [] => false
  | (first, last) :: rest =>
    if n < first then false else if n ≤ last then true else inRanges n rest

end NoiseShader.Text
