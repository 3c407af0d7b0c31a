/-!
# Text/Ranges — sets of code points as ascending ranges

A character class is a list of closed ranges in ascending order.  `covers` walks it and stops at the
first range that starts beyond the code point asked for.
-/

namespace SchemaTypes.Text

/-- Whether one of the closed ranges, listed in ascending order, holds `n`. -/
def covers : List (Nat × Nat) → Nat → Bool
  | [], _ => false
  | (low, high) :: ranges, n =>
    if n < low then false
    else if n ≤ high then true
    else covers ranges n

end SchemaTypes.Text
