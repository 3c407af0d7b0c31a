/-!
# Text/Order — texts in code point order

Texts are compared character by character, by code point.  `sorted` is insertion sort: stable, and
every text of the input stays.
-/

namespace SchemaTypes.Text

/-- A text put in front of the first one that does not come before it. -/
def insertSorted (s : String) : List String → List String
  | [] => [s]
  | t :: ts => if t < s then t :: insertSorted s ts else s :: t :: ts

/-- The texts in ascending order. -/
def sorted : List String → List String
  | [] => []
  | s :: ss => insertSorted s (sorted ss)

end SchemaTypes.Text
