/-!
# Sets of characters

A set of characters is a list of closed intervals of code points. The tables of
this library (word characters, printable characters) are such lists in
ascending order.
-/

namespace CodeAtlas.Text

/-- A set of characters, as closed intervals of code points. -/
structure CharSet where
  ranges : List (Nat × Nat)

namespace CharSet

def contains (s : CharSet) (c : Char) : Bool :=
  s.ranges.any fun r => r.1 ≤ c.toNat && c.toNat ≤ r.2

end CharSet

end CodeAtlas.Text
