/-!
# Sets of characters as boundary lists

A set of code points is written as the ascending list of the points at which membership
changes: the first boundary opens the set, the second closes it, and so on. A code point is a
member when an odd number of boundaries lie at or below it.
-/
namespace DefineBundle.Text

/-- A set of code points, as the ascending list of the points where membership changes. -/
structure CharSet where
  boundaries : List Nat
  deriving Repr

namespace CharSet

/-- Whether the number of boundaries at or below `c` is odd, `inside` telling the parity so far. -/
def crosses (c : Nat) : Bool → List Nat → Bool
  | inside, [] => inside
  | inside, b :: bs => if b ≤ c then crosses c (!inside) bs else inside

def contains (s : CharSet) (c : Char) : Bool :=
  crosses c.toNat false s.boundaries

end CharSet

end DefineBundle.Text
