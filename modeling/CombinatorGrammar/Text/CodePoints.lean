/-!
# Sets of code points

A set of characters is given by the code points at which membership changes, in increasing
order: characters before the first are outside, those from the first up to the second are inside,
and so on. This is how the tables of character properties are written.
-/

namespace CombinatorGrammar

/-- Characters, given by the code points at which membership changes. -/
structure CodePoints where
  /-- The code points that begin a range inside or outside, in increasing order. -/
  changes : Array Nat

namespace CodePoints

/-- Whether a character is in the set: an odd number of changes lies at or before it. -/
def contains (set : CodePoints) (c : Char) : Bool :=
  (set.changes.findIdx fun change => c.toNat < change) % 2 == 1

end CodePoints

end CombinatorGrammar
