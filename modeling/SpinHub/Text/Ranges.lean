/-!
# Ranges of characters

A class of characters as the list of its ranges, from the lowest character to the highest.
-/

namespace SpinHub

/-- A class of characters: the numbers of the first and the last character of each range. -/
abbrev CharRanges := List (Nat × Nat)

namespace CharRanges

/-- Whether a character is in one of the ranges. -/
def contains (ranges : CharRanges) (c : Char) : Bool :=
  ranges.any fun (first, last) => first ≤ c.toNat && c.toNat ≤ last

end CharRanges

end SpinHub
