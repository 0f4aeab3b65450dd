/-!
# Sets of characters as lists of intervals

Character classes are given by the closed intervals of code points they hold,
in ascending order.
-/

namespace CompileWatch.Text

/-- A set of code points, as closed intervals in ascending order. -/
abbrev Intervals := List (Nat × Nat)

namespace Intervals

/-- Membership, giving up at the first interval that starts beyond the code point. -/
def hasCode : Intervals → Nat → Bool
  | [], _ => false
  | (low, high) :: rest, code =>
    if code < low then false else code ≤ high || hasCode rest code

/-- Whether a character lies in one of the intervals. -/
def has (set : Intervals) (c : Char) : Bool := set.hasCode c.toNat

end Intervals

end CompileWatch.Text
