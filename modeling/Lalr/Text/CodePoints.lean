/-!
Sets of code points, given by the points at which membership changes.
-/

namespace Lalr.Text

/-- Code points below the first boundary are outside, those from the first to before the second
inside, and so on alternately. -/
structure CodePoints where
  boundaries : List Nat

namespace CodePoints

def containsFrom : List Nat → Nat → Bool
  | [], _ => false
  | b :: bs, c => if c < b then false else !containsFrom bs c

def contains (s : CodePoints) (c : Char) : Bool := containsFrom s.boundaries c.toNat

end CodePoints
end Lalr.Text
