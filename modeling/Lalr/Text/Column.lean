/-!
Text in columns.
-/

namespace Lalr.Text

def spaces (n : Nat) : String := .ofList (List.replicate n ' ')

/-- At the right end of a column. -/
def alignRight (width : Nat) (s : String) : String := spaces (width - s.length) ++ s

/-- At the left end of a column. -/
def alignLeft (width : Nat) (s : String) : String := s ++ spaces (width - s.length)

end Lalr.Text
