import Lalr.Grammar.Error

/-!
Why a grammar has no table.
-/

namespace Lalr

inductive ConflictKind
  | shiftReduce
  | reduceReduce
  deriving DecidableEq, Inhabited

def ConflictKind.text : ConflictKind → String
  | .shiftReduce => "shift/reduce"
  | .reduceReduce => "reduce/reduce"

/-- A cell between whose moves nothing decides, in the words of the grammar. -/
structure Conflict where
  kind : ConflictKind
  state : Nat
  lookahead : String
  items : List String
  productions : List String
  deriving DecidableEq, Inhabited

/-- The conflict, the items of its state and the moves that compete, on lines of their own. -/
def Conflict.text (c : Conflict) : String :=
  let head := c.kind.text ++ " conflict in state " ++ toString c.state ++ " on "
    ++ quoted c.lookahead ++ ":"
  let shift := if c.kind = .shiftReduce then " shift " ++ quoted c.lookahead ++ "," else ""
  let competing := "  competing:" ++ shift
    ++ ",".intercalate (c.productions.map (" reduce " ++ ·))
  "\n".intercalate (head :: c.items.map ("    " ++ ·) ++ [competing])

inductive BuildError
  | grammar (error : GrammarError)
  | conflicts (conflicts : List Conflict)
  | neverReduced (site : Site) (production : String)
  deriving DecidableEq

def BuildError.message : BuildError → String
  | .grammar e => e.message
  | .conflicts cs =>
    "\n".intercalate ((toString cs.length ++ " parsing conflicts") :: cs.map Conflict.text)
  | .neverReduced site p => site.text ++ ": This rule can not be reduced: " ++ p

end Lalr
