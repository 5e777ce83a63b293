import Lalr.Grammar.Error
import Lalr.Template.Semantics

/-!
Why a parse ends without a value.
-/

namespace Lalr

/-- Position of a token in the source. -/
structure Location where
  line : Nat := 0
  column : Nat := 0
  deriving DecidableEq, Inhabited

def Location.text (l : Location) : String := toString l.line ++ ":" ++ toString l.column

inductive ParseError
  | unexpected (location : Location) (found : String) (expected : List String)
  | unknownTerminal (name : String) (location : Location)
  | action (production : String) (location : Location) (cause : ActionError)
  | missingGoto (state : Nat) (nonterminal : String)
  | noValue
  deriving DecidableEq, Inhabited

def ParseError.message : ParseError → String
  | .unexpected l found expected =>
    l.text ++ ": Syntax error, unexpected " ++ found ++ ", expecting " ++ ", ".intercalate expected
  | .unknownTerminal name l => l.text ++ ": Unknown terminal " ++ quoted name
  | .action p l cause => l.text ++ ": Action of " ++ quoted p ++ " failed: " ++ cause.message
  | .missingGoto q n => "No goto from state " ++ toString q ++ " on " ++ quoted n
  | .noValue => "Parse accepted without a value"

end Lalr
