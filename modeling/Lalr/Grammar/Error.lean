import Lalr.Grammar.Basic
import Lalr.Template.Reader

/-!
What can be wrong with the declarations of a grammar.
-/

namespace Lalr

inductive GrammarError
  | emptyGrammar
  | emptyRule (site : Site) (lhs : String)
  | invalidSymbolName (site : Site) (name : String)
  | tokenAsLhs (site : Site) (name : String)
  | undefinedNonterminal (site : Site) (name production : String)
  | unreachableNonterminal (site : Site) (name : String)
  | malformedTemplate (site : Site) (text : String) (why : Template.Malformation)
  | captureOutOfRange (site : Site) (index arity : Nat)
  | unknownHelper (site : Site) (helper : String)
  | precedenceRedefined (site : Site) (name : String) (previous : Site)
  | precedenceOnNonterminal (site : Site) (name : String)
  | precedenceSymbolUnknown (site : Site) (name : String)
  | fallbackOnNonterminal (site : Site) (name : String)
  | fallbackToSelf (site : Site) (name : String)
  | fallbackRedefined (site : Site) (name : String)
  | unknownStart (name : String)
  deriving DecidableEq

def quoted (s : String) : String := "\"" ++ s ++ "\""

def GrammarError.message : GrammarError → String
  | .emptyGrammar => "Empty grammar"
  | .emptyRule site lhs =>
    site.text ++ ": Rule for " ++ quoted lhs ++ " has an empty pattern and no action"
  | .invalidSymbolName site name => site.text ++ ": Invalid symbol name: " ++ quoted name
  | .tokenAsLhs site name =>
    site.text ++ ": Token " ++ quoted name ++ " can not be the left-hand side of a rule"
  | .undefinedNonterminal site name production =>
    site.text ++ ": Nonterminal " ++ quoted name ++ " has no rules (referenced in "
      ++ quoted production ++ ")"
  | .unreachableNonterminal site name =>
    site.text ++ ": Nonterminal " ++ quoted name ++ " is not reachable from the start symbol"
  | .malformedTemplate site text why =>
    site.text ++ ": Error in action template " ++ quoted text ++ ": " ++ why.message
  | .captureOutOfRange site index arity =>
    site.text ++ ": Capture $" ++ toString index ++ " is out of range, the pattern has "
      ++ toString arity ++ " symbols"
  | .unknownHelper site helper =>
    site.text ++ ": Action refers to unknown helper " ++ quoted helper
  | .precedenceRedefined site name previous =>
    site.text ++ ": Symbol " ++ quoted name ++ " has already been given a precedence at "
      ++ previous.text
  | .precedenceOnNonterminal site name =>
    site.text ++ ": Can only set precedence for terminal symbols, not " ++ quoted name
  | .precedenceSymbolUnknown site name =>
    site.text ++ ": Precedence symbol " ++ quoted name ++ " has no declared precedence"
  | .fallbackOnNonterminal site name =>
    site.text ++ ": Can only set fallback between terminal symbols, not " ++ quoted name
  | .fallbackToSelf site name =>
    site.text ++ ": Symbol " ++ quoted name ++ " is asked to fall back to itself"
  | .fallbackRedefined site name =>
    site.text ++ ": More than one fallback assigned to token " ++ quoted name
  | .unknownStart name =>
    "The start symbol " ++ quoted name ++ " is not a nonterminal of the grammar"

end Lalr
