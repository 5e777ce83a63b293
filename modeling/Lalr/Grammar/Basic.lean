import Lalr.Cfg.Basic
import Lalr.Template.Program
import Lalr.Text.Record

/-!
Assembled grammars: named symbols, precedence, and rules with what they do when reduced. Terminals
and nonterminals are numbered apart; where one numbering is wanted, the terminals come first.
-/

namespace Lalr

variable {ν σ V : Type}

/-- Where a declaration was made. -/
structure Site where
  file : String
  line : Nat
  deriving DecidableEq, Inhabited

def Site.text (s : Site) : String := s.file ++ "(" ++ toString s.line ++ ")"

inductive Associativity
  | left
  | right
  | nonassoc
  deriving DecidableEq, Inhabited

def Associativity.text : Associativity → String
  | .left => "left"
  | .right => "right"
  | .nonassoc => "nonassoc"

/-- A greater level binds tighter. -/
structure Precedence where
  level : Nat
  associativity : Associativity
  deriving DecidableEq, Inhabited

structure Band extends Precedence where
  names : List String
  deriving DecidableEq, Inhabited

/-- What to do when several rules can be reduced and no precedence decides between them. -/
inductive TiePolicy
  | earliest
  | reject
  deriving DecidableEq, Inhabited

/-- What the author of a rule wants done when it is reduced. -/
inductive Body (ν : Type)
  | template (template : Template)
  | native (action : ν)

inductive Routine (ν : Type)
  | program (program : Program)
  | native (action : ν)

def Body.template? : Body ν → Option Template
  | .template t => some t
  | .native _ => none

def Body.prepare : Body ν → Routine ν
  | .template t => .program t.compile
  | .native f => .native f

def Routine.run (sem : Semantics ν σ V) (values : List V) : Routine ν → Acting σ V
  | .program p => p.run sem values
  | .native f => asked (sem.native f values)

/-- A rule by the names of its symbols. -/
structure NamedRule (ν : Type) where
  site : Site
  lhs : String
  rhs : List String
  precedenceSymbol : Option String
  body : Body ν

namespace NamedRule

def arity (r : NamedRule ν) : Nat := r.rhs.length

def text (r : NamedRule ν) : String := " ".intercalate (r.lhs :: "::=" :: r.rhs)

/-- With a star where the dot is. -/
def itemText (r : NamedRule ν) (dot : Nat) : String :=
  " ".intercalate (r.lhs :: "::=" :: r.rhs.take dot ++ "*" :: r.rhs.drop dot)

end NamedRule

structure Production (ν : Type) extends NamedRule ν where
  rule : Rule
  precedence : Option Precedence
  routine : Routine ν

namespace Production

def run (p : Production ν) (sem : Semantics ν σ V) (values : List V) : Acting σ V :=
  p.routine.run sem values

/-- The level of the precedence that was given to the rule itself. -/
def explicitLevel (p : Production ν) : Option Nat :=
  if p.precedenceSymbol.isSome then p.precedence.map Precedence.level else none

end Production

inductive Finding
  | unusedToken (name : String)
  | tieByOrder (state : Nat) (lookahead production : String)
  | neverReduced (production : String)
  deriving DecidableEq, Inhabited

def Finding.message : Finding → String
  | .unusedToken name => "Token \"" ++ name ++ "\" is not used in any rule"
  | .tieByOrder q t p =>
    "reduce/reduce conflict in state " ++ toString q ++ " on \"" ++ t
      ++ "\" resolved in favour of the earlier rule: " ++ p
  | .neverReduced p => "This rule can not be reduced: " ++ p

/-- A finding that does not keep a table from being built. -/
structure Diagnostic where
  site : Site
  finding : Finding
  deriving DecidableEq, Inhabited

def Diagnostic.text (d : Diagnostic) : String := d.site.text ++ ": " ++ d.finding.message

/-- The fallback is the terminal to try where this one has no action. -/
structure Terminal where
  name : String
  precedence : Option Precedence
  fallback : Option Nat
  deriving DecidableEq, Inhabited

/-- Bands come from the tightest to the loosest. -/
structure Grammar (ν : Type) where
  terminals : Array Terminal
  nonterminals : Array String
  productions : Array (Production ν)
  start : Nat
  bands : List Band
  policy : TiePolicy
  diagnostics : List Diagnostic

namespace Grammar

def endName : String := "$end"

def acceptName : String := "$accept"

def cfg (g : Grammar ν) : Cfg := ⟨g.nonterminals.size, g.productions.map (·.rule)⟩

def terminalNames (g : Grammar ν) : List String := (g.terminals.map (·.name)).toList

def symbolNames (g : Grammar ν) : List String := g.terminalNames ++ g.nonterminals.toList

def startName (g : Grammar ν) : String := g.nonterminals.getD g.start ""

/-- The number of a terminal. -/
def terminal? (g : Grammar ν) (name : String) : Option Nat := g.terminalNames.idxOf? name

def nonterminal? (g : Grammar ν) (name : String) : Option Nat := g.nonterminals.toList.idxOf? name

def isTerminal (g : Grammar ν) (name : String) : Bool := g.terminalNames.contains name

def terminalName (g : Grammar ν) (t : Nat) : String := (g.terminals[t]?.map Terminal.name).getD "?"

/-- The number of a symbol where terminals and nonterminals are numbered together. -/
def symbolId (g : Grammar ν) : Sym → Nat
  | .terminal t => t
  | .nonterminal n => g.terminals.size + n

def symbolName (g : Grammar ν) (id : Nat) : String := g.symbolNames.getD id "?"

/-- The precedence of the tightest band with that name. -/
def precedenceOf (g : Grammar ν) (name : String) : Option Precedence :=
  (g.bands.find? (·.names.contains name)).map Band.toPrecedence

def productionsOf (g : Grammar ν) (name : String) : List (Production ν) :=
  g.productions.toList.filter (·.lhs = name)

def fallback? (g : Grammar ν) (t : Nat) : Option Nat := g.terminals[t]?.bind Terminal.fallback

end Grammar

/-! One-line descriptions. -/

def Associativity.describe : Associativity → String
  | .left => "Left"
  | .right => "Right"
  | .nonassoc => "Nonassoc"

def Band.describe (b : Band) : String :=
  Text.record "PrecedenceBand" [
    ("level", toString b.level),
    ("assoc", b.associativity.describe),
    ("symbols", Text.listed (b.names.map Text.quoteLiteral))]

def Production.describe (id : Nat) (p : Production ν) : String :=
  Text.record "Production" [
    ("id", toString id),
    ("text", Text.quoteLiteral p.text),
    ("prec", Text.quotedOption p.precedenceSymbol),
    ("template", Text.quotedOption (p.body.template?.map Template.text))]

def Grammar.describe (g : Grammar ν) : String :=
  Text.record "Grammar" [
    ("start", Text.quoteLiteral g.startName),
    ("terminals", Text.listed (g.terminalNames.map Text.quoteLiteral)),
    ("nonterminals", Text.listed (g.nonterminals.toList.map Text.quoteLiteral)),
    ("productions", Text.listed (g.productions.toList.zipIdx.map fun (p, id) => p.describe id)),
    ("precedence", Text.listed (g.bands.map Band.describe))]

end Lalr
