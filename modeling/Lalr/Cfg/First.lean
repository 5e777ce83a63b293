import Lalr.Cfg.Basic
import Lalr.Flow

/-!
Which nonterminals derive the empty string, and which terminals can begin what a nonterminal
derives.
-/

namespace Lalr

def Sym.vanishes (nullable : IdSet) : Sym → Bool
  | .terminal _ => false
  | .nonterminal n => nullable.contains n

def vanish (nullable : IdSet) (symbols : List Sym) : Bool := symbols.all (·.vanishes nullable)

/-- The symbols that come to the front when those before them vanish. -/
def fronts (nullable : IdSet) : List Sym → List Sym
  | [] => []
  | s :: rest => s :: if s.vanishes nullable then fronts nullable rest else []

namespace Cfg

/-- Adds the nonterminals with a rule all of whose symbols are known to vanish. -/
def vanishing (g : Cfg) (known : IdSet) : IdSet :=
  (g.rules.toList.filter (vanish known ·.rhs)).foldl (fun s r => s.insert r.lhs) known

def nullable (g : Cfg) : IdSet := saturate g.vanishing (g.rules.size + 1) ∅

/-- A terminal at the front of a rule begins what the nonterminal derives, and so does all that
begins what a nonterminal at the front derives. -/
def firstFlow (g : Cfg) : Flow where
  size := g.nonterminals
  seeds := g.rules.toList.flatMap fun r =>
    ((fronts g.nullable r.rhs).filterMap Sym.terminal?).map fun t => (r.lhs, .singleton t)
  links := g.rules.toList.flatMap fun r =>
    ((fronts g.nullable r.rhs).filterMap Sym.nonterminal?).map fun n => (n, r.lhs)

end Cfg

structure FirstSets where
  nullable : IdSet
  first : Array IdSet
  deriving Inhabited

def Cfg.firstSets (g : Cfg) : FirstSets := ⟨g.nullable, g.firstFlow.solve⟩

namespace FirstSets

def ofSym (f : FirstSets) : Sym → IdSet
  | .terminal t => .singleton t
  | .nonterminal n => f.first.getD n ∅

def vanish (f : FirstSets) (symbols : List Sym) : Bool := Lalr.vanish f.nullable symbols

/-- The terminals that begin a string derived from these symbols. -/
def ofSyms (f : FirstSets) (symbols : List Sym) : IdSet :=
  (fronts f.nullable symbols).foldl (fun s x => s ∪ f.ofSym x) ∅

end FirstSets
end Lalr
