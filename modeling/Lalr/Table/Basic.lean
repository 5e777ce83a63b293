import Lalr.Automaton.Lookahead
import Lalr.Table.Cell

/-!
Parse tables and what can be asked of them. Questions about a state or symbol that does not exist
have an answer too.
-/

namespace Lalr

variable {ν : Type}

structure Table (ν : Type) where
  grammar : Grammar ν
  automaton : LookaheadAutomaton
  rows : Array (Array Cell)
  gotos : Array (Array (Option Nat))
  diagnostics : List Diagnostic

namespace Table

def states (t : Table ν) : Nat := t.rows.size

def terminals (t : Table ν) : Nat := t.grammar.terminals.size

def nonterminals (t : Table ν) : Nat := t.grammar.nonterminals.size

def production? (t : Table ν) (r : Nat) : Option (Production ν) := t.grammar.productions[r]?

def ruleText (t : Table ν) (r : Nat) : String := ((t.production? r).map (·.text)).getD ""

def cell? (t : Table ν) (q terminal : Nat) : Option Cell := (t.rows.getD q #[])[terminal]?

def move (t : Table ν) (q terminal : Nat) : Move := ((t.cell? q terminal).map Cell.move).getD .error

/-- The state after a nonterminal. -/
def goto? (t : Table ν) (q n : Nat) : Option Nat := ((t.gotos.getD q #[])[n]?).join

/-- The state after a symbol, where terminals and nonterminals are numbered together. -/
def gotoId? (t : Table ν) (q id : Nat) : Option Nat :=
  if id < t.terminals then none else t.goto? q (id - t.terminals)

/-- The terminals on which a state has a move. -/
def expected (t : Table ν) (q : Nat) : List Nat :=
  (List.range t.terminals).filter fun a => t.move q a ≠ .error

def expectedNames (t : Table ν) (q : Nat) : List String :=
  (t.expected q).map t.grammar.terminalName

def describe (t : Table ν) : String :=
  Text.record "ParseTables" [
    ("n_states", toString t.states),
    ("n_terminals", toString t.terminals),
    ("n_productions", toString t.grammar.productions.size)]

end Table
end Lalr
