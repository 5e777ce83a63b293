import Lalr.Grammar.Assembly
import Lalr.Table.Basic
import Lalr.Table.Error

/-!
Building the table of a grammar. Every cell gets a verdict; a clash in any of them, or a rule that
no cell reduces by and that no earlier rule took the place of, keeps the table from being built.
-/

namespace Lalr

variable {ν : Type}

namespace LookaheadAutomaton

/-- The rules that are complete in a state, in ascending order, with their lookaheads. -/
def reductions (a : LookaheadAutomaton) (q : Nat) : List (Nat × IdSet) :=
  let items := (a.states.getD q default).items
  (List.range a.cfg.rules.size).filterMap fun r =>
    (items.idxOf? ⟨r, (a.cfg.rhs r).length⟩).map fun k => (r, a.lookahead q k)

/-- What a state has to say on each terminal. -/
def verdicts (a : LookaheadAutomaton) (rank : Ranking) (terminals q : Nat) : Array Verdict :=
  let s := a.states.getD q default
  let reductions := a.reductions q
  (Array.range terminals).map fun t =>
    rank.verdict t (s.target? (.terminal t))
      ((reductions.filter fun (_, lookahead) => lookahead.contains t).map (·.1))

def gotos (a : LookaheadAutomaton) (q : Nat) : Array (Option Nat) :=
  (Array.range a.cfg.nonterminals).map fun n =>
    (a.states.getD q default).target? (.nonterminal n)

end LookaheadAutomaton

/-- A grammar with its automaton and the verdicts on all cells. -/
structure Analysis (ν : Type) where
  grammar : Grammar ν
  automaton : LookaheadAutomaton
  verdicts : Array (Array Verdict)

namespace Analysis

def ofGrammar (g : Grammar ν) : Analysis ν :=
  let a := LookaheadAutomaton.ofCfg g.cfg
  ⟨g, a, (Array.range a.states.size).map (a.verdicts g.ranking g.terminals.size)⟩

/-- All verdicts with state and terminal, row by row. -/
def cells (a : Analysis ν) : List (Nat × Nat × Verdict) :=
  a.verdicts.toList.zipIdx.flatMap fun (row, q) => row.toList.zipIdx.map fun (v, t) => (q, t, v)

def ruleText (a : Analysis ν) (r : Nat) : String :=
  (a.grammar.productions[r]?.map (·.text)).getD ""

def itemText (a : Analysis ν) (i : Item) : String :=
  (a.grammar.productions[i.rule]?.map (·.itemText i.dot)).getD ""

def itemTexts (a : Analysis ν) (q : Nat) : List String :=
  (a.automaton.states.getD q default).items.map a.itemText

def conflict (a : Analysis ν) (q t : Nat) : Clash → Conflict
  | .reduceReduce rules =>
    ⟨.reduceReduce, q, a.grammar.terminalName t, a.itemTexts q, rules.map a.ruleText⟩
  | .shiftReduce rule =>
    ⟨.shiftReduce, q, a.grammar.terminalName t, a.itemTexts q, [a.ruleText rule]⟩

def conflicts (a : Analysis ν) : List Conflict :=
  a.cells.flatMap fun (q, t, v) => v.clashes.map (a.conflict q t)

def ties (a : Analysis ν) : List Diagnostic :=
  a.cells.filterMap fun (q, t, v) => do
    let p ← a.grammar.productions[← v.tie]?
    return ⟨p.site, .tieByOrder q (a.grammar.terminalName t) p.text⟩

def isReduced (a : Analysis ν) (r : Nat) : Bool :=
  a.cells.any fun (_, _, v) => v.move = .reduceBy r

/-- An earlier rule took its place in some cell. -/
def isDisplaced (a : Analysis ν) (r : Nat) : Bool :=
  a.cells.any fun (_, _, v) => v.dropped.contains ⟨.reduceBy r, .order⟩

/-- The rules that no cell reduces by. -/
def unreduced (a : Analysis ν) : List (Nat × Production ν) :=
  (a.grammar.productions.toList.zipIdx.map fun (p, r) => (r, p)).filter
    fun (r, _) => !a.isReduced r

def neverReduced (a : Analysis ν) : List Diagnostic :=
  a.unreduced.map fun (_, p) => ⟨p.site, .neverReduced p.text⟩

def table (a : Analysis ν) : Table ν where
  grammar := a.grammar
  automaton := a.automaton
  rows := a.verdicts.map fun row => row.map Verdict.toCell
  gotos := (Array.range a.automaton.states.size).map a.automaton.gotos
  diagnostics := a.grammar.diagnostics ++ a.ties ++ a.neverReduced

def build (a : Analysis ν) : Except BuildError (Table ν) :=
  match a.conflicts, a.unreduced.find? fun (r, _) => !a.isDisplaced r with
  | [], none => .ok a.table
  | [], some (_, p) => .error (.neverReduced p.site p.text)
  | conflicts, _ => .error (.conflicts conflicts)

end Analysis

def Grammar.build (g : Grammar ν) : Except BuildError (Table ν) := (Analysis.ofGrammar g).build

/-- Assembles the declarations and builds the table. -/
def Spec.build (spec : Spec ν) : Except BuildError (Table ν) := do
  (← spec.assemble.mapError .grammar).build

end Lalr
