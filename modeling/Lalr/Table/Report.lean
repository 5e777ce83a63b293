import Lalr.Table.Basic
import Lalr.Text.Column

/-!
A description of a table for readers: the items and moves of every state, then the symbols.
-/

namespace Lalr

variable {ν : Type}

namespace Table

/-- Complete items have the number of their rule in front. -/
def itemLine (t : Table ν) (i : Item) : String :=
  let number :=
    if t.automaton.cfg.isComplete i then
      "    " ++ Text.alignRight 5 ("(" ++ toString i.rule ++ ")") ++ " "
    else Text.spaces 10
  number ++ ((t.production? i.rule).map (·.itemText i.dot)).getD ""

/-- What happens on a symbol. -/
def onSymbol (name what : String) : String := Text.alignRight 30 name ++ " " ++ what

/-- A cell without moves has no line. -/
def moveLine? (t : Table ν) (name : String) (cell : Cell) : Option String :=
  match cell.move with
  | .shift q => some (onSymbol name ("shift        " ++ toString q))
  | .reduce r =>
    some (onSymbol name ("reduce       " ++ Text.alignLeft 7 (toString r) ++ " " ++ t.ruleText r))
  | .accept => some (onSymbol name "accept")
  | .error => if cell.dropped.isEmpty then none else some (onSymbol name "error")

def DropReason.text : DropReason → String
  | .precedence => "dropped by precedence"
  | .associativity => "dropped by associativity"
  | .order => "dropped by rule order"

def droppedLine? (name : String) (d : Dropped) : Option String :=
  let because := " -- " ++ DropReason.text d.reason
  match d.move with
  | .shift q => some (onSymbol name ("shift        " ++ Text.alignLeft 7 (toString q) ++ because))
  | .reduce r => some (onSymbol name ("reduce       " ++ Text.alignLeft 7 (toString r) ++ because))
  | _ => none

/-- The cells of a state with the names of their terminals. -/
def namedCells (t : Table ν) (q : Nat) : List (String × Cell) :=
  t.grammar.terminalNames.zip (t.rows.getD q #[]).toList

def gotoLines (t : Table ν) (q : Nat) : List String :=
  (t.grammar.nonterminals.toList.zip (t.gotos.getD q #[]).toList).filterMap fun (name, target) =>
    target.map fun target => onSymbol name ("goto         " ++ toString target)

def stateLines (t : Table ν) (kernelOnly showDropped : Bool) (q : Nat) (s : State) : List String :=
  let items := if kernelOnly then s.kernel else s.items
  let cells := t.namedCells q
  let dropped :=
    if showDropped then
      cells.flatMap fun (name, cell) => cell.dropped.filterMap (droppedLine? name)
    else []
  ("State " ++ toString q ++ ":") :: items.map t.itemLine
    ++ "" :: cells.filterMap (fun (name, cell) => t.moveLine? name cell)
    ++ t.gotoLines q ++ dropped ++ [""]

def terminalNote (t : Terminal) : String :=
  match t.precedence with
  | some p => " (" ++ p.associativity.text ++ " " ++ toString p.level ++ ")"
  | none => ""

/-- Whether it vanishes, and what can begin it. -/
def nonterminalNote (t : Table ν) (n : Nat) : String :=
  let f := t.automaton.firstSets
  let marks := (if f.nullable.contains n then ["<lambda>"] else [])
    ++ (f.ofSym (.nonterminal n)).toList.map t.grammar.terminalName
  ":" ++ "".intercalate (marks.map (" " ++ ·))

def symbolLines (t : Table ν) : List String :=
  let terminals := t.grammar.terminals.toList.map fun a => a.name ++ terminalNote a
  let nonterminals := t.grammar.nonterminals.toList.zipIdx.map fun (name, n) =>
    name ++ t.nonterminalNote n
  (terminals ++ nonterminals).zipIdx.map fun (line, id) =>
    " " ++ Text.alignRight 3 (toString id) ++ ": " ++ line

def reportLines (t : Table ν) (kernelOnly showDropped : Bool) : List String :=
  (t.automaton.states.toList.zipIdx.flatMap fun (s, q) => t.stateLines kernelOnly showDropped q s)
    ++ String.ofList (List.replicate 52 '-') :: "Symbols:" :: t.symbolLines

/-- Every line ends with a line feed. -/
def report (t : Table ν) (kernelOnly showDropped : Bool) : String :=
  "".intercalate ((t.reportLines kernelOnly showDropped).map (· ++ "\n"))

end Table
end Lalr
