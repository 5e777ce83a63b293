import Lalr.Parser.Error
import Lalr.Table.Basic

/-!
The parser: a stack that a table drives over tokens, running the action of a rule each time it
reduces by it. Tokens can be fed one by one or as a list.
-/

namespace Lalr

variable {ν σ V : Type}

structure Token (V : Type) where
  terminal : String
  value : V
  location : Location
  deriving Inhabited

/-- The move for a terminal, or for its fallback where it has none of its own. -/
def Table.lookup (t : Table ν) (q terminal : Nat) : Move :=
  match t.move q terminal, t.grammar.fallback? terminal with
  | .error, some fallback => t.move q fallback
  | m, _ => m

structure Frame (V : Type) where
  state : Nat
  value : V
  location : Location
  deriving Inhabited

/-- Top first. Below all frames is state 0. -/
abbrev Stack (V : Type) := List (Frame V)

def Stack.state : Stack V → Nat
  | [] => 0
  | f :: _ => f.state

inductive Lookahead (V : Type)
  | token (terminal : Nat) (value : V)
  | endOfInput

def Lookahead.terminal : Lookahead V → Nat
  | .token t _ => t
  | .endOfInput => 0

/-- What a table drives: each rule makes a value of the values of its right-hand side. -/
structure Machine (ν σ V : Type) where
  table : Table ν
  act : Nat → List V → Acting σ V

/-- The rules act as the productions say. -/
def Machine.ofSemantics (t : Table ν) (sem : Semantics ν σ V) : Machine ν σ V where
  table := t
  act r values :=
    match t.production? r with
    | some p => p.run sem values
    | none => throw (.refused (.because "no such rule"))

/-- The context that actions leave counts also where parsing fails. -/
abbrev Parsing (σ : Type) := ExceptT ParseError (StateM σ)

/-- What a lookahead leads to in the end. -/
inductive Ending (V : Type)
  | shifted (stack : Stack V)
  | accepted (value : V) (stack : Stack V)

def Ending.stack : Ending V → Stack V
  | .shifted stack => stack
  | .accepted _ stack => stack

/-- What one move leads to. -/
inductive Step (V : Type)
  | reduced (stack : Stack V)
  | ended (ending : Ending V)

namespace Machine

/-- The action of a rule whose left-hand side stands there. -/
def perform (m : Machine ν σ V) (r : Nat) (values : List V) (here : Location) : Parsing σ V :=
  (m.act r values).adapt (.action (m.table.ruleText r) here)

/-- The values of the right-hand side give way to that of the left. It stands where the first of
them stands, or where the lookahead does if there are none. -/
def reduce (m : Machine ν σ V) (stack : Stack V) (r : Nat) (here : Location) :
    Parsing σ (Stack V) :=
  match m.table.production? r with
  | none => throw (.missingGoto stack.state ("#" ++ toString r))
  | some p => do
    let popped := stack.take p.rule.rhs.length
    let below : Stack V := stack.drop p.rule.rhs.length
    let location := (popped.getLast?.map Frame.location).getD here
    let value ← m.perform r (popped.reverse.map Frame.value) location
    match m.table.goto? below.state p.rule.lhs with
    | some q => return ⟨q, value, location⟩ :: below
    | none => throw (.missingGoto below.state p.lhs)

def step (m : Machine ν σ V) (stack : Stack V) (ahead : Lookahead V) (here : Location) :
    Parsing σ (Step V) :=
  match m.table.lookup stack.state ahead.terminal with
  | .shift q =>
    match ahead with
    | .token _ v => pure (.ended (.shifted (⟨q, v, here⟩ :: stack)))
    | .endOfInput => throw .noValue
  | .reduce r => .reduced <$> m.reduce stack r here
  | .accept =>
    match stack with
    | f :: below => pure (.ended (.accepted f.value below))
    | [] => throw .noValue
  | .error =>
    throw (.unexpected here (m.table.grammar.terminalName ahead.terminal)
      (m.table.expectedNames stack.state))

end Machine

/-- A stack, and the lookahead that it is to take. -/
structure Turn (V : Type) where
  stack : Stack V
  ahead : Lookahead V
  here : Location

namespace Turn

variable (m : Machine ν σ V)

/-- Moves until the lookahead is shifted or the input accepted. There is no result where the moves
do not end. -/
def advance (turn : Turn V) : StateT σ Option (Except ParseError (Ending V)) := fun context =>
  match (m.step turn.stack turn.ahead turn.here).run.run context with
  | (.ok (.reduced stack), context) => ({ turn with stack } : Turn V).advance.run context
  | (.ok (.ended ending), context) => some (.ok ending, context)
  | (.error e, context) => some (.error e, context)
partial_fixpoint

end Turn

def Machine.advance (m : Machine ν σ V) (ahead : Lookahead V) (here : Location) (stack : Stack V)
    (context : σ) : Option (Except ParseError (Ending V) × σ) :=
  Turn.advance m ⟨stack, ahead, here⟩ context

/-- A parse in progress. The location is that of the last token. -/
structure Parser (σ V : Type) where
  context : σ
  stack : Stack V := []
  location : Location := {}

namespace Parser

/-- The next token starts a new parse; the context is kept. -/
def reset (p : Parser σ V) : Parser σ V := { context := p.context }

def feed (m : Machine ν σ V) (p : Parser σ V) (ahead : Lookahead V) (here : Location) :
    Option (Except ParseError (Ending V) × σ) :=
  m.advance ahead here p.stack p.context

/-- Takes the next token. After a failure a new parse starts. -/
def addToken (m : Machine ν σ V) (p : Parser σ V) (t : Token V) :
    Option (Except ParseError Unit × Parser σ V) :=
  match m.table.grammar.terminal? t.terminal with
  | none | some 0 => some (.error (.unknownTerminal t.terminal t.location), p.reset)
  | some terminal => do
    match ← p.feed m (.token terminal t.value) t.location with
    | (.ok ending, context) =>
      return (.ok (), { context, stack := ending.stack, location := t.location })
    | (.error e, context) => return (.error e, { context })

/-- Takes the end of input. After it a new parse starts. -/
def finish (m : Machine ν σ V) (p : Parser σ V) (here : Location) :
    Option (Except ParseError V × Parser σ V) := do
  match ← p.feed m .endOfInput here with
  | (.ok (.accepted v _), context) => return (.ok v, { context })
  | (.ok (.shifted _), context) => return (.error .noValue, { context })
  | (.error e, context) => return (.error e, { context })

/-- Takes tokens up to the first that ends the input, or to the last one, and then the end of
input. -/
def addTokens (m : Machine ν σ V) (p : Parser σ V) :
    List (Token V) → Option (Except ParseError V × Parser σ V)
  | [] => p.finish m p.location
  | t :: ts =>
    if t.terminal = Grammar.endName then p.finish m t.location
    else do
      match ← p.addToken m t with
      | (.ok (), p) => p.addTokens m ts
      | (.error e, p) => return (.error e, p)

/-- Parses a whole input, whatever came before it. -/
def parse (m : Machine ν σ V) (p : Parser σ V) (ts : List (Token V)) :
    Option (Except ParseError V × Parser σ V) :=
  p.reset.addTokens m ts

end Parser
end Lalr
