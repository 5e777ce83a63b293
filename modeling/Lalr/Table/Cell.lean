import Lalr.Grammar.Basic

/-!
One cell of the action table: which of the moves that a state offers on a terminal is made, and
what becomes of the others.
-/

namespace Lalr

inductive Move
  | shift (state : Nat)
  | reduce (rule : Nat)
  | accept
  | error
  deriving DecidableEq, Inhabited

namespace Move

def text : Move → String
  | .shift q => "shift " ++ toString q
  | .reduce r => "reduce " ++ toString r
  | .accept => "accept"
  | .error => "error"

/-- To reduce by rule 0 is to accept. -/
def reduceBy (r : Nat) : Move := if r = 0 then .accept else .reduce r

end Move

inductive DropReason
  | precedence
  | associativity
  | order
  deriving DecidableEq, Inhabited

/-- A move that a state offered and that is not made. -/
structure Dropped where
  move : Move
  reason : DropReason
  deriving DecidableEq, Inhabited

/-- A cell without moves is an error; so is one whose moves were all dropped. -/
structure Cell where
  move : Move
  dropped : List Dropped
  deriving DecidableEq, Inhabited

/-- Moves between which nothing decides. A shift may clash with one reduction only, since one
reduction is chosen first. -/
inductive Clash
  | reduceReduce (rules : List Nat)
  | shiftReduce (rule : Nat)
  deriving DecidableEq, Inhabited

structure Verdict extends Cell where
  tie : Option Nat
  clashes : List Clash
  deriving DecidableEq, Inhabited

/-- What decides between moves. -/
structure Ranking where
  ofTerminal : Nat → Option Precedence
  ofRule : Nat → Option Precedence
  explicitLevel : Nat → Option Nat
  policy : TiePolicy

namespace Ranking

/-- Of several rules, those with the highest explicit level; all of them where none has one. -/
def favoured (rank : Ranking) (rules : List Nat) : List Nat :=
  match (rules.filterMap rank.explicitLevel).max? with
  | some level => rules.filter fun r => rank.explicitLevel r = some level
  | none => rules

def lost (favoured : List Nat) (winner : Nat) (rules : List Nat) : List Dropped :=
  (rules.filter (· ≠ winner)).map fun r =>
    ⟨.reduceBy r, if favoured.contains r then .order else .precedence⟩

/-- The higher level wins; on one level associativity decides. -/
def settle (rank : Ranking) (terminal target rule : Nat) : Option Cell :=
  match rank.ofTerminal terminal, rank.ofRule rule with
  | some s, some r =>
    let shift := Move.shift target
    let reduce := Move.reduceBy rule
    if r.level < s.level then some ⟨shift, [⟨reduce, .precedence⟩]⟩
    else if s.level < r.level then some ⟨reduce, [⟨shift, .precedence⟩]⟩
    else match s.associativity with
      | .left => some ⟨reduce, [⟨shift, .associativity⟩]⟩
      | .right => some ⟨shift, [⟨reduce, .associativity⟩]⟩
      | .nonassoc => some ⟨.error, [⟨shift, .associativity⟩, ⟨reduce, .associativity⟩]⟩
  | _, _ => none

/-- The shift, if any, against the reduction that was chosen. -/
def against (rank : Ranking) (terminal : Nat) (shift? : Option Nat) (rule : Nat) :
    Cell × List Clash :=
  match shift? with
  | none => (⟨.reduceBy rule, []⟩, [])
  | some target =>
    match rank.settle terminal target rule with
    | some cell => (cell, [])
    | none => (⟨.shift target, []⟩, [.shiftReduce rule])

/-- The rules come in ascending order, so that the earliest of the favoured ones is chosen. -/
def verdict (rank : Ranking) (terminal : Nat) (shift? : Option Nat) (rules : List Nat) : Verdict :=
  let favoured := rank.favoured rules
  match favoured.head? with
  | none => ⟨⟨(shift?.map Move.shift).getD .error, []⟩, none, []⟩
  | some winner =>
    let tied := 1 < favoured.length
    let (cell, clashes) := rank.against terminal shift? winner
    let tie := if tied ∧ rank.policy = .earliest then some winner else none
    let rejected := if tied ∧ rank.policy = .reject then [.reduceReduce favoured] else []
    ⟨⟨cell.move, lost favoured winner rules ++ cell.dropped⟩, tie, rejected ++ clashes⟩

end Ranking

def Grammar.ranking {ν : Type} (g : Grammar ν) : Ranking where
  ofTerminal t := g.terminals[t]?.bind Terminal.precedence
  ofRule r := g.productions[r]?.bind Production.precedence
  explicitLevel r := g.productions[r]?.bind Production.explicitLevel
  policy := g.policy

end Lalr
