import Lalr.Saturation

/-!
Context-free grammars over numbered symbols. Terminal 0 ends the input, nonterminal 0 stands for a
whole input, and rule 0 says of which nonterminal that is a sentence.
-/

namespace Lalr

inductive Sym
  | terminal (number : Nat)
  | nonterminal (number : Nat)
  deriving DecidableEq, Inhabited

def Sym.terminal? : Sym → Option Nat
  | .terminal t => some t
  | .nonterminal _ => none

def Sym.nonterminal? : Sym → Option Nat
  | .terminal _ => none
  | .nonterminal n => some n

structure Rule where
  lhs : Nat
  rhs : List Sym
  deriving DecidableEq, Inhabited

structure Cfg where
  nonterminals : Nat
  rules : Array Rule
  deriving DecidableEq, Inhabited

namespace Cfg

/-- The symbols of a rule, none if there is no such rule. -/
def rhs (g : Cfg) (r : Nat) : List Sym := (g.rules[r]?.map Rule.rhs).getD []

/-- The rules of a nonterminal, in ascending order. -/
def rulesOf (g : Cfg) (n : Nat) : List Nat :=
  (List.range g.rules.size).filter fun r => g.rules[r]?.map Rule.lhs = some n

/-- The nonterminals in the rules of a nonterminal. -/
def mentioned (g : Cfg) (n : Nat) : List Nat :=
  (g.rulesOf n).flatMap fun r => (g.rhs r).filterMap Sym.nonterminal?

/-- The nonterminals that a sentential form can contain. -/
def reachable (g : Cfg) : List Nat := discover g.mentioned (g.nonterminals + 1) [0]

end Cfg
end Lalr
