import Lalr.Automaton.Basic
import Lalr.Cfg.First

/-!
LALR(1) lookaheads: the terminals that can follow when an item of a state is complete. They arise
where a rule is predicted, and flow from an item to the items that continue it.
-/

namespace Lalr

/-- As many items as any state has. -/
def maxItems (states : Array State) : Nat := states.foldl (fun n s => max n s.items.length) 0

/-- Each state has `stride` slots for its items. -/
structure Automaton where
  cfg : Cfg
  firstSets : FirstSets
  states : Array State
  stride : Nat
  deriving Inhabited

namespace Automaton

def ofCfg (g : Cfg) : Automaton :=
  let states := g.states
  ⟨g, g.firstSets, states, maxItems states⟩

/-- The slot of an item by its place in the state. -/
def slot (a : Automaton) (q k : Nat) : Nat := q * a.stride + k

/-- All items with their state, their place in it, and the symbols from the dot on. -/
def places (a : Automaton) : List (Nat × State × Nat × Item × List Sym) :=
  a.states.toList.zipIdx.flatMap fun (s, q) =>
    s.items.zipIdx.map fun (i, k) => (q, s, k, i, a.cfg.rest i)

/-- The slots of the rules that a nonterminal predicts in a state. -/
def predictedSlots (a : Automaton) (q : Nat) (s : State) (n : Nat) : List Nat :=
  (a.cfg.beginnings n).map fun i => a.slot q (s.items.idxOf i)

/-- The slot of the item in the state after the symbol. -/
def advancedSlot (a : Automaton) (s : State) (i : Item) (x : Sym) : List Nat :=
  match s.target? x with
  | some q => [a.slot q ((a.states.getD q default).items.idxOf i.advance)]
  | none => []

def seeds (a : Automaton) : List (Nat × IdSet) :=
  a.places.flatMap fun
    | (q, s, _, _, .nonterminal n :: rest) =>
      (a.predictedSlots q s n).map (·, a.firstSets.ofSyms rest)
    | _ => []

def links (a : Automaton) : List (Nat × Nat) :=
  a.places.flatMap fun
    | (_, _, _, _, []) => []
    | (q, s, k, i, x :: rest) =>
      let predicted := match x with
        | .nonterminal n => if a.firstSets.vanish rest then a.predictedSlots q s n else []
        | .terminal _ => []
      (predicted ++ a.advancedSlot s i x).map (a.slot q k, ·)

/-- The end of input follows the start item. -/
def flow (a : Automaton) : Flow where
  size := a.states.size * a.stride
  seeds := (a.slot 0 0, .singleton 0) :: a.seeds
  links := a.links

end Automaton

/-- An automaton with the lookaheads of its items by slot. -/
structure LookaheadAutomaton extends Automaton where
  lookaheads : Array IdSet
  deriving Inhabited

namespace LookaheadAutomaton

def ofCfg (g : Cfg) : LookaheadAutomaton :=
  let a := Automaton.ofCfg g
  ⟨a, a.flow.solve⟩

def lookahead (a : LookaheadAutomaton) (q k : Nat) : IdSet := a.lookaheads.getD (a.slot q k) ∅

end LookaheadAutomaton
end Lalr
