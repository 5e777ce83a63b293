import Lalr.Cfg.Basic

/-!
The automaton of LR(0) item sets. Its states are numbered in order of discovery from the state of
the start item.
-/

namespace Lalr

/-- A rule and how many of its symbols are behind the dot. -/
structure Item where
  rule : Nat
  dot : Nat
  deriving DecidableEq, Inhabited

namespace Item

def start : Item := ⟨0, 0⟩

def advance (i : Item) : Item := ⟨i.rule, i.dot + 1⟩

def before (i j : Item) : Bool := i.rule < j.rule || (i.rule = j.rule && i.dot < j.dot)

/-- Puts an item into its place in an ascending list, if it is not there. -/
def insert (i : Item) : List Item → List Item
  | [] => [i]
  | j :: js => if i.before j then i :: j :: js else if i = j then j :: js else j :: insert i js

/-- In ascending order, each item once. -/
def sort (items : List Item) : List Item := items.foldr insert []

@[simp] theorem mem_insert {i j : Item} {items : List Item} :
    j ∈ insert i items ↔ j = i ∨ j ∈ items := by
  induction items with
  | nil => simp [insert]
  | cons k ks ih =>
    simp only [insert]
    split
    · simp
    · split
      · next h => simp [h]
      · simp only [List.mem_cons, ih]
        exact or_left_comm

@[simp] theorem mem_sort {i : Item} {items : List Item} : i ∈ sort items ↔ i ∈ items := by
  induction items with
  | nil => simp [sort]
  | cons j js ih => simpa [sort] using or_congr_right ih

end Item

/-- The kernel items come first in `items`. -/
structure State where
  kernel : List Item
  items : List Item
  transitions : List (Sym × Nat)
  deriving Inhabited

def State.target? (s : State) (x : Sym) : Option Nat := s.transitions.lookup x

namespace Cfg

/-- The symbols after the dot. -/
def rest (g : Cfg) (i : Item) : List Sym := (g.rhs i.rule).drop i.dot

def next? (g : Cfg) (i : Item) : Option Sym := (g.rest i).head?

def isComplete (g : Cfg) (i : Item) : Bool := (g.rhs i.rule).length = i.dot

/-- The items that begin the rules of a nonterminal. -/
def beginnings (g : Cfg) (n : Nat) : List Item := (g.rulesOf n).map (⟨·, 0⟩)

def predicted (g : Cfg) (i : Item) : List Item :=
  match g.next? i with
  | some (.nonterminal n) => g.beginnings n
  | _ => []

def closure (g : Cfg) (kernel : List Item) : List Item :=
  discover g.predicted (kernel.length + g.rules.size) kernel

/-- The kernel of the state that follows on a symbol. -/
def successor (g : Cfg) (items : List Item) (x : Sym) : List Item :=
  Item.sort ((items.filter fun i => g.next? i = some x).map Item.advance)

/-- The symbols after a dot, in order of appearance, with the kernels that follow on them. -/
def successors (g : Cfg) (items : List Item) : List (Sym × List Item) :=
  (items.filterMap g.next?).eraseDups.map fun x => (x, g.successor items x)

def allItems (g : Cfg) : List Item :=
  (List.range g.rules.size).flatMap fun r =>
    (List.range ((g.rhs r).length + 1)).map fun d => ⟨r, d⟩

/-- Kernels are sets of items, so there are no more of them than such sets. -/
def kernels (g : Cfg) : List (List Item) :=
  discover (fun kernel => (g.successors (g.closure kernel)).map (·.2)) (1 <<< g.allItems.length)
    [[.start]]

def stateOf (g : Cfg) (kernels : List (List Item)) (kernel : List Item) : State :=
  let items := g.closure kernel
  let transitions := (g.successors items).map fun (x, kernel) => (x, kernels.idxOf kernel)
  ⟨kernel, items, transitions⟩

def states (g : Cfg) : Array State := (g.kernels.map (g.stateOf g.kernels)).toArray

end Cfg
end Lalr
