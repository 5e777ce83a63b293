import Lalr.IdSet
import Lalr.Template.Eval

/-!
Templates prepared for running: the last use of a captured value takes it out of its slot, and
every earlier use copies it.
-/

namespace Lalr

variable {ν σ V : Type}

inductive Code
  | take (slot : Nat)
  | copy (slot : Nat)
  | bound (index : Nat)
  | literal (value : Literal)
  | list (items : List Code)
  | call (helper : String) (args : List Code)
  | method (receiver : Code) (name : String) (args : List Code)
  | field (receiver : Code) (name : String)
  deriving Inhabited

structure Program where
  bindings : List Code
  result : Code
  deriving Inhabited

namespace Expr

mutual

/-- Code for an expression, given the captures that are used after it, with those used from it
on. -/
def compile (later : IdSet) : Expr → Code × IdSet
  | .capture i => (if later.contains i then .copy i else .take i, later.insert i)
  | .bound i => (.bound i, later)
  | .literal l => (.literal l, later)
  | .list items =>
    let (items, later) := compileAll later items
    (.list items, later)
  | .call h args =>
    let (args, later) := compileAll later args
    (.call h args, later)
  | .method r m args =>
    let (args, later) := compileAll later args
    let (r, later) := r.compile later
    (.method r m args, later)
  | .field r f =>
    let (r, later) := r.compile later
    (.field r f, later)

def compileAll (later : IdSet) : List Expr → List Code × IdSet
  | [] => ([], later)
  | e :: es =>
    let (es, later) := compileAll later es
    let (e, later) := e.compile later
    (e :: es, later)

end

end Expr

def Template.compile (t : Template) : Program :=
  let (result, later) := t.result.compile ∅
  ⟨(Expr.compileAll later (t.bindings.map (·.2))).1, result⟩

/-- Captured values by slot; a slot is empty once its value was taken. -/
abbrev Slots (V : Type) := List (Option V)

abbrev Running (σ V : Type) := StateT (Slots V) (Acting σ)

namespace Code

mutual

def run (sem : Semantics ν σ V) (bounds : List V) : Code → Running σ V V
  | .take i => do
    match (← get)[i]?.join with
    | some v => modify (·.set i none); pure v
    | none => throw (.captureMissing i)
  | .copy i => do
    match (← get)[i]?.join with
    | some v => pure v
    | none => throw (.captureMissing i)
  | .bound i =>
    match bounds[i]? with
    | some v => pure v
    | none => throw .boundMissing
  | .literal l => asked (sem.literal l)
  | .list items => do asked (sem.list (← runAll sem bounds items))
  | .call h args => do asked (sem.call h (← runAll sem bounds args))
  | .method r m args => do
    let receiver ← r.run sem bounds
    asked (sem.method receiver m (← runAll sem bounds args))
  | .field r f => do asked (sem.field (← r.run sem bounds) f)

def runAll (sem : Semantics ν σ V) (bounds : List V) : List Code → Running σ V (List V)
  | [] => pure []
  | c :: cs => return (← c.run sem bounds) :: (← runAll sem bounds cs)

end

def runBindings (sem : Semantics ν σ V) (bounds : List V) : List Code → Running σ V (List V)
  | [] => pure bounds
  | c :: cs => do runBindings sem (bounds ++ [← c.run sem bounds]) cs

end Code

namespace Program

def steps (sem : Semantics ν σ V) (p : Program) : Running σ V V := do
  p.result.run sem (← Code.runBindings sem [] p.bindings)

def run (sem : Semantics ν σ V) (captures : List V) (p : Program) : Acting σ V :=
  (p.steps sem).run' (captures.map some)

end Program
end Lalr
