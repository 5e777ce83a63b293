import Lalr.Template.Semantics

/-!
The plain evaluator of templates: receivers before arguments, arguments from left to right, and
nothing after the first failure.
-/

namespace Lalr

variable {ν σ V : Type}

namespace Expr

mutual

def eval (sem : Semantics ν σ V) (captures bounds : List V) : Expr → Acting σ V
  | .capture i =>
    match captures[i]? with
    | some v => pure v
    | none => throw (.captureMissing i)
  | .bound i =>
    match bounds[i]? with
    | some v => pure v
    | none => throw .boundMissing
  | .literal l => asked (sem.literal l)
  | .list items => do asked (sem.list (← evalAll sem captures bounds items))
  | .call h args => do asked (sem.call h (← evalAll sem captures bounds args))
  | .method r m args => do
    let receiver ← r.eval sem captures bounds
    asked (sem.method receiver m (← evalAll sem captures bounds args))
  | .field r f => do asked (sem.field (← r.eval sem captures bounds) f)

def evalAll (sem : Semantics ν σ V) (captures bounds : List V) : List Expr → Acting σ (List V)
  | [] => pure []
  | e :: es => return (← e.eval sem captures bounds) :: (← evalAll sem captures bounds es)

end

/-- Each binding sees the ones before it. -/
def evalBindings (sem : Semantics ν σ V) (captures bounds : List V) :
    List Expr → Acting σ (List V)
  | [] => pure bounds
  | e :: es => do evalBindings sem captures (bounds ++ [← e.eval sem captures bounds]) es

end Expr

def Template.eval (sem : Semantics ν σ V) (captures : List V) (t : Template) : Acting σ V := do
  t.result.eval sem captures (← Expr.evalBindings sem captures [] (t.bindings.map (·.2)))

end Lalr
