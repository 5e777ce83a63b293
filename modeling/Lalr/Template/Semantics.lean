import Lalr.Template.Basic

/-!
What gives a template its meaning: a semantics builds values of type `V`, and may read and change a
context of type `σ` each time it is asked.
-/

namespace Lalr

variable {ν σ V α : Type}

/-- Why a semantics does not build a value. -/
inductive Refusal
  | because (message : String)
  | listUnsupported
  | methodUnsupported (name : String)
  | fieldUnsupported (name : String)
  deriving DecidableEq, Inhabited

def Refusal.message : Refusal → String
  | .because message => message
  | .listUnsupported => "list construction is not supported"
  | .methodUnsupported m => "method \"" ++ m ++ "\" is not supported"
  | .fieldUnsupported f => "field \"" ++ f ++ "\" is not supported"

/-- The context a semantics leaves counts also where it refuses. -/
abbrev Building (σ : Type) := ExceptT Refusal (StateM σ)

/-- `ν` names the actions that are not templates. -/
structure Semantics (ν σ V : Type) where
  literal : Literal → Building σ V
  call : String → List V → Building σ V
  list : List V → Building σ V := fun _ => throw .listUnsupported
  method : V → String → List V → Building σ V := fun _ m _ => throw (.methodUnsupported m)
  field : V → String → Building σ V := fun _ f => throw (.fieldUnsupported f)
  native : ν → List V → Building σ V

/-- Why an action has no value. -/
inductive ActionError
  | captureMissing (index : Nat)
  | boundMissing
  | refused (refusal : Refusal)
  deriving DecidableEq, Inhabited

def ActionError.message : ActionError → String
  | .captureMissing i => "capture $" ++ toString (i + 1) ++ " is not available"
  | .boundMissing => "let binding is used before it is defined"
  | .refused r => r.message

abbrev Acting (σ : Type) := ExceptT ActionError (StateM σ)

def asked (x : Building σ α) : Acting σ α := x.adapt .refused

end Lalr
