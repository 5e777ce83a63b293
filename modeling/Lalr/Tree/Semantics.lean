import Lalr.Template.Semantics
import Lalr.Tree.Value

/-!
Two semantics of trees. Both keep a journal with a line for every request, written before the
request is answered.
-/

namespace Lalr.Tree

abbrev Journal := Array String

abbrev Answer := Building Journal Value

def note (line : String) : Building Journal Unit := modify (·.push line)

def refuse (message : String) : Answer := throw (.because message)

/-- A name and how many values go with it. -/
def counted (name : String) (values : List Value) : String := name ++ "/" ++ toString values.length

def ofLiteral : Literal → Value
  | .null => .null
  | .bool b => .bool b
  | .int n => .int n
  | .str s => .str s

/-- The sum in 64 bits, around the ends. -/
def sumFrom (total : Int64) : List Value → Answer
  | [] => pure (.int total)
  | .int n :: vs => sumFrom (total + n) vs
  | v :: _ => refuse ("not an integer: " ++ v.text)

def isZero : Option Value → Bool
  | some (.int n) => n = 0
  | _ => false

def build (helper : String) (args : List Value) : Answer :=
  if helper = "Fail" then refuse ("Fail(" ++ ", ".intercalate (Value.texts args) ++ ")")
  else if helper = "Div" && isZero args[1]? then refuse "division by zero"
  else if helper = "Sum" then sumFrom 0 args
  else pure (.node helper args)

def send (receiver : Value) (name : String) (args : List Value) : Answer :=
  if name = "fail" then refuse "method failed"
  else match name, receiver with
    | "push", .list items => pure (.list (items ++ args))
    | _, _ => pure (.node ("." ++ name) (receiver :: args))

def select (receiver : Value) (name : String) : Answer :=
  if name = "fail" then refuse "field failed"
  else match name, receiver with
    | "len", .list items => pure (.int (.ofNat items.length))
    | _, _ => pure (.node ("#" ++ name) [receiver])

def native (name : String) (values : List Value) : Answer := do
  note ("native " ++ counted name values)
  if name = "sum" then sumFrom 0 values
  else if name = "count" then pure (.int (.ofNat values.length))
  else if name = "fail" then refuse "native failed"
  else pure (.node name values)

/-- Supports every kind of request. -/
def full : Semantics String Journal Value where
  literal l := do
    note ("literal " ++ l.text)
    pure (ofLiteral l)
  call h args := do
    note ("call " ++ counted h args)
    build h args
  list items := do
    note (counted "list" items)
    pure (.list items)
  method receiver m args := do
    note ("method " ++ counted m args)
    send receiver m args
  field receiver f := do
    note ("field " ++ f)
    select receiver f
  native := native

/-- Supports integers, strings and calls. -/
def bare : Semantics String Journal Value where
  literal l := do
    note ("literal " ++ l.text)
    match l with
    | .int n => pure (.int n)
    | .str s => pure (.str s)
    | l => refuse ("unsupported literal " ++ l.text)
  call h args := do
    note ("call " ++ counted h args)
    pure (.node h args)
  native := native

end Lalr.Tree
