import Lalr.Text.Quoted

/-!
Action templates: what a rule builds when it is reduced, as `let` bindings and a result over the
captured values of its right-hand side.
-/

namespace Lalr

inductive Literal
  | null
  | bool (value : Bool)
  | int (value : Int64)
  | str (text : String)
  deriving DecidableEq, Inhabited

def Literal.text : Literal → String
  | .null => "null"
  | .bool b => if b then "true" else "false"
  | .int n => toString n.toInt
  | .str s => Text.quoteLiteral s

/-- Captures and bindings are counted from 0. -/
inductive Expr
  | capture (index : Nat)
  | bound (index : Nat)
  | literal (value : Literal)
  | list (items : List Expr)
  | call (helper : String) (args : List Expr)
  | method (receiver : Expr) (name : String) (args : List Expr)
  | field (receiver : Expr) (name : String)
  deriving Inhabited

namespace Expr

mutual

/-- The expression and everything in it, outermost first and then in order of evaluation. -/
def nodes : Expr → List Expr
  | .capture i => [.capture i]
  | .bound i => [.bound i]
  | .literal l => [.literal l]
  | .list items => .list items :: nodesOf items
  | .call h args => .call h args :: nodesOf args
  | .method r m args => .method r m args :: (r.nodes ++ nodesOf args)
  | .field r f => .field r f :: r.nodes

def nodesOf : List Expr → List Expr
  | [] => []
  | e :: es => e.nodes ++ nodesOf es

end

def captured? : Expr → Option Nat
  | .capture i => some i
  | _ => none

def called? : Expr → Option String
  | .call h _ => some h
  | _ => none

mutual

/-- Template text, with the given names for the bindings. -/
def text (names : List String) : Expr → String
  | .capture i => "$" ++ toString (i + 1)
  | .bound i => names.getD i ("_" ++ toString i)
  | .literal l => l.text
  | .list items => "[" ++ ", ".intercalate (texts names items) ++ "]"
  | .call h args => h ++ "(" ++ ", ".intercalate (texts names args) ++ ")"
  | .method r m args =>
    r.text names ++ "." ++ m ++ "(" ++ ", ".intercalate (texts names args) ++ ")"
  | .field r f => r.text names ++ "." ++ f

def texts (names : List String) : List Expr → List String
  | [] => []
  | e :: es => e.text names :: texts names es

end

def bracket (parts : List String) : String := "(" ++ " ".intercalate parts ++ ")"

mutual

/-- The tree in brackets, head first. -/
def tree : Expr → String
  | .capture i => bracket ["capture", toString i]
  | .bound i => bracket ["local", toString i]
  | .literal .null => bracket ["null"]
  | .literal (.bool b) => bracket ["bool", (Literal.bool b).text]
  | .literal (.int n) => bracket ["int", (Literal.int n).text]
  | .literal (.str s) => bracket ["str", Text.quoteValue s]
  | .list items => bracket ("list" :: trees items)
  | .call h args => bracket ("call" :: h :: trees args)
  | .method r m args => bracket ("method" :: m :: r.tree :: trees args)
  | .field r f => bracket ["field", f, r.tree]

def trees : List Expr → List String
  | [] => []
  | e :: es => e.tree :: trees es

end

end Expr

/-- Bindings are evaluated in order, then the result. -/
structure Template where
  bindings : List (String × Expr)
  result : Expr
  deriving Inhabited

namespace Template

/-- The value of the first symbol, unchanged. -/
def passThrough : Template := ⟨[], .capture 0⟩

def isShorthand (t : Template) : Bool := t.bindings.isEmpty

def nodes (t : Template) : List Expr := t.bindings.flatMap (·.2.nodes) ++ t.result.nodes

def captures (t : Template) : List Nat := t.nodes.filterMap Expr.captured?

def helpers (t : Template) : List String := t.nodes.filterMap Expr.called?

def names (t : Template) : List String := t.bindings.map (·.1)

def text (t : Template) : String :=
  if t.isShorthand then t.result.text []
  else
    let lets := t.bindings.map fun (x, e) => " let " ++ x ++ " = " ++ e.text t.names ++ ";"
    "\x7b" ++ "".intercalate lets ++ " return " ++ t.result.text t.names ++ "; \x7d"

end Template
end Lalr
