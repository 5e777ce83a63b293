import Lalr.Text.Quoted

/-!
Tree values: the results of a semantics that only records what was built.
-/

namespace Lalr.Tree

inductive Value
  | null
  | bool (value : Bool)
  | int (value : Int64)
  | str (text : String)
  | list (items : List Value)
  | node (name : String) (args : List Value)
  deriving Inhabited

namespace Value

mutual

def text : Value → String
  | .null => "null"
  | .bool b => if b then "true" else "false"
  | .int n => toString n.toInt
  | .str s => Text.quoteValue s
  | .list items => "[" ++ ", ".intercalate (texts items) ++ "]"
  | .node name args => name ++ "(" ++ ", ".intercalate (texts args) ++ ")"

def texts : List Value → List String
  | [] => []
  | v :: vs => v.text :: texts vs

end

end Value
end Lalr.Tree
