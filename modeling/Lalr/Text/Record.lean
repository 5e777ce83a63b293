import Lalr.Text.Quoted

/-!
One-line descriptions of values: records with named fields, lists, and optional strings.
-/

namespace Lalr.Text

def record (name : String) (fields : List (String × String)) : String :=
  name ++ " \x7b " ++ ", ".intercalate (fields.map fun (f, v) => f ++ ": " ++ v) ++ " \x7d"

def listed (items : List String) : String := "[" ++ ", ".intercalate items ++ "]"

def quotedOption : Option String → String
  | some s => "Some(" ++ quoteLiteral s ++ ")"
  | none => "None"

end Lalr.Text
