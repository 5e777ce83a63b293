import Lalr.Template.Basic
import Mathlib.Data.List.Basic

/-!
The captures of expressions and templates, in the order of the text, which is also the order of
evaluation.
-/

namespace Lalr.Expr

/-- The captures that are used, once for each use. -/
def captures (e : Expr) : List Nat := e.nodes.filterMap captured?

def capturesOf (es : List Expr) : List Nat := (nodesOf es).filterMap captured?

@[simp] theorem captures_capture (i : Nat) : (capture i).captures = [i] := rfl

@[simp] theorem captures_bound (i : Nat) : (bound i).captures = [] := rfl

@[simp] theorem captures_literal (l : Literal) : (literal l).captures = [] := rfl

@[simp] theorem captures_list (items : List Expr) : (list items).captures = capturesOf items := by
  simp [captures, capturesOf, nodes, List.filterMap_cons, captured?]

@[simp] theorem captures_call (h : String) (args : List Expr) :
    (call h args).captures = capturesOf args := by
  simp [captures, capturesOf, nodes, List.filterMap_cons, captured?]

@[simp] theorem captures_method (r : Expr) (m : String) (args : List Expr) :
    (method r m args).captures = r.captures ++ capturesOf args := by
  simp [captures, capturesOf, nodes, List.filterMap_cons, captured?]

@[simp] theorem captures_field (r : Expr) (f : String) : (field r f).captures = r.captures := by
  simp [captures, nodes, List.filterMap_cons, captured?]

@[simp] theorem capturesOf_nil : capturesOf [] = [] := rfl

@[simp] theorem capturesOf_cons (e : Expr) (es : List Expr) :
    capturesOf (e :: es) = e.captures ++ capturesOf es := by simp [captures, capturesOf, nodesOf]

theorem capturesOf_eq_flatMap (es : List Expr) : capturesOf es = es.flatMap captures := by
  induction es with
  | nil => rfl
  | cons e es ih => rw [capturesOf_cons, ih, List.flatMap_cons]

end Lalr.Expr

namespace Lalr.Template

theorem captures_eq (t : Template) :
    t.captures = Expr.capturesOf (t.bindings.map (·.2)) ++ t.result.captures := by
  rw [captures, nodes, List.filterMap_append, List.filterMap_flatMap, Expr.capturesOf_eq_flatMap,
    List.flatMap_map]
  rfl

end Lalr.Template
