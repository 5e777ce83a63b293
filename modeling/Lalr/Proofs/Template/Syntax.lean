import Lalr.Template.Reader
import Lalr.Proofs.Lists
import Lalr.Proofs.Template.Captures
import Mathlib.Data.List.Induction

/-!
The grammar of templates, as derivation trees over lexemes. A tree is over the names that are bound
where it stands, so that there is none in which a name that is not bound is used for a value or one
that is bound is used for a helper.
-/

namespace Lalr.Template

/-- The position is that of the latest binding of the name. -/
structure IsLatest (names : List String) (x : String) (i : Nat) : Prop where
  getElem?_eq : names[i]? = some x
  not_after {j : Nat} : i < j → names[j]? ≠ some x

namespace IsLatest

variable {names : List String} {x y : String} {i j : Nat}

theorem unique (hi : IsLatest names x i) (hj : IsLatest names x j) : i = j := by
  rcases Nat.lt_trichotomy i j with hlt | rfl | hlt
  · exact absurd hj.getElem?_eq (hi.not_after hlt)
  · rfl
  · exact absurd hi.getElem?_eq (hj.not_after hlt)

theorem mem (h : IsLatest names x i) : x ∈ names := List.mem_of_getElem? h.getElem?_eq

theorem snoc_self (names : List String) (x : String) : IsLatest (names ++ [x]) x names.length where
  getElem?_eq := by simp
  not_after {j} hj := by
    have hnone : (names ++ [x])[j]? = none := List.getElem?_eq_none (by simp; omega)
    simp [hnone]

theorem snoc_iff (hxy : y ≠ x) : IsLatest (names ++ [y]) x i ↔ IsLatest names x i := by
  have hget : ∀ k : Nat, (names ++ [y])[k]? = some x ↔ names[k]? = some x := by
    intro k
    rcases Nat.lt_trichotomy k names.length with hlt | rfl | hlt
    · rw [List.getElem?_append_left hlt]
    · simp [hxy]
    · rw [List.getElem?_eq_none (by simp; omega), List.getElem?_eq_none (Nat.le_of_lt hlt)]
  constructor
  · exact fun h => ⟨(hget i).1 h.getElem?_eq, fun hj => mt (hget _).2 (h.not_after hj)⟩
  · exact fun h => ⟨(hget i).2 h.getElem?_eq, fun hj => mt (hget _).1 (h.not_after hj)⟩

end IsLatest

theorem latest?_snoc (names : List String) (x y : String) :
    latest? (names ++ [y]) x = if y = x then some names.length else latest? names x := by
  rw [latest?, List.reverse_append, List.reverse_singleton, List.singleton_append,
    List.idxOf?_cons]
  by_cases hxy : y = x
  · simp [hxy]
  · have hsub : ∀ k, names.length - 1 - k = names.length - (k + 1) := by omega
    simp [hxy, latest?, Function.comp_def, hsub]

theorem latest?_eq_some_iff {names : List String} {x : String} {i : Nat} :
    latest? names x = some i ↔ IsLatest names x i := by
  induction names using List.reverseRec with
  | nil =>
    refine iff_of_false (by simp [latest?]) fun h => ?_
    cases h.getElem?_eq
  | append_singleton names y ih =>
    rw [latest?_snoc]
    split
    · next heq =>
      subst heq
      have hself := IsLatest.snoc_self names y
      refine ⟨fun h => ?_, fun h => congrArg some (hself.unique h)⟩
      cases h
      exact hself
    · next hxy => rw [ih, IsLatest.snoc_iff hxy]

theorem latest?_eq_none_iff {names : List String} {x : String} :
    latest? names x = none ↔ x ∉ names := by
  simp [latest?, List.idxOf?_eq_none_iff]

mutual

/-- `expr := primary ('.' IDENT ['(' args ')'])*` -/
inductive Phrase (names : List String)
  | mk (head : Head names) (members : List (Member names))

/-- `primary := capture | integer | string | true | false | null | '[' args ']' | '(' expr ')' |
LOCAL | IDENT ('.' IDENT)* '(' args ')'`, where the names of constants are nothing else. -/
inductive Head (names : List String)
  | capture (index : Nat)
  | int (value : Int64)
  | str (text : String)
  | constant (x : String) (value : Literal) (hvalue : constant? x = some value)
  | list (items : List (Phrase names))
  | bracketed (phrase : Phrase names)
  | bound (x : String) (i : Nat) (hconstant : constant? x = none) (hlatest : IsLatest names x i)
  | call (x : String) (path : List String) (args : List (Phrase names))
    (hconstant : constant? x = none) (hfree : x ∉ names)

/-- A field, or a method with its arguments. -/
inductive Member (names : List String)
  | field (x : String)
  | method (x : String) (args : List (Phrase names))

end

variable {names : List String}

def pathLexemes (path : List String) : List Lexeme :=
  path.flatMap fun x => [.mark '.', .name x]

mutual

def Phrase.lexemes : Phrase names → List Lexeme
  | .mk head members => head.lexemes ++ membersLexemes members

def Head.lexemes : Head names → List Lexeme
  | .capture i => [.capture i]
  | .int v => [.int v]
  | .str s => [.str s]
  | .constant x _ _ => [.name x]
  | .list items => .mark '[' :: (argsLexemes items ++ [.mark ']'])
  | .bracketed p => .mark '(' :: (p.lexemes ++ [.mark ')'])
  | .bound x _ _ _ => [.name x]
  | .call x path args _ _ =>
    .name x :: (pathLexemes path ++ .mark '(' :: (argsLexemes args ++ [.mark ')']))

def Member.lexemes : Member names → List Lexeme
  | .field x => [.mark '.', .name x]
  | .method x args =>
    .mark '.' :: .name x :: .mark '(' :: (argsLexemes args ++ [.mark ')'])

def membersLexemes : List (Member names) → List Lexeme
  | [] => []
  | m :: ms => m.lexemes ++ membersLexemes ms

/-- `args := [expr (',' expr)*]` -/
def argsLexemes : List (Phrase names) → List Lexeme
  | [] => []
  | [p] => p.lexemes
  | p :: q :: ps => p.lexemes ++ .mark ',' :: argsLexemes (q :: ps)

end

mutual

def Phrase.expr : Phrase names → Expr
  | .mk head members => ofMembers head.expr members

def Head.expr : Head names → Expr
  | .capture i => .capture (i - 1)
  | .int v => .literal (.int v)
  | .str s => .literal (.str s)
  | .constant _ value _ => .literal value
  | .list items => .list (exprs items)
  | .bracketed p => p.expr
  | .bound _ i _ _ => .bound i
  | .call x path args _ _ => .call (".".intercalate (x :: path)) (exprs args)

def Member.expr (receiver : Expr) : Member names → Expr
  | .field x => .field receiver x
  | .method x args => .method receiver x (exprs args)

def ofMembers (receiver : Expr) : List (Member names) → Expr
  | [] => receiver
  | m :: ms => ofMembers (m.expr receiver) ms

def exprs : List (Phrase names) → List Expr
  | [] => []
  | p :: ps => p.expr :: exprs ps

end

/-- The first lexeme is none that a block takes for a keyword. -/
structure Phrase.Plain (p : Phrase names) : Prop where
  not_let : p.lexemes.head? ≠ some (.name "let")
  not_return : p.lexemes.head? ≠ some (.name "return")

/-- `('let' IDENT '=' expr ';')* ['return'] expr [';'] '}'` -/
inductive Block : List String → Type
  | binding {names : List String} (x : String) (p : Phrase names) (rest : Block (names ++ [x])) :
    Block names
  | result {names : List String} (keyword : Bool) (p : Phrase names) (semicolon : Bool)
    (hplain : keyword = false → p.Plain) : Block names

def opening (keyword : Bool) : List Lexeme := if keyword then [.name "return"] else []

def closing (semicolon : Bool) : List Lexeme :=
  (if semicolon then [.mark ';'] else []) ++ [.mark '}']

def Block.lexemes : {names : List String} → Block names → List Lexeme
  | _, .binding x p rest =>
    .name "let" :: .name x :: .mark '=' :: (p.lexemes ++ .mark ';' :: rest.lexemes)
  | _, .result keyword p semicolon _ => opening keyword ++ (p.lexemes ++ closing semicolon)

def Block.template (bindings : List (String × Expr)) : {names : List String} → Block names → Template
  | _, .binding x p rest => rest.template (bindings ++ [(x, p.expr)])
  | _, .result _ p _ _ => ⟨bindings, p.expr⟩

namespace Block

variable (x : String) (p : Phrase names) (rest : Block (names ++ [x])) (keyword semicolon : Bool)
  (hplain : keyword = false → p.Plain) (bindings : List (String × Expr))

@[simp] theorem lexemes_binding : (binding x p rest).lexemes =
    .name "let" :: .name x :: .mark '=' :: (p.lexemes ++ .mark ';' :: rest.lexemes) := rfl

@[simp] theorem lexemes_result : (result keyword p semicolon hplain).lexemes =
    opening keyword ++ (p.lexemes ++ closing semicolon) := rfl

@[simp] theorem template_binding :
    (binding x p rest).template bindings = rest.template (bindings ++ [(x, p.expr)]) := rfl

@[simp] theorem template_result :
    (result keyword p semicolon hplain).template bindings = ⟨bindings, p.expr⟩ := rfl

end Block

/-- `template := '{' block | expr` -/
inductive Derivation
  | bare (p : Phrase [])
  | block (b : Block [])

namespace Derivation

def lexemes : Derivation → List Lexeme
  | bare p => p.lexemes
  | block b => .mark '{' :: b.lexemes

/-- The template that is denoted. -/
def template : Derivation → Template
  | bare p => ⟨[], p.expr⟩
  | block b => b.template []

end Derivation

/-! The captures of an expression, in order. -/

def Lexeme.capture? : Lexeme → Option Nat
  | .capture i => some i
  | _ => none

/-- Lexemes count captures from 1. -/
def captureIndices (ls : List Lexeme) : List Nat := (ls.filterMap Lexeme.capture?).map (· - 1)

@[simp] theorem captureIndices_nil : captureIndices [] = [] := rfl

@[simp] theorem captureIndices_append (ls ls' : List Lexeme) :
    captureIndices (ls ++ ls') = captureIndices ls ++ captureIndices ls' := by
  simp [captureIndices]

@[simp] theorem captureIndices_capture (i : Nat) (ls : List Lexeme) :
    captureIndices (.capture i :: ls) = (i - 1) :: captureIndices ls := rfl

@[simp] theorem captureIndices_int (v : Int64) (ls : List Lexeme) :
    captureIndices (.int v :: ls) = captureIndices ls := rfl

@[simp] theorem captureIndices_str (s : String) (ls : List Lexeme) :
    captureIndices (.str s :: ls) = captureIndices ls := rfl

@[simp] theorem captureIndices_name (x : String) (ls : List Lexeme) :
    captureIndices (.name x :: ls) = captureIndices ls := rfl

@[simp] theorem captureIndices_mark (c : Char) (ls : List Lexeme) :
    captureIndices (.mark c :: ls) = captureIndices ls := rfl

@[simp] theorem captureIndices_pathLexemes (path : List String) :
    captureIndices (pathLexemes path) = [] := by
  induction path with
  | nil => rfl
  | cons x path ih => simpa [pathLexemes] using ih

mutual

theorem Phrase.captures_expr : ∀ p : Phrase names, p.expr.captures = captureIndices p.lexemes
  | .mk head members => by
    simp only [Phrase.expr, Phrase.lexemes, captureIndices_append, captures_ofMembers members,
      Head.captures_expr head]

theorem Head.captures_expr : ∀ h : Head names, h.expr.captures = captureIndices h.lexemes
  | .capture i => by simp [Head.expr, Head.lexemes]
  | .int v => by simp [Head.expr, Head.lexemes]
  | .str s => by simp [Head.expr, Head.lexemes]
  | .constant x value _ => by simp [Head.expr, Head.lexemes]
  | .list items => by simp [Head.expr, Head.lexemes, capturesOf_exprs items]
  | .bracketed p => by simp [Head.expr, Head.lexemes, p.captures_expr]
  | .bound x i _ _ => by simp [Head.expr, Head.lexemes]
  | .call x path args _ _ => by simp [Head.expr, Head.lexemes, capturesOf_exprs args]

theorem Member.captures_expr (e : Expr) :
    ∀ m : Member names, (m.expr e).captures = e.captures ++ captureIndices m.lexemes
  | .field x => by simp [Member.expr, Member.lexemes]
  | .method x args => by simp [Member.expr, Member.lexemes, capturesOf_exprs args]

theorem captures_ofMembers {e : Expr} : ∀ ms : List (Member names),
    (ofMembers e ms).captures = e.captures ++ captureIndices (membersLexemes ms)
  | [] => by simp [ofMembers, membersLexemes]
  | m :: ms => by
    simp only [ofMembers, membersLexemes, captures_ofMembers ms, m.captures_expr e,
      captureIndices_append, List.append_assoc]

theorem capturesOf_exprs :
    ∀ ps : List (Phrase names), Expr.capturesOf (exprs ps) = captureIndices (argsLexemes ps)
  | [] => by simp [exprs, argsLexemes]
  | [p] => by simp [exprs, argsLexemes, p.captures_expr]
  | p :: q :: ps => by
    rw [exprs, Expr.capturesOf_cons, capturesOf_exprs (q :: ps), p.captures_expr]
    simp [argsLexemes]

end

end Lalr.Template
