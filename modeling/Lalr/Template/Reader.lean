import Lalr.Template.Lexeme

/-!
Reading a template from its lexemes. A name is a binding if a `let` before it introduced that name,
and otherwise starts the path of a helper. `let` and `return` are keywords only where a block
expects them.
-/

namespace Lalr.Template

inductive SyntaxFault
  | empty
  | trailing (found : Lexeme)
  | expectedMark (mark : Char) (found : Option Lexeme)
  | expectedName (found : Option Lexeme)
  | unknownName (path : String)
  | unexpected (found : Lexeme)
  | unexpectedEnd
  deriving DecidableEq

def SyntaxFault.message : SyntaxFault → String
  | .empty => "empty template"
  | .trailing l => "junk after the end of action: '" ++ l.text ++ "'"
  | .expectedMark c (some l) => "expected '" ++ c.toString ++ "', found '" ++ l.text ++ "'"
  | .expectedMark c none => "expected '" ++ c.toString ++ "' at the end"
  | .expectedName (some l) => "expected name, found '" ++ l.text ++ "'"
  | .expectedName none => "expected name at the end"
  | .unknownName path => "unknown name \"" ++ path ++ "\", expected a helper call or a let binding"
  | .unexpected l => "unexpected '" ++ l.text ++ "'"
  | .unexpectedEnd => "unexpected end of template"

/-- What was read, and the lexemes after it. -/
abbrev Reading (α : Type) := α × List Lexeme

def expectMark (c : Char) : List Lexeme → Except SyntaxFault (List Lexeme)
  | .mark d :: rest => if d = c then .ok rest else .error (.expectedMark c (some (.mark d)))
  | l :: _ => .error (.expectedMark c (some l))
  | [] => .error (.expectedMark c none)

def expectName : List Lexeme → Except SyntaxFault (Reading String)
  | .name x :: rest => .ok (x, rest)
  | l :: _ => .error (.expectedName (some l))
  | [] => .error (.expectedName none)

/-- The names after the first one of a helper path, each with its dot. -/
def readPath (path : String) : List Lexeme → Except SyntaxFault (Reading String)
  | .mark '.' :: .name x :: rest => readPath (path ++ "." ++ x) rest
  | .mark '.' :: rest => (expectName rest).map fun (x, rest) => (path ++ "." ++ x, rest)
  | rest => .ok (path, rest)

def constant? : String → Option Literal
  | "true" => some (.bool true)
  | "false" => some (.bool false)
  | "null" => some .null
  | _ => none

/-- Position of the latest binding of a name. -/
def latest? (names : List String) (x : String) : Option Nat :=
  (names.reverse.idxOf? x).map fun i => names.length - 1 - i

mutual

/-- The first argument of these readers bounds the depth of calls among them. -/
def readExpr (names : List String) : Nat → List Lexeme → Except SyntaxFault (Reading Expr)
  | 0, _ => .error .unexpectedEnd
  | n + 1, ls => do
    let (e, rest) ← readPrimary names n ls
    readMembers names e n rest

/-- Fields and method calls that follow an expression. -/
def readMembers (names : List String) (e : Expr) :
    Nat → List Lexeme → Except SyntaxFault (Reading Expr)
  | 0, _ => .error .unexpectedEnd
  | n + 1, .mark '.' :: rest => do
    let (x, rest) ← expectName rest
    match rest with
    | .mark '(' :: rest =>
      let (args, rest) ← readArgs names ')' n rest
      readMembers names (.method e x args) n rest
    | rest => readMembers names (.field e x) n rest
  | _, rest => .ok (e, rest)

/-- Expressions with commas between them, up to the closing mark. -/
def readArgs (names : List String) (close : Char) :
    Nat → List Lexeme → Except SyntaxFault (Reading (List Expr))
  | 0, _ => .error .unexpectedEnd
  | n + 1, ls =>
    if ls.head? = some (.mark close) then .ok ([], ls.tail)
    else readItems names close n ls

def readItems (names : List String) (close : Char) :
    Nat → List Lexeme → Except SyntaxFault (Reading (List Expr))
  | 0, _ => .error .unexpectedEnd
  | n + 1, ls => do
    let (e, rest) ← readExpr names n ls
    match rest with
    | .mark ',' :: rest =>
      let (es, rest) ← readItems names close n rest
      .ok (e :: es, rest)
    | rest => return ([e], ← expectMark close rest)

def readPrimary (names : List String) : Nat → List Lexeme → Except SyntaxFault (Reading Expr)
  | 0, _ => .error .unexpectedEnd
  | n + 1, ls =>
    match ls with
    | .capture i :: rest => .ok (.capture (i - 1), rest)
    | .int v :: rest => .ok (.literal (.int v), rest)
    | .str s :: rest => .ok (.literal (.str s), rest)
    | .mark '[' :: rest => do
      let (items, rest) ← readArgs names ']' n rest
      .ok (.list items, rest)
    | .mark '(' :: rest => do
      let (e, rest) ← readExpr names n rest
      return (e, ← expectMark ')' rest)
    | .name x :: rest =>
      match constant? x, latest? names x with
      | some l, _ => .ok (.literal l, rest)
      | none, some i => .ok (.bound i, rest)
      | none, none => do
        let (path, rest) ← readPath x rest
        match rest with
        | .mark '(' :: rest =>
          let (args, rest) ← readArgs names ')' n rest
          .ok (.call path args, rest)
        | _ => .error (.unknownName path)
    | .mark c :: _ => .error (.unexpected (.mark c))
    | [] => .error .unexpectedEnd

end

/-- Enough depth for any expression of that many lexemes. -/
def depth (ls : List Lexeme) : Nat := 4 * ls.length + 4

/-- The `let` bindings at the start of a block, after the given ones. -/
def readBindings :
    Nat → List (String × Expr) → List Lexeme → Except SyntaxFault (Reading (List (String × Expr)))
  | n + 1, bindings, .name "let" :: rest => do
    let (x, rest) ← expectName rest
    let rest ← expectMark '=' rest
    let (e, rest) ← readExpr (bindings.map (·.1)) (depth rest) rest
    let rest ← expectMark ';' rest
    readBindings n (bindings ++ [(x, e)]) rest
  | _, bindings, rest => .ok (bindings, rest)

def skip (l : Lexeme) (ls : List Lexeme) : List Lexeme := if ls.head? = some l then ls.tail else ls

/-- A block after its opening brace. -/
def readBlock (ls : List Lexeme) : Except SyntaxFault (Reading Template) := do
  let (bindings, rest) ← readBindings ls.length [] ls
  let rest := skip (.name "return") rest
  let (result, rest) ← readExpr (bindings.map (·.1)) (depth rest) rest
  let rest ← expectMark '}' (skip (.mark ';') rest)
  return (⟨bindings, result⟩, rest)

def readTemplate : List Lexeme → Except SyntaxFault (Reading Template)
  | [] => .error .empty
  | .mark '{' :: rest => readBlock rest
  | ls => do
    let (result, rest) ← readExpr [] (depth ls) ls
    return (⟨[], result⟩, rest)

def ofLexemes (ls : List Lexeme) : Except SyntaxFault Template := do
  let (t, rest) ← readTemplate ls
  match rest with
  | [] => .ok t
  | l :: _ => .error (.trailing l)

/-- Why text is no template. -/
inductive Malformation
  | lexical (fault : LexicalFault) (offset : Nat)
  | grammatical (fault : SyntaxFault)
  deriving DecidableEq

def Malformation.message : Malformation → String
  | .lexical fault offset => fault.message offset
  | .grammatical fault => fault.message

/-- The index counts from 1. -/
inductive Fault
  | malformed (why : Malformation)
  | captureOutOfRange (index : Nat)
  deriving DecidableEq

/-- Reads template text, with captures of any index. -/
def parse (text : String) : Except Malformation Template := do
  let ls ← (lexemes text).mapError fun (fault, offset) => .lexical fault offset
  (ofLexemes ls).mapError .grammatical

/-- Reads template text for a rule with that many symbols. -/
def ofText (text : String) (arity : Nat) : Except Fault Template := do
  let t ← (parse text).mapError .malformed
  match t.captures.find? (arity ≤ ·) with
  | some i => .error (.captureOutOfRange (i + 1))
  | none => .ok t

end Lalr.Template
