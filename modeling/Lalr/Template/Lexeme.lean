import Lalr.Template.Basic
import Lalr.Text.Blank
import Lalr.Text.Letters
import Lalr.Text.Word

/-!
Lexemes of template text. A string may stand in either kind of quote, names follow the Unicode
properties, digits are ASCII.
-/

namespace Lalr.Template

inductive Lexeme
  | capture (index : Nat)
  | int (value : Int64)
  | str (text : String)
  | name (text : String)
  | mark (char : Char)
  deriving DecidableEq, Inhabited

def Lexeme.text : Lexeme → String
  | .capture i => "$" ++ toString i
  | .int n => (Literal.int n).text
  | .str s => (Literal.str s).text
  | .name s => s
  | .mark c => c.toString

inductive LexicalFault
  | noIndex
  | zeroIndex
  | intRange (digits : String)
  | unclosed
  | stray (char : Char)
  deriving DecidableEq

/-- The offset counts bytes of UTF-8 before the lexeme that is at fault. -/
def LexicalFault.message (offset : Nat) : LexicalFault → String
  | .noIndex => "expected capture index after '$' at offset " ++ toString offset
  | .zeroIndex => "captures are numbered from $1"
  | .intRange digits => "integer literal out of range: " ++ digits
  | .unclosed => "string literal at offset " ++ toString offset ++ " is not closed"
  | .stray c => "unexpected character '" ++ c.toString ++ "' at offset " ++ toString offset

def decimal (digits : List Char) : Nat :=
  digits.foldl (fun n d => 10 * n + (d.toNat - '0'.toNat)) 0

def isNameStart (c : Char) : Bool := Text.isAlphabetic c || c = '_'

def isNameRest (c : Char) : Bool := Text.isAlphanumeric c || c = '_'

def isMark (c : Char) : Bool :=
  ['{', '}', '(', ')', '[', ']', '.', ',', ';', '='].contains c

/-- A backslash takes the next character as it is, except that `n` and `t` stand for a line feed
and a tab. -/
def unescape : Char → Char
  | 'n' => '\n'
  | 't' => '\t'
  | c => c

/-- The content of a string up to its closing quote, and what comes after. -/
def closeString (quote : Char) : List Char → Option (List Char × List Char)
  | [] => none
  | '\\' :: [] => none
  | '\\' :: e :: rest => (closeString quote rest).map fun (s, rest) => (unescape e :: s, rest)
  | c :: rest =>
    if c = quote then some ([], rest)
    else (closeString quote rest).map fun (s, rest) => (c :: s, rest)

def maxIndex : Nat := 1 <<< 64 - 1

def maxInt : Nat := 1 <<< 63 - 1

/-- The lexeme that starts with this character, and what comes after. -/
def lexemeAt (c : Char) (rest : List Char) : Except LexicalFault (Lexeme × List Char) :=
  if c = '$' then
    let digits := rest.takeWhile Text.isDigit
    if digits = [] || maxIndex < decimal digits then .error .noIndex
    else if decimal digits = 0 then .error .zeroIndex
    else .ok (.capture (decimal digits), rest.dropWhile Text.isDigit)
  else if Text.isDigit c then
    let digits := c :: rest.takeWhile Text.isDigit
    if maxInt < decimal digits then .error (.intRange (.ofList digits))
    else .ok (.int (.ofNat (decimal digits)), rest.dropWhile Text.isDigit)
  else if c = '"' || c = '\'' then
    match closeString c rest with
    | some (s, rest) => .ok (.str (.ofList s), rest)
    | none => .error .unclosed
  else if isNameStart c then
    .ok (.name (.ofList (c :: rest.takeWhile isNameRest)), rest.dropWhile isNameRest)
  else if isMark c then .ok (.mark c, rest)
  else .error (.stray c)

/-- A fault comes with the text from the lexeme at fault to the end. The first argument bounds the
number of lexemes and blanks. -/
def lexemesIn : Nat → List Char → Except (LexicalFault × List Char) (List Lexeme)
  | 0, _ => .ok []
  | _, [] => .ok []
  | n + 1, c :: rest =>
    if Text.isBlank c then lexemesIn n rest
    else match lexemeAt c rest with
      | .error fault => .error (fault, c :: rest)
      | .ok (l, rest) => (lexemesIn n rest).map (l :: ·)

def utf8Length (cs : List Char) : Nat := cs.foldl (fun n c => n + c.utf8Size) 0

/-- All lexemes of the text, or the fault and its offset. -/
def lexemes (text : String) : Except (LexicalFault × Nat) (List Lexeme) :=
  let cs := text.toList
  (lexemesIn cs.length cs).mapError fun (fault, rest) => (fault, utf8Length cs - utf8Length rest)

end Lalr.Template
