import Lalr.Text.Printable

/-!
Text in double quotes, in the two forms that output uses: literals as a template shows them, and
the strings inside semantic values.
-/

namespace Lalr.Text

def hex (c : Char) : List Char := Nat.toDigits 16 c.toNat

/-- Pads with zeros on the left. -/
def hexPadded (width : Nat) (c : Char) : List Char :=
  List.replicate (width - (hex c).length) '0' ++ hex c

def isPrintable (c : Char) : Bool := c = ' ' || !(unprintable.contains c || joining.contains c)

/-- What a backslash escape calls a character in a literal. -/
def literalEscape? : Char → Option Char
  | '\x00' => some '0'
  | '\t' => some 't'
  | '\n' => some 'n'
  | '\r' => some 'r'
  | '\\' => some '\\'
  | '"' => some '"'
  | _ => none

/-- A character that joins its neighbour or does not show is written by its number. -/
def literalChar (c : Char) : List Char :=
  match literalEscape? c with
  | some e => ['\\', e]
  | none => if isPrintable c then [c] else ['\\', 'u', '{'] ++ hex c ++ ['}']

def valueEscape? : Char → Option Char
  | '\x08' => some 'b'
  | '\t' => some 't'
  | '\n' => some 'n'
  | '\x0c' => some 'f'
  | '\r' => some 'r'
  | '\\' => some '\\'
  | '"' => some '"'
  | _ => none

/-- Only controls below the space are written by their number. -/
def valueChar (c : Char) : List Char :=
  match valueEscape? c with
  | some e => ['\\', e]
  | none => if c.toNat < 0x20 then ['\\', 'u'] ++ hexPadded 4 c else [c]

def quoteWith (write : Char → List Char) (s : String) : String :=
  .ofList ('"' :: s.toList.flatMap write ++ ['"'])

def quoteLiteral (s : String) : String := quoteWith literalChar s

def quoteValue (s : String) : String := quoteWith valueChar s

end Lalr.Text
