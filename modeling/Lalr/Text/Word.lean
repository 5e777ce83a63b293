/-!
Words: what stands between separators in a list of names, and which words can name a symbol.
-/

namespace Lalr.Text

def isSeparator (c : Char) : Bool :=
  c = ' ' || c = '\t' || c = '\n' || c = '\x0c' || c = '\r'

def words (s : String) : List String :=
  ((s.toList.splitOnP isSeparator).filter (· ≠ [])).map .ofList

def isLetter (c : Char) : Bool := ('a' ≤ c && c ≤ 'z') || ('A' ≤ c && c ≤ 'Z')

def isDigit (c : Char) : Bool := '0' ≤ c && c ≤ '9'

/-- A letter, `_` or `$`, then letters, digits and `_`. -/
def isIdentifier (name : String) : Bool :=
  match name.toList with
  | [] => false
  | c :: cs =>
    (isLetter c || c = '_' || c = '$') && cs.all fun d => isLetter d || isDigit d || d = '_'

def isPunctuationChar (c : Char) : Bool :=
  '!' ≤ c && c ≤ '~' && !isLetter c && !isDigit c

/-- Words made of ASCII punctuation alone are terminals that need no declaration. -/
def isPunctuation (name : String) : Bool := name ≠ "" && name.toList.all isPunctuationChar

/-- Names that start with `$` are kept for the grammar's own symbols. -/
def isReserved (name : String) : Bool := name.toList.head? = some '$'

def isSymbolName (name : String) : Bool :=
  (isIdentifier name || isPunctuation name) && !isReserved name

end Lalr.Text
