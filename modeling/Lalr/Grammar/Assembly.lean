import Lalr.Grammar.Spec

/-!
From declarations to a grammar. Whether the declarations fit together is asked first, and the
grammar is made of declarations that do.
-/

namespace Lalr

variable {ν : Type}

/-- The names of symbols, each in the place of its number. -/
structure Names where
  terminals : List String
  nonterminals : List String
  deriving DecidableEq, Inhabited

namespace Names

def symbol (names : Names) (name : String) : Sym :=
  match names.nonterminals.idxOf? name with
  | some n => .nonterminal n
  | none => .terminal (names.terminals.idxOf name)

def rule (names : Names) (r : NamedRule ν) : Rule :=
  ⟨names.nonterminals.idxOf r.lhs, r.rhs.map names.symbol⟩

end Names

namespace Spec

def tokenNames (spec : Spec ν) : List String := spec.tokens.map (·.1)

/-- The nonterminals in order of first definition. -/
def lhsNames (spec : Spec ν) : List String := (spec.rules.map (·.lhs)).eraseDups

/-- The one that was declared, or else that of the first rule. -/
def startName (spec : Spec ν) : String :=
  spec.start.getD ((spec.rules.head?.map (·.lhs)).getD "")

/-- End of input, tokens, and what else is used as a terminal, in order of appearance. -/
def terminalNames (spec : Spec ν) : List String :=
  let lhsNames := spec.lhsNames
  (Grammar.endName :: spec.tokenNames
    ++ (spec.rules.flatMap (·.rhs)).filter (!lhsNames.contains ·)
    ++ spec.bands.flatMap BandSpec.names
    ++ spec.fallbacks.flatMap fun f => [f.target, f.source]).eraseDups

def names (spec : Spec ν) : Names := ⟨spec.terminalNames, Grammar.acceptName :: spec.lhsNames⟩

def acceptRule (spec : Spec ν) : NamedRule ν :=
  ⟨(spec.rules.head?.map (·.site)).getD default, Grammar.acceptName, [spec.startName], none,
    .template .passThrough⟩

def allRules (spec : Spec ν) : List (NamedRule ν) := spec.acceptRule :: spec.rules

def cfg (spec : Spec ν) : Cfg :=
  let names := spec.names
  ⟨names.nonterminals.length, (spec.allRules.map names.rule).toArray⟩

/-- Levels count from 1 in the order of the bands. -/
def precedenceOf (spec : Spec ν) (name : String) : Option Precedence :=
  spec.bands.zipIdx.findSome? fun (b, i) =>
    if b.names.contains name then some ⟨i + 1, b.associativity⟩ else none

/-- That of the rule's own precedence symbol, or else that of the last symbol that has one. -/
def rulePrecedence (spec : Spec ν) (r : NamedRule ν) : Option Precedence :=
  match r.precedenceSymbol with
  | some name => spec.precedenceOf name
  | none => r.rhs.reverse.findSome? spec.precedenceOf

/-! Faults, in the order in which they are looked for. -/

def emptyFault? (spec : Spec ν) : Option GrammarError :=
  if spec.rules.isEmpty then some .emptyGrammar else none

def tokenFault? (spec : Spec ν) : Option GrammarError :=
  let tokens := spec.tokenNames
  spec.rules.findSome? fun r =>
    if tokens.contains r.lhs then some (.tokenAsLhs r.site r.lhs) else none

def startFault? (spec : Spec ν) : Option GrammarError :=
  if spec.lhsNames.contains spec.startName then none else some (.unknownStart spec.startName)

def undefinedFault? (spec : Spec ν) : Option GrammarError :=
  let defined := spec.lhsNames ++ spec.tokenNames
  spec.rules.findSome? fun r => r.rhs.findSome? fun name =>
    if defined.contains name || Text.isPunctuation name then none
    else some (.undefinedNonterminal r.site name r.text)

def bandFault? (spec : Spec ν) : Option GrammarError :=
  let lhsNames := spec.lhsNames
  spec.bands.findSome? fun b => b.names.findSome? fun name =>
    if lhsNames.contains name then some (.precedenceOnNonterminal b.site name) else none

def fallbackFault? (spec : Spec ν) : Option GrammarError :=
  let lhsNames := spec.lhsNames
  spec.fallbacks.findSome? fun f => [f.target, f.source].findSome? fun name =>
    if lhsNames.contains name then some (.fallbackOnNonterminal f.site name) else none

def precedenceSymbolFault? (spec : Spec ν) (r : NamedRule ν) : Option GrammarError :=
  match r.precedenceSymbol with
  | some name =>
    if (spec.precedenceOf name).isSome then none else some (.precedenceSymbolUnknown r.site name)
  | none => none

def helperFault? (spec : Spec ν) (r : NamedRule ν) : Option GrammarError :=
  match r.body with
  | .template t =>
    (t.helpers.find? (!spec.helpers.contains ·)).map fun helper => .unknownHelper r.site helper
  | .native _ => none

def ruleFault? (spec : Spec ν) : Option GrammarError :=
  spec.rules.findSome? fun r => spec.precedenceSymbolFault? r <|> spec.helperFault? r

/-- A nonterminal that no sentential form contains is reported at its first rule. -/
def reachFault? (spec : Spec ν) : Option GrammarError :=
  let reachable := spec.cfg.reachable
  spec.names.nonterminals.zipIdx.findSome? fun (name, n) =>
    if reachable.contains n then none
    else (spec.rules.find? (·.lhs = name)).map fun r => .unreachableNonterminal r.site name

def fault? (spec : Spec ν) : Option GrammarError :=
  spec.emptyFault? <|> spec.tokenFault? <|> spec.startFault? <|> spec.undefinedFault?
    <|> spec.bandFault? <|> spec.fallbackFault? <|> spec.ruleFault? <|> spec.reachFault?

/-! The grammar. -/

def fallbackOf (spec : Spec ν) (names : Names) (name : String) : Option Nat :=
  (spec.fallbacks.find? (·.source = name)).map fun f => names.terminals.idxOf f.target

def terminal (spec : Spec ν) (names : Names) (name : String) : Terminal :=
  ⟨name, spec.precedenceOf name, spec.fallbackOf names name⟩

def production (spec : Spec ν) (names : Names) (r : NamedRule ν) : Production ν :=
  ⟨r, names.rule r, spec.rulePrecedence r, r.body.prepare⟩

def bandList (spec : Spec ν) : List Band :=
  (spec.bands.zipIdx.map fun (b, i) => ⟨⟨i + 1, b.associativity⟩, b.names⟩).reverse

def isUsed (spec : Spec ν) (token : String) : Bool :=
  spec.rules.any (·.rhs.contains token) || (spec.precedenceOf token).isSome
    || spec.fallbacks.any fun f => f.target = token || f.source = token

def diagnostics (spec : Spec ν) : List Diagnostic :=
  (spec.tokens.filter fun (name, _) => !spec.isUsed name).map fun (name, site) =>
    ⟨site, .unusedToken name⟩

def grammar (spec : Spec ν) : Grammar ν :=
  let names := spec.names
  { terminals := (names.terminals.map (spec.terminal names)).toArray
    nonterminals := names.nonterminals.toArray
    productions := (spec.allRules.map (spec.production names)).toArray
    start := names.nonterminals.idxOf spec.startName
    bands := spec.bandList
    policy := spec.policy
    diagnostics := spec.diagnostics }

def assemble (spec : Spec ν) : Except GrammarError (Grammar ν) :=
  match spec.fault? with
  | some e => .error e
  | none => .ok spec.grammar

end Spec
end Lalr
