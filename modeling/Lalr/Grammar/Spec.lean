import Lalr.Grammar.Error

/-!
The declarations that make up a grammar, and what each of them adds.
-/

namespace Lalr

variable {ν : Type}

structure BandSpec where
  site : Site
  associativity : Associativity
  names : List String

/-- Where `source` has no action, `target` is tried. -/
structure FallbackSpec where
  site : Site
  target : String
  source : String

inductive BodySpec (ν : Type)
  | template (text : String)
  | native (action : ν)

/-- Names are separated by blanks. Later bands bind tighter. -/
inductive Declaration (ν : Type)
  | tokens (names : String)
  | helpers (names : String)
  | bands (bands : List (Associativity × String))
  | fallback (target names : String)
  | start (name : String)
  | policy (policy : TiePolicy)
  | rule (lhs pattern : String) (body : BodySpec ν) (precedenceSymbol : Option String)

structure Spec (ν : Type) where
  rules : List (NamedRule ν) := []
  tokens : List (String × Site) := []
  helpers : List String := []
  bands : List BandSpec := []
  fallbacks : List FallbackSpec := []
  start : Option String := none
  policy : TiePolicy := .earliest

def templateAt (site : Site) (text : String) (arity : Nat) : Except GrammarError Template :=
  (Template.ofText text arity).mapError fun
    | .malformed why => .malformedTemplate site text why
    | .captureOutOfRange i => .captureOutOfRange site i arity

/-- The first of the names that is not valid is the one reported. -/
def validNames (site : Site) (names : List String) : Except GrammarError (List String) :=
  match names.find? (!Text.isSymbolName ·) with
  | some name => .error (.invalidSymbolName site name)
  | none => .ok names

/-- Blank text stands for the value of the first symbol. -/
def bodyAt (site : Site) (lhs : String) (arity : Nat) :
    BodySpec ν → Except GrammarError (Body ν)
  | .native f => .ok (.native f)
  | .template text =>
    if Text.trim text = "" then
      if arity = 0 then .error (.emptyRule site lhs) else .ok (.template .passThrough)
    else (templateAt site text arity).map .template

def precedenceSymbolAt (site : Site) (name : String) : Except GrammarError String :=
  if Text.isIdentifier name || Text.isPunctuation name then .ok name
  else .error (.invalidSymbolName site name)

def ruleAt (site : Site) (lhs pattern : String) (body : BodySpec ν)
    (precedenceSymbol : Option String) : Except GrammarError (NamedRule ν) := do
  let lhs := Text.trim lhs
  if !Text.isIdentifier lhs || Text.isReserved lhs then throw (.invalidSymbolName site lhs)
  let rhs ← validNames site (Text.words pattern)
  let precedenceSymbol ← precedenceSymbol.mapM fun s => precedenceSymbolAt site (Text.trim s)
  let body ← bodyAt site lhs rhs.length body
  return ⟨site, lhs, rhs, precedenceSymbol, body⟩

namespace Spec

/-- A token that was declared before keeps its first site. -/
def addToken (site : Site) (spec : Spec ν) (name : String) : Spec ν :=
  if spec.tokens.any (·.1 = name) then spec
  else { spec with tokens := spec.tokens ++ [(name, site)] }

def addTokens (site : Site) (names : String) (spec : Spec ν) : Except GrammarError (Spec ν) := do
  return (← validNames site (Text.words names)).foldl (addToken site) spec

/-- The site of the band that has the name already. -/
def bandSite? (spec : Spec ν) (name : String) : Option Site :=
  (spec.bands.find? (·.names.contains name)).map BandSpec.site

def addBand (site : Site) (spec : Spec ν) :
    Associativity × String → Except GrammarError (Spec ν)
  | (associativity, names) => do
    let names ← validNames site (Text.words names)
    match names.findSome? fun name => (spec.bandSite? name).map (name, ·) with
    | some (name, previous) => throw (.precedenceRedefined site name previous)
    | none =>
      if names = [] then return spec
      else return { spec with bands := spec.bands ++ [⟨site, associativity, names⟩] }

def addFallback (site : Site) (target : String) (spec : Spec ν) (source : String) :
    Except GrammarError (Spec ν) :=
  if source = target then .error (.fallbackToSelf site source)
  else if spec.fallbacks.any (·.source = source) then .error (.fallbackRedefined site source)
  else .ok { spec with fallbacks := spec.fallbacks ++ [⟨site, target, source⟩] }

def addFallbacks (site : Site) (target names : String) (spec : Spec ν) :
    Except GrammarError (Spec ν) := do
  match ← validNames site (Text.words target) with
  | [name] => (← validNames site (Text.words names)).foldlM (addFallback site name) spec
  | _ => throw (.invalidSymbolName site target)

def declare (site : Site) (spec : Spec ν) : Declaration ν → Except GrammarError (Spec ν)
  | .tokens names => spec.addTokens site names
  | .helpers names => .ok { spec with helpers := spec.helpers ++ Text.words names }
  | .bands bands => bands.foldlM (addBand site) spec
  | .fallback target names => spec.addFallbacks site target names
  | .start name => .ok { spec with start := some (Text.trim name) }
  | .policy policy => .ok { spec with policy }
  | .rule lhs pattern body precedenceSymbol => do
    return { spec with rules := spec.rules ++ [← ruleAt site lhs pattern body precedenceSymbol] }

/-- Makes the declarations in order. A failure comes with the position of the declaration. -/
def declareAll (spec : Spec ν) (declarations : List (Site × Declaration ν)) :
    Except (Nat × GrammarError) (Spec ν) :=
  declarations.zipIdx.foldlM
    (fun spec ((site, d), i) => (spec.declare site d).mapError fun e => (i, e)) spec

end Spec
end Lalr
