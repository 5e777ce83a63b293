import Lalr.Grammar.Assembly
import Lalr.Proofs.Grammar.Declarations
import Mathlib.Data.List.Forall2

/-!
What declarations come to when they are made one after another: the rules in the order in which they
were declared, and the names of tokens, bands and fallbacks.
-/

namespace Lalr

variable {ν : Type}

namespace Declaration

def isRule : Declaration ν → Bool
  | .rule .. => true
  | _ => false

def tokenNames : Declaration ν → List String
  | .tokens names => Text.words names
  | _ => []

def bandNames : Declaration ν → List String
  | .bands bs => bs.flatMap fun b => Text.words b.2
  | _ => []

/-- What a source falls back to comes first. -/
def fallbackNames : Declaration ν → List (String × String)
  | .fallback target names => (Text.words target).flatMap fun t => (Text.words names).map (t, ·)
  | _ => []

def startName? : Declaration ν → Option String
  | .start name => some (Text.trim name)
  | _ => none

end Declaration

/-- The rule is the one that the declaration is for. -/
inductive Declares : Site × Declaration ν → NamedRule ν → Prop
  | rule {site lhs pattern body symbol b} :
    bodyAt site (Text.trim lhs) (Text.words pattern).length body = .ok b →
      Declares (site, .rule lhs pattern body symbol)
        ⟨site, Text.trim lhs, Text.words pattern, symbol.map Text.trim, b⟩

theorem declares_of_ruleAt {site : Site} {lhs pattern : String} {body : BodySpec ν}
    {symbol : Option String} {r : NamedRule ν} (h : ruleAt site lhs pattern body symbol = .ok r) :
    Declares (site, .rule lhs pattern body symbol) r := by
  obtain ⟨-, -, b, hb, rfl⟩ := of_ruleAt h
  exact .rule hb

namespace Spec

/-- The rules are those that were declared, and all other names are in these lists. -/
structure Collects (spec : Spec ν) (rules : List (Site × Declaration ν))
    (tokens bands : List String) (fallbacks : List (String × String)) (starts : List String) :
    Prop where
  rules : List.Forall₂ Declares rules spec.rules
  mem_tokenNames_iff {name : String} : name ∈ spec.tokenNames ↔ name ∈ tokens
  bandNames : spec.bands.flatMap BandSpec.names = bands
  fallbackNames : (spec.fallbacks.map fun f => (f.target, f.source)) = fallbacks
  start : spec.start = starts.getLast?
  token {name : String} : name ∈ tokens → Text.isReserved name = false
  band {name : String} : name ∈ bands → Text.isReserved name = false
  fallback {x : String × String} : x ∈ fallbacks → x.1 ≠ x.2

def CollectsFrom (spec : Spec ν) (declarations : List (Site × Declaration ν)) : Prop :=
  spec.Collects (declarations.filter (·.2.isRule)) (declarations.flatMap (·.2.tokenNames))
    (declarations.flatMap (·.2.bandNames)) (declarations.flatMap (·.2.fallbackNames))
    (declarations.filterMap (·.2.startName?))

variable {spec spec' : Spec ν} {site : Site}

variable {declarations : List (Site × Declaration ν)}

theorem Collects.declare {rules : List (Site × Declaration ν)} {tokens bands : List String}
    {fallbacks : List (String × String)} {starts : List String}
    (h : spec.Collects rules tokens bands fallbacks starts) {d : Declaration ν}
    (heq : spec.declare site d = .ok spec') :
    spec'.Collects (rules ++ if d.isRule then [(site, d)] else []) (tokens ++ d.tokenNames)
      (bands ++ d.bandNames) (fallbacks ++ d.fallbackNames) (starts ++ d.startName?.toList) := by
  cases adds_of_declare heq <;> simp only [Declaration.isRule, Declaration.tokenNames,
    Declaration.bandNames, Declaration.fallbackNames, Declaration.startName?, Bool.false_eq_true,
    ↓reduceIte, Option.toList_none, Option.toList_some, List.append_nil]
  case tokens hordinary hmem =>
    exact
      { h with
        mem_tokenNames_iff := (hmem _).trans (by
          rw [← tokenNames, h.mem_tokenNames_iff, List.mem_append])
        token := fun hname => (List.mem_append.1 hname).elim h.token (hordinary _) }
  case bands hordinary _ _ =>
    exact
      { h with
        bandNames := by rw [List.flatMap_append, h.bandNames, flatMap_names_bandsAt]
        band := fun hname => (List.mem_append.1 hname).elim h.band (hordinary _) }
  case fallback hwords _ _ hother =>
    rw [hwords]
    exact
      { h with
        fallbackNames := by simp [← h.fallbackNames]
        fallback := fun hx => by
          rcases List.mem_append.1 hx with hx | hx
          · exact h.fallback hx
          · rw [List.flatMap_singleton] at hx
            obtain ⟨source, hsource, rfl⟩ := List.mem_map.1 hx
            exact hother source hsource }
  case start => exact { h with start := by simp }
  case rule hr =>
    exact { h with rules := List.rel_append h.rules (.cons (declares_of_ruleAt hr) .nil) }
  all_goals exact { h with }

theorem CollectsFrom.declare (h : spec.CollectsFrom declarations) {d : Declaration ν}
    (heq : spec.declare site d = .ok spec') : spec'.CollectsFrom (declarations ++ [(site, d)]) := by
  have hcollects := Collects.declare h heq
  cases hstart : d.startName? <;>
    simpa [CollectsFrom, List.filter_cons, hstart] using hcollects

theorem CollectsFrom.foldlM (h : spec.CollectsFrom declarations)
    {more : List (Site × Declaration ν)}
    (heq : more.foldlM (fun spec (site, d) => spec.declare site d) spec = .ok spec') :
    spec'.CollectsFrom (declarations ++ more) :=
  Except.foldlM_history (P := fun done spec => spec.CollectsFrom done)
    (fun _ _ _ _ hdone hd => CollectsFrom.declare hdone hd) h heq

theorem collectsFrom_nil : ({} : Spec ν).CollectsFrom [] where
  rules := .nil
  mem_tokenNames_iff := by simp [tokenNames]
  bandNames := rfl
  fallbackNames := rfl
  start := rfl
  token h := nomatch h
  band h := nomatch h
  fallback h := nomatch h

theorem collectsFrom_of_declareAll (h : Spec.declareAll {} declarations = .ok spec) :
    spec.CollectsFrom declarations := collectsFrom_nil.foldlM (declareAll_eq_ok_iff.1 h)

end Spec
end Lalr
