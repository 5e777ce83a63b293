import Lalr.Proofs.Grammar.Alike
import Lalr.Table.Cell

/-!
Declarations without the fallbacks among them. They amount to the same grammar, but that terminals
which only fallbacks speak of are missing at the end of the numbering, and they have no rank.
-/

namespace Lalr

variable {ν : Type}

def Declaration.isFallback : Declaration ν → Bool
  | .fallback _ _ => true
  | .tokens _ | .helpers _ | .bands _ | .start _ | .policy _ | .rule _ _ _ _ => false

def dropFallbacks (declarations : List (Site × Declaration ν)) : List (Site × Declaration ν) :=
  declarations.filter fun (_, d) => !d.isFallback

/-- What is done to `b` is done to `g b` as well, to the same end. -/
theorem Except.foldlM_hom {ε α β : Type} (g : β → β) {f : β → α → Except ε β}
    (hstep : ∀ b a b', f b a = .ok b' → f (g b) a = .ok (g b')) {xs : List α} {b b' : β}
    (h : xs.foldlM f b = .ok b') : xs.foldlM f (g b) = .ok (g b') := by
  induction xs generalizing b with
  | nil =>
    cases h
    rfl
  | cons x xs ih =>
    obtain ⟨c, hc, h⟩ := Except.bind_eq_ok.1 h
    exact Except.bind_eq_ok.2 ⟨_, hstep _ _ _ hc, ih h⟩

namespace Spec

variable {spec spec' : Spec ν}

def withoutFallbacks (spec : Spec ν) : Spec ν := { spec with fallbacks := [] }

theorem addToken_withoutFallbacks (spec : Spec ν) (site : Site) (name : String) :
    spec.withoutFallbacks.addToken site name = (spec.addToken site name).withoutFallbacks := by
  by_cases hdeclared : spec.tokens.any (·.1 = name) <;>
    simp only [addToken, withoutFallbacks, hdeclared, if_true, if_false, Bool.false_eq_true]

theorem addBand_withoutFallbacks {site : Site} {band : Associativity × String}
    (h : spec.addBand site band = .ok spec') :
    spec.withoutFallbacks.addBand site band = .ok spec'.withoutFallbacks := by
  obtain ⟨names, hnames, h⟩ := Except.bind_eq_ok.1 h
  refine Except.bind_eq_ok.2 ⟨names, hnames, ?_⟩
  have hsite : spec.withoutFallbacks.bandSite? = spec.bandSite? := rfl
  rw [hsite]
  split at h
  · cases h
  · split at h
    · next hnil =>
      cases h
      exact if_pos hnil
    · next hnil =>
      cases h
      exact if_neg hnil

/-- No declaration but a fallback looks at fallbacks. -/
theorem declare_withoutFallbacks {site : Site} {d : Declaration ν} (hd : d.isFallback = false)
    (h : spec.declare site d = .ok spec') :
    spec.withoutFallbacks.declare site d = .ok spec'.withoutFallbacks := by
  cases d with
  | tokens names =>
    obtain ⟨valid, hvalid, h⟩ := Except.bind_eq_ok.1 h
    cases h
    refine Except.bind_eq_ok.2 ⟨valid, hvalid, ?_⟩
    exact congrArg Except.ok (List.foldl_hom withoutFallbacks fun spec name =>
      addToken_withoutFallbacks spec site name)
  | bands bands =>
    exact Except.foldlM_hom withoutFallbacks (fun _ _ _ => addBand_withoutFallbacks) h
  | rule lhs pattern body precedenceSymbol =>
    obtain ⟨r, hr, h⟩ := Except.bind_eq_ok.1 h
    cases h
    exact Except.bind_eq_ok.2 ⟨r, hr, rfl⟩
  | helpers _ | start _ | policy _ =>
    cases h
    rfl
  | fallback _ _ => cases hd

theorem declareAll_dropFallbacks {declarations : List (Site × Declaration ν)}
    (h : spec.declareAll declarations = .ok spec') :
    spec.withoutFallbacks.declareAll (dropFallbacks declarations) =
      .ok spec'.withoutFallbacks := by
  rw [declareAll_eq_ok_iff] at h ⊢
  induction declarations generalizing spec with
  | nil =>
    cases h
    rfl
  | cons x declarations ih =>
    obtain ⟨site, d⟩ := x
    obtain ⟨mid, hmid, h⟩ := Except.bind_eq_ok.1 h
    cases hd : d.isFallback with
    | false =>
      simp only [dropFallbacks, List.filter_cons, hd, Bool.not_false, ↓reduceIte]
      exact Except.bind_eq_ok.2 ⟨_, declare_withoutFallbacks hd hmid, ih h⟩
    | true =>
      have hsame : mid.withoutFallbacks = spec.withoutFallbacks := by
        cases adds_of_declare hmid with
        | fallback _ _ _ _ => rfl
        | tokens _ _ | helpers | bands _ _ _ | start | policy | rule _ => cases hd
      simp only [dropFallbacks, List.filter_cons, hd, Bool.not_true, Bool.false_eq_true,
        ↓reduceIte, ← hsame]
      exact ih h

/-! The grammars. -/

theorem alike_withoutFallbacks (spec : Spec ν) : spec.withoutFallbacks.Alike spec := ⟨rfl, rfl, rfl⟩

theorem terminalNames_isPrefix (spec : Spec ν) :
    spec.withoutFallbacks.terminalNames <+: spec.terminalNames := by
  rw [terminalNames, withoutFallbacks, List.flatMap_nil, List.append_nil]
  exact eraseDups_isPrefix _ _

theorem productions_withoutFallbacks (hstart : spec.startName ∈ spec.lhsNames) :
    spec.grammar.productions = spec.withoutFallbacks.grammar.productions := by
  refine congrArg List.toArray (List.map_congr_left fun r hr => ?_)
  have hrule : spec.names.rule r = spec.withoutFallbacks.names.rule r :=
    (rule_names hstart hr).trans (@rule_names _ spec.withoutFallbacks hstart r hr).symm
  rw [production, hrule]
  rfl

theorem alike_grammar_withoutFallbacks (hu : spec.withoutFallbacks.Unreserved)
    (hstart : spec.startName ∈ spec.lhsNames) :
    Grammar.Alike spec.withoutFallbacks.grammar.terminalNames spec.withoutFallbacks.grammar
      spec.grammar := by
  have h := spec.alike_withoutFallbacks.grammar hu hstart
  exact {
    productions := h.productions
    nonterminals := h.nonterminals
    isPrefix := List.prefix_rfl
    isPrefix' := by
      rw [terminalNames_grammar, terminalNames_grammar]
      exact spec.terminalNames_isPrefix
    endName_mem := h.isPrefix.subset h.endName_mem
    cfg_wellFormed := (Grammar.length_terminalNames _).symm ▸ (hu.wellFormed hstart).cfg }

theorem mem_terminalNames_of_precedenceOf {name : String} {p : Precedence}
    (h : spec.precedenceOf name = some p) : name ∈ spec.terminalNames := by
  obtain ⟨⟨b, i⟩, hb, hname⟩ := List.exists_of_findSome?_eq_some h
  have hmem : name ∈ b.names := by
    by_contra hnot
    simp [hnot] at hname
  simp only [terminalNames, List.mem_eraseDups, List.mem_append, List.mem_flatMap]
  exact .inl (.inr ⟨b, (List.mem_zipIdx' hb).2 ▸ List.getElem_mem _, hmem⟩)

theorem ofTerminal_ranking (spec : Spec ν) (a : Nat) :
    spec.grammar.ranking.ofTerminal a = spec.terminalNames[a]?.bind spec.precedenceOf := by
  cases h : spec.terminalNames[a]? <;> simp [Grammar.ranking, grammar, names, terminal, h]

/-- The terminals that are missing have no rank, and all others keep theirs. -/
theorem ofTerminal_withoutFallbacks (spec : Spec ν) (a : Nat) :
    spec.grammar.ranking.ofTerminal a = spec.withoutFallbacks.grammar.ranking.ofTerminal a := by
  obtain ⟨added, hadded⟩ := spec.terminalNames_isPrefix
  rw [ofTerminal_ranking, ofTerminal_ranking, ← hadded]
  by_cases ha : a < spec.withoutFallbacks.terminalNames.length
  · rw [List.getElem?_append_left ha]
    rfl
  · rw [List.getElem?_eq_none (Nat.le_of_not_lt ha), Option.bind_none, Option.bind_eq_none_iff]
    intro name hname
    rw [List.getElem?_append_right (Nat.le_of_not_lt ha)] at hname
    have hnodup : spec.terminalNames.Nodup := nodup_eraseDups _
    rw [← hadded, List.nodup_append] at hnodup
    rw [Option.eq_none_iff_forall_ne_some]
    intro p hp
    have hmem : name ∈ spec.withoutFallbacks.terminalNames := mem_terminalNames_of_precedenceOf hp
    exact hnodup.2.2 name hmem name (List.mem_of_getElem? hname) rfl

theorem ranking_withoutFallbacks (hstart : spec.startName ∈ spec.lhsNames) :
    spec.grammar.ranking = spec.withoutFallbacks.grammar.ranking := by
  have hterminal := funext spec.ofTerminal_withoutFallbacks
  simp only [Grammar.ranking, productions_withoutFallbacks hstart] at hterminal ⊢
  rw [hterminal]
  rfl

end Spec

end Lalr
