import Lalr.Proofs.Grammar.Collected
import Lalr.Proofs.Grammar.Consistency

/-!
What an assembled grammar looks like: which names its numbers stand for, and which rules, terminals
and fallbacks it has.
-/

namespace Lalr

variable {ν : Type}

/-- The symbols, rules and fallbacks of the grammar are those of the declarations and its own. A
production has no number but its place, and that is what the rules of a nonterminal are given by. -/
structure Grammar.Represents (g : Grammar ν) (declarations : List (Site × Declaration ν)) :
    Prop where
  nodup_symbolNames : g.symbolNames.Nodup
  symbolNames_zero : g.symbolNames[0]? = some endName
  symbolNames_size : g.symbolNames[g.terminals.size]? = some acceptName
  isTerminal_iff {id : Nat} {name : String} : g.symbolNames[id]? = some name →
    (g.isTerminal name = true ↔ id < g.terminals.size)
  mem_terminalNames_iff {name : String} : name ∈ g.terminalNames ↔ name = endName ∨
    (∃ d ∈ declarations, name ∈ d.2.tokenNames) ∨
    (∃ p ∈ g.productions, name ∈ p.rhs ∧ ∀ p' ∈ g.productions, p'.lhs ≠ name) ∨
    (∃ d ∈ declarations, name ∈ d.2.bandNames) ∨
    ∃ d ∈ declarations, ∃ x ∈ d.2.fallbackNames, name = x.1 ∨ name = x.2
  lhs_not_mem {p : Production ν} : p ∈ g.productions → p.lhs ∉ g.terminalNames
  rules : List.Forall₂ Declares (declarations.filter (·.2.isRule))
    (g.productions.toList.tail.map (·.toNamedRule))
  accept : ∃ p first, g.productions[0]? = some p ∧ p.lhs = acceptName ∧ p.rhs = [g.startName] ∧
    g.productions[1]? = some first ∧
    g.startName = (declarations.filterMap (·.2.startName?)).getLast?.getD first.lhs
  accept_iff {k : Nat} {p : Production ν} : g.productions[k]? = some p →
    (p.lhs = acceptName ↔ k = 0)
  lhs {p : Production ν} : p ∈ g.productions →
    g.symbolNames[g.symbolId (.nonterminal p.rule.lhs)]? = some p.lhs
  rhs {p : Production ν} : p ∈ g.productions →
    (p.rule.rhs.map fun x => g.symbolNames[g.symbolId x]?) = p.rhs.map some
  rulesOf {n : Nat} {name : String} : g.nonterminals[n]? = some name →
    g.cfg.rulesOf n ≠ [] ∧ (g.cfg.rulesOf n).Pairwise (· < ·) ∧
      ∀ k, k ∈ g.cfg.rulesOf n ↔ ∃ p, g.productions[k]? = some p ∧ p.lhs = name
  ordinary {p : Production ν} : p ∈ g.productions → endName ∉ p.rhs ∧ acceptName ∉ p.rhs
  fallback {t u : Nat} : g.fallback? t = some u → u ≠ t ∧ u < g.terminals.size ∧
    ∃ d ∈ declarations, ∃ x ∈ d.2.fallbackNames,
      g.symbolNames[u]? = some x.1 ∧ g.symbolNames[t]? = some x.2

namespace Spec

variable {spec : Spec ν} {declarations : List (Site × Declaration ν)}

theorem mem_terminalNames_iff {name : String} :
    name ∈ spec.terminalNames ↔ name = Grammar.endName ∨ name ∈ spec.tokenNames ∨
      (∃ r ∈ spec.rules, name ∈ r.rhs ∧ ¬ spec.Defines name) ∨
      name ∈ spec.bands.flatMap BandSpec.names ∨
      ∃ x ∈ spec.fallbacks.map (fun f => (f.target, f.source)), name = x.1 ∨ name = x.2 := by
  have hrhs : name ∈ (spec.rules.flatMap (·.rhs)).filter (!spec.lhsNames.contains ·) ↔
      ∃ r ∈ spec.rules, name ∈ r.rhs ∧ ¬ spec.Defines name := by
    simp [defines_iff, ← and_assoc]
  have hfallbacks : name ∈ spec.fallbacks.flatMap (fun f => [f.target, f.source]) ↔
      ∃ x ∈ spec.fallbacks.map (fun f => (f.target, f.source)), name = x.1 ∨ name = x.2 := by
    simp
  simp only [terminalNames, List.mem_eraseDups, List.cons_append, List.mem_cons, List.mem_append,
    hrhs, hfallbacks, or_assoc]

theorem productions_grammar :
    spec.grammar.productions.toList = spec.allRules.map (spec.production spec.names) := by
  simp [grammar]

theorem mem_productions_iff {p : Production ν} :
    p ∈ spec.grammar.productions ↔ ∃ r ∈ spec.allRules, spec.production spec.names r = p := by
  simp [grammar]

theorem symbolNames_grammar :
    spec.grammar.symbolNames = spec.terminalNames ++ spec.names.nonterminals := by
  rw [Grammar.symbolNames, terminalNames_grammar]
  rfl

theorem getElem?_productions_grammar (k : Nat) :
    spec.grammar.productions[k]? = spec.allRules[k]?.map (spec.production spec.names) := by
  simp [grammar]

/-- A terminal is neither the whole input nor a nonterminal that was declared. -/
theorem CollectsFrom.disjoint (hc : spec.CollectsFrom declarations) (hu : spec.Unreserved)
    (h : spec.Consistent) {name : String} (hname : name ∈ spec.terminalNames) :
    name ∉ spec.names.nonterminals := by
  have hof (hreserved : Text.isReserved name = false) (hdefines : ¬ spec.Defines name) :
      name ∉ spec.names.nonterminals := by
    rw [names, List.mem_cons, not_or]
    exact ⟨(ne_of_isReserved hreserved isReserved_acceptName).symm,
      fun hmem => hdefines (defines_iff.2 hmem)⟩
  rcases mem_terminalNames_iff.1 hname with
    rfl | htoken | ⟨r, hr, hrhs, hdefines⟩ | hband | hfallback
  · rw [names, List.mem_cons, not_or]
    exact ⟨by decide, fun hmem => ne_of_isReserved (hu.of_mem_lhsNames hmem) isReserved_endName rfl⟩
  · refine hof (hc.token (hc.mem_tokenNames_iff.1 htoken)) ?_
    rintro ⟨r, hr, rfl⟩
    exact h.lhs hr htoken
  · exact hof (hu.rhs hr hrhs) hdefines
  · obtain ⟨b, hb, hname⟩ := List.mem_flatMap.1 hband
    exact hof (hc.band (hc.bandNames ▸ hband)) (h.band hb hname)
  · obtain ⟨x, hx, hname⟩ := hfallback
    obtain ⟨f, hf, rfl⟩ := List.mem_map.1 hx
    rcases hname with rfl | rfl
    · exact hof (hu.target hf) (h.fallback hf).1
    · exact hof (hu.source hf) (h.fallback hf).2

/-! The numbers of symbols. -/

theorem getElem?_symbolNames_terminal {t : Nat} {name : String}
    (h : spec.terminalNames[t]? = some name) : spec.grammar.symbolNames[t]? = some name := by
  have hlt : t < spec.terminalNames.length := (List.getElem?_eq_some_iff.1 h).1
  rw [symbolNames_grammar, List.getElem?_append_left hlt, h]

theorem getElem?_symbolNames_nonterminal (n : Nat) :
    spec.grammar.symbolNames[spec.grammar.symbolId (.nonterminal n)]? =
      spec.names.nonterminals[n]? := by
  have hsize : spec.grammar.terminals.size = spec.terminalNames.length := size_terminals_grammar
  rw [symbolNames_grammar, Grammar.symbolId, hsize,
    List.getElem?_append_right (Nat.le_add_right _ _), Nat.add_sub_cancel_left]

theorem getElem?_symbolNames_symbol {name : String}
    (h : name ∈ spec.terminalNames ∨ name ∈ spec.names.nonterminals) :
    spec.grammar.symbolNames[spec.grammar.symbolId (spec.names.symbol name)]? = some name := by
  by_cases hmem : name ∈ spec.names.nonterminals
  · rw [Names.symbol_of_mem hmem, getElem?_symbolNames_nonterminal, List.getElem?_idxOf hmem]
  · rw [Names.symbol_of_not_mem hmem]
    exact getElem?_symbolNames_terminal (List.getElem?_idxOf (h.resolve_right hmem))

theorem CollectsFrom.isTerminal_iff (hc : spec.CollectsFrom declarations) (hu : spec.Unreserved)
    (h : spec.Consistent) {id : Nat} {name : String}
    (hid : spec.grammar.symbolNames[id]? = some name) :
    spec.grammar.isTerminal name = true ↔ id < spec.grammar.terminals.size := by
  have hsize : spec.grammar.terminals.size = spec.terminalNames.length := size_terminals_grammar
  rw [Grammar.isTerminal, terminalNames_grammar, List.contains_iff_mem, hsize]
  rw [symbolNames_grammar] at hid
  by_cases hlt : id < spec.terminalNames.length
  · rw [List.getElem?_append_left hlt] at hid
    exact iff_of_true (List.mem_of_getElem? hid) hlt
  · rw [List.getElem?_append_right (Nat.le_of_not_lt hlt)] at hid
    exact iff_of_false (fun hname => hc.disjoint hu h hname (List.mem_of_getElem? hid)) hlt

/-! Rules and their symbols. -/

theorem lhs_mem_nonterminals {r : NamedRule ν} (hr : r ∈ spec.allRules) :
    r.lhs ∈ spec.names.nonterminals := by
  rcases List.mem_cons.1 hr with rfl | hr
  · exact List.mem_cons_self ..
  · exact Defines.mem_nonterminals ⟨r, hr, rfl⟩

theorem Consistent.mem_names (h : spec.Consistent) {r : NamedRule ν} (hr : r ∈ spec.allRules)
    {name : String} (hname : name ∈ r.rhs) :
    name ∈ spec.terminalNames ∨ name ∈ spec.names.nonterminals := by
  rcases List.mem_cons.1 hr with rfl | hr
  · rw [acceptRule, List.mem_singleton] at hname
    exact .inr (hname ▸ h.start.mem_nonterminals)
  · by_cases hdefines : spec.Defines name
    · exact .inr hdefines.mem_nonterminals
    · exact .inl (mem_terminalNames_of_rhs hr hname fun hmem => hdefines (defines_iff.2 hmem))

theorem Unreserved.of_mem_allRules (hu : spec.Unreserved) (h : spec.Consistent) {r : NamedRule ν}
    (hr : r ∈ spec.allRules) {name : String} (hname : name ∈ r.rhs) :
    Text.isReserved name = false := by
  rcases List.mem_cons.1 hr with rfl | hr
  · rw [acceptRule, List.mem_singleton] at hname
    exact hname ▸ hu.of_mem_lhsNames (defines_iff.1 h.start)
  · exact hu.rhs hr hname

/-- A word in a rule is a terminal if no production is for it. -/
theorem Unreserved.implicit_iff (hu : spec.Unreserved) (h : spec.Consistent) {name : String} :
    (∃ r ∈ spec.rules, name ∈ r.rhs ∧ ¬ spec.Defines name) ↔
      ∃ p ∈ spec.grammar.productions, name ∈ p.rhs ∧
        ∀ p' ∈ spec.grammar.productions, p'.lhs ≠ name := by
  constructor
  · rintro ⟨r, hr, hname, hdefines⟩
    refine ⟨_, mem_productions_iff.2 ⟨r, List.mem_cons_of_mem _ hr, rfl⟩, hname, fun p' hp' => ?_⟩
    obtain ⟨r', hr', rfl⟩ := mem_productions_iff.1 hp'
    rcases List.mem_cons.1 hr' with rfl | hr'
    · exact ne_of_isReserved (hu.rhs hr hname) isReserved_acceptName
    · exact fun hlhs => hdefines ⟨r', hr', hlhs⟩
  · rintro ⟨p, hp, hname, hlhs⟩
    have hdefines : ¬ spec.Defines name := by
      rintro ⟨r', hr', heq⟩
      exact hlhs _ (mem_productions_iff.2 ⟨r', List.mem_cons_of_mem _ hr', rfl⟩) heq
    obtain ⟨r, hr, rfl⟩ := mem_productions_iff.1 hp
    rcases List.mem_cons.1 hr with rfl | hr
    · exact absurd (List.mem_singleton.1 hname ▸ h.start) hdefines
    · exact ⟨r, hr, hname, hdefines⟩

theorem CollectsFrom.mem_terminalNames_grammar_iff (hc : spec.CollectsFrom declarations)
    (hu : spec.Unreserved) (h : spec.Consistent) {name : String} :
    name ∈ spec.grammar.terminalNames ↔ name = Grammar.endName ∨
      (∃ d ∈ declarations, name ∈ d.2.tokenNames) ∨
      (∃ p ∈ spec.grammar.productions, name ∈ p.rhs ∧
        ∀ p' ∈ spec.grammar.productions, p'.lhs ≠ name) ∨
      (∃ d ∈ declarations, name ∈ d.2.bandNames) ∨
      ∃ d ∈ declarations, ∃ x ∈ d.2.fallbackNames, name = x.1 ∨ name = x.2 := by
  have hfallbacks : (∃ x ∈ declarations.flatMap (·.2.fallbackNames), name = x.1 ∨ name = x.2) ↔
      ∃ d ∈ declarations, ∃ x ∈ d.2.fallbackNames, name = x.1 ∨ name = x.2 := by
    constructor
    · rintro ⟨x, hx, hname⟩
      obtain ⟨d, hd, hx⟩ := List.mem_flatMap.1 hx
      exact ⟨d, hd, x, hx, hname⟩
    · rintro ⟨d, hd, x, hx, hname⟩
      exact ⟨x, List.mem_flatMap.2 ⟨d, hd, hx⟩, hname⟩
  rw [terminalNames_grammar, mem_terminalNames_iff, hc.mem_tokenNames_iff, hu.implicit_iff h,
    hc.bandNames, hc.fallbackNames, hfallbacks, List.mem_flatMap, List.mem_flatMap]

theorem Unreserved.lhs_eq_acceptName_iff (hu : spec.Unreserved) {k : Nat} {r : NamedRule ν}
    (hr : spec.allRules[k]? = some r) : r.lhs = Grammar.acceptName ↔ k = 0 := by
  cases k with
  | zero =>
    cases hr
    exact iff_of_true rfl rfl
  | succ k =>
    have hmem : r ∈ spec.rules := List.mem_of_getElem? hr
    exact iff_of_false (ne_of_isReserved (hu.lhs hmem) isReserved_acceptName).symm
      (Nat.succ_ne_zero k)

theorem Unreserved.mem_rulesOf_name_iff (hu : spec.Unreserved) {n k : Nat} {name : String}
    (hn : spec.names.nonterminals[n]? = some name) :
    k ∈ spec.grammar.cfg.rulesOf n ↔ ∃ r, spec.allRules[k]? = some r ∧ r.lhs = name := by
  obtain ⟨hlt, rfl⟩ := List.getElem?_eq_some_iff.1 hn
  rw [mem_rulesOf_grammar_iff]
  refine exists_congr fun r => and_congr_right fun hr => ?_
  have hmem := lhs_mem_nonterminals (List.mem_of_getElem? hr)
  rw [← List.idxOf_inj hmem, hu.nodup_nonterminals.idxOf_getElem]

theorem Unreserved.rulesOf_name_ne_nil (hu : spec.Unreserved) {n : Nat} {name : String}
    (hn : spec.names.nonterminals[n]? = some name) : spec.grammar.cfg.rulesOf n ≠ [] := by
  have hrule : ∃ r ∈ spec.allRules, r.lhs = name := by
    rcases List.mem_cons.1 (List.mem_of_getElem? hn) with rfl | hname
    · exact ⟨spec.acceptRule, List.mem_cons_self .., rfl⟩
    · obtain ⟨r, hr, hlhs⟩ := mem_lhsNames_iff.1 hname
      exact ⟨r, List.mem_cons_of_mem _ hr, hlhs⟩
  obtain ⟨r, hr, hlhs⟩ := hrule
  obtain ⟨k, hk⟩ := List.mem_iff_getElem?.1 hr
  exact List.ne_nil_of_mem ((hu.mem_rulesOf_name_iff hn).2 ⟨r, hk, hlhs⟩)

theorem CollectsFrom.fallback_grammar (hc : spec.CollectsFrom declarations) {t u : Nat}
    (h : spec.grammar.fallback? t = some u) :
    u ≠ t ∧ u < spec.grammar.terminals.size ∧ ∃ d ∈ declarations, ∃ x ∈ d.2.fallbackNames,
      spec.grammar.symbolNames[u]? = some x.1 ∧ spec.grammar.symbolNames[t]? = some x.2 := by
  obtain ⟨f, hf, ht, rfl⟩ := fallback?_grammar h
  have hpair : (f.target, f.source) ∈ declarations.flatMap (·.2.fallbackNames) :=
    hc.fallbackNames ▸ List.mem_map_of_mem hf
  have htarget : f.target ∈ spec.terminalNames := mem_terminalNames_of_target hf
  have hu : spec.terminalNames[spec.terminalNames.idxOf f.target]? = some f.target :=
    List.getElem?_idxOf htarget
  refine ⟨?_, ?_, ?_⟩
  · intro heq
    rw [heq, ht, Option.some.injEq] at hu
    exact hc.fallback hpair hu.symm
  · rw [size_terminals_grammar]
    exact List.idxOf_lt_length_of_mem htarget
  · obtain ⟨d, hd, hx⟩ := List.mem_flatMap.1 hpair
    exact ⟨d, hd, _, hx, getElem?_symbolNames_terminal hu, getElem?_symbolNames_terminal ht⟩

theorem CollectsFrom.startName_eq (hc : spec.CollectsFrom declarations) (h : spec.Consistent) :
    ∃ r, spec.allRules[1]? = some r ∧ spec.grammar.startName =
      (declarations.filterMap (·.2.startName?)).getLast?.getD r.lhs := by
  obtain ⟨r, rules, hrules⟩ := List.exists_cons_of_ne_nil h.rules_ne_nil
  refine ⟨r, by simp [allRules, hrules], ?_⟩
  rw [startName_grammar (defines_iff.1 h.start), startName, hc.start, hrules]
  rfl

/-- A grammar that is assembled represents the declarations it is assembled from. -/
theorem represents_of_assemble {g : Grammar ν} (h : Spec.declareAll {} declarations = .ok spec)
    (hg : spec.assemble = .ok g) : g.Represents declarations := by
  have hc : spec.CollectsFrom declarations := collectsFrom_of_declareAll h
  have hu : spec.Unreserved := .declareAll h
  have hconsistent : spec.Consistent :=
    hu.fault?_eq_none_iff.1 (exists_assemble_eq_iff.1 ⟨g, hg⟩)
  have haccept := Grammar.IsAssembled.exists_production_zero ⟨declarations, spec, h, hg⟩
  obtain rfl := (assemble_eq_ok hg).2
  exact
    { nodup_symbolNames := by
        rw [symbolNames_grammar, List.nodup_append]
        refine ⟨nodup_eraseDups _, hu.nodup_nonterminals, fun a ha b hb hab => ?_⟩
        exact hc.disjoint hu hconsistent ha (hab ▸ hb)
      symbolNames_zero := by
        obtain ⟨names, hnames⟩ := spec.terminalNames_cons
        exact getElem?_symbolNames_terminal (by rw [hnames, List.getElem?_cons_zero])
      symbolNames_size := getElem?_symbolNames_nonterminal 0
      isTerminal_iff := hc.isTerminal_iff hu hconsistent
      mem_terminalNames_iff := hc.mem_terminalNames_grammar_iff hu hconsistent
      lhs_not_mem := by
        intro p hp hname
        obtain ⟨r, hr, rfl⟩ := mem_productions_iff.1 hp
        rw [terminalNames_grammar] at hname
        exact hc.disjoint hu hconsistent hname (lhs_mem_nonterminals hr)
      rules := by
        have hrules : spec.grammar.productions.toList.tail.map (·.toNamedRule) = spec.rules := by
          simp [productions_grammar, allRules, production, Function.comp_def]
        exact hrules ▸ hc.rules
      accept := by
        obtain ⟨p, hp, hlhs, hrhs, -⟩ := haccept
        obtain ⟨r, hr, hstart⟩ := hc.startName_eq hconsistent
        refine ⟨p, spec.production spec.names r, hp, hlhs, hrhs, ?_, hstart⟩
        rw [getElem?_productions_grammar, hr, Option.map_some]
      accept_iff := by
        intro k p hp
        rw [getElem?_productions_grammar, Option.map_eq_some_iff] at hp
        obtain ⟨r, hr, rfl⟩ := hp
        exact hu.lhs_eq_acceptName_iff hr
      lhs := by
        intro p hp
        obtain ⟨r, hr, rfl⟩ := mem_productions_iff.1 hp
        rw [getElem?_symbolNames_nonterminal]
        exact List.getElem?_idxOf (lhs_mem_nonterminals hr)
      rhs := by
        intro p hp
        obtain ⟨r, hr, rfl⟩ := mem_productions_iff.1 hp
        simp only [production, Names.rule, List.map_map]
        exact List.map_congr_left fun name hname =>
          getElem?_symbolNames_symbol (hconsistent.mem_names hr hname)
      rulesOf := by
        intro n name hn
        have hname : spec.names.nonterminals[n]? = some name := by simpa [grammar] using hn
        refine ⟨hu.rulesOf_name_ne_nil hname, List.pairwise_lt_range.filter _, fun k => ?_⟩
        rw [hu.mem_rulesOf_name_iff hname, getElem?_productions_grammar]
        simp [production]
      ordinary := by
        intro p hp
        obtain ⟨r, hr, rfl⟩ := mem_productions_iff.1 hp
        exact ⟨fun hname => ne_of_isReserved (hu.of_mem_allRules hconsistent hr hname)
          isReserved_endName rfl, fun hname =>
          ne_of_isReserved (hu.of_mem_allRules hconsistent hr hname) isReserved_acceptName rfl⟩
      fallback := hc.fallback_grammar }

end Spec

/-! Sums with signs, where names become terminals in all the ways there are, some of them twice. -/

namespace Signs

def declarations : List (Site × Declaration Unit) :=
  [(default, .tokens "n +"), (default, .bands [(.left, "+"), (.right, "SIGN")]),
    (default, .rule "sum" "sum + sum" (.native ()) none),
    (default, .fallback "n" "word SIGN"), (default, .start "whole"), (default, .tokens "n"),
    (default, .rule "sum" "- sum" (.native ()) (some "SIGN")),
    (default, .rule "sum" "n" (.native ()) none), (default, .start "accept"),
    (default, .rule "accept" "sum" (.native ()) none)]

def spec : Spec Unit := (Spec.declareAll {} declarations).toOption.get (by decide +kernel)

def grammar : Grammar Unit := spec.assemble.toOption.get (by decide +kernel)

end Signs

theorem Signs.represents_declarations :
    Spec.declareAll {} declarations = .ok spec ∧ spec.assemble = .ok grammar ∧
      grammar.Represents declarations ∧ grammar.symbolNames =
        ["$end", "n", "+", "-", "SIGN", "word", "$accept", "sum", "accept"] := by
  have hspec : Spec.declareAll {} declarations = .ok spec := Except.eq_ok_get _ _
  have hgrammar : spec.assemble = .ok grammar := Except.eq_ok_get _ _
  exact ⟨hspec, hgrammar, Spec.represents_of_assemble hspec hgrammar, by decide +kernel⟩

end Lalr
