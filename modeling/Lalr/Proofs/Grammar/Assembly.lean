import Lalr.Grammar.Assembly
import Lalr.Proofs.Cfg.Derivation
import Lalr.Proofs.Grammar.Declarations
import Lalr.Proofs.Saturation

/-!
What declarations assemble to: a grammar whose symbols have the names that were declared, and whose
own symbols are apart from these.
-/

namespace Lalr

variable {ν : Type}

def Grammar.IsAssembled (g : Grammar ν) : Prop :=
  ∃ declarations spec, Spec.declareAll {} declarations = .ok spec ∧ spec.assemble = .ok g

/-- The end of input and the whole input are apart from all other symbols. -/
structure Grammar.WellFormed (g : Grammar ν) : Prop where
  cfg : g.cfg.WellFormed g.terminals.size g.start
  start_pos : 0 < g.start
  nodup : g.terminalNames.Nodup
  terminalNames_zero : g.terminalNames[0]? = some Grammar.endName
  fallback {t u : Nat} : g.fallback? t = some u → 0 < u ∧ u < g.terminals.size
  fallback_zero : g.fallback? 0 = none

theorem Grammar.WellFormed.terminals_pos {g : Grammar ν} (h : g.WellFormed) :
    0 < g.terminals.size := by
  have hlen := (List.getElem?_eq_some_iff.1 h.terminalNames_zero).1
  simpa [terminalNames] using Nat.zero_lt_of_lt hlen

theorem Grammar.terminalName_of_terminal? {g : Grammar ν} {name : String} {t : Nat}
    (h : g.terminal? name = some t) : g.terminalName t = name := by
  obtain ⟨hmem, rfl⟩ := idxOf?_eq_some.1 h
  have hget : g.terminalNames[g.terminalNames.idxOf name]? = some name := List.getElem?_idxOf hmem
  rw [terminalNames, Array.getElem?_toList, Array.getElem?_map] at hget
  rw [terminalName, terminalNames, hget]
  rfl

theorem Grammar.WellFormed.terminal?_endName {g : Grammar ν} (h : g.WellFormed) :
    g.terminal? Grammar.endName = some 0 := by
  rw [Grammar.terminal?]
  obtain ⟨names, hnames⟩ : ∃ names, g.terminalNames = Grammar.endName :: names := by
    have hzero := h.terminalNames_zero
    cases hg : g.terminalNames with
    | nil => simp [hg] at hzero
    | cons name names =>
      rw [hg, List.getElem?_cons_zero, Option.some.injEq] at hzero
      exact ⟨names, by rw [hzero]⟩
  simp [hnames, List.idxOf?_cons]

theorem Cfg.WellFormed.mem_reachable_iff {g : Cfg} {terminals start : Nat}
    (h : g.WellFormed terminals start) {n : Nat} :
    n ∈ g.reachable ↔ Leads g.mentioned [0] n := by
  refine mem_discover_iff (List.range g.nonterminals) (fun n _ m hm => ?_)
    (List.nodup_singleton 0) (fun n hn => ?_) (by simp)
  · obtain ⟨r, -, hm⟩ := List.mem_flatMap.1 hm
    obtain ⟨x, hx, hxm⟩ := List.mem_filterMap.1 hm
    cases x with
    | terminal => cases hxm
    | nonterminal =>
      cases hxm
      exact List.mem_range.2 (h.ordinary hx).2
  · rw [List.mem_singleton.1 hn]
    exact List.mem_range.2 (h.lt_nonterminals h.zero_mem)

theorem Cfg.WellFormed.start_mem_reachable {g : Cfg} {terminals start : Nat}
    (h : g.WellFormed terminals start) : start ∈ g.reachable := by
  rw [h.mem_reachable_iff]
  refine (Leads.of_mem (List.mem_singleton_self 0)).step (List.mem_flatMap.2 ⟨0, h.zero_mem, ?_⟩)
  simp [h.rhs_zero, Sym.nonterminal?]

namespace Names

variable {names : Names} {name : String}

theorem symbol_of_mem (h : name ∈ names.nonterminals) :
    names.symbol name = .nonterminal (names.nonterminals.idxOf name) := by
  simp [symbol, idxOf?_eq, h]

theorem symbol_of_not_mem (h : name ∉ names.nonterminals) :
    names.symbol name = .terminal (names.terminals.idxOf name) := by
  simp [symbol, idxOf?_eq, h]

end Names

namespace Spec

variable {spec : Spec ν}

theorem isReserved_endName : Text.isReserved Grammar.endName = true := by decide

theorem isReserved_acceptName : Text.isReserved Grammar.acceptName = true := by decide

theorem ne_of_isReserved {name own : String} (h : Text.isReserved name = false)
    (hown : Text.isReserved own = true) : own ≠ name := by
  rintro rfl
  rw [h] at hown
  cases hown

theorem assemble_eq_ok {g : Grammar ν} (h : spec.assemble = .ok g) :
    spec.startName ∈ spec.lhsNames ∧ g = spec.grammar := by
  unfold assemble at h
  split at h
  · cases h
  · next hnone =>
    cases h
    refine ⟨?_, rfl⟩
    have hstart : spec.startFault? = none := by
      simp only [fault?, Option.orElse_eq_orElse, Option.orElse_eq_or, Option.or_eq_none_iff]
        at hnone
      exact hnone.2.2.1
    by_contra hmem
    simp [startFault?, hmem] at hstart

theorem mem_lhsNames_iff {name : String} :
    name ∈ spec.lhsNames ↔ ∃ r ∈ spec.rules, r.lhs = name := by
  simp [lhsNames, List.mem_eraseDups]

theorem Unreserved.of_mem_lhsNames (h : spec.Unreserved) {name : String}
    (hname : name ∈ spec.lhsNames) : Text.isReserved name = false := by
  obtain ⟨r, hr, rfl⟩ := mem_lhsNames_iff.1 hname
  exact h.lhs hr

theorem terminalNames_cons (spec : Spec ν) :
    ∃ names, spec.terminalNames = Grammar.endName :: names := by
  simp [terminalNames, List.eraseDups_cons]

theorem idxOf_terminal_pos {name : String} (h : Text.isReserved name = false) :
    0 < spec.terminalNames.idxOf name := by
  obtain ⟨names, hnames⟩ := spec.terminalNames_cons
  rw [hnames, List.idxOf_cons_ne _ (ne_of_isReserved h isReserved_endName)]
  exact Nat.succ_pos _

theorem idxOf_nonterminal_pos {name : String} (h : Text.isReserved name = false) :
    0 < spec.names.nonterminals.idxOf name := by
  rw [names, List.idxOf_cons_ne _ (ne_of_isReserved h isReserved_acceptName)]
  exact Nat.succ_pos _

theorem mem_terminalNames_of_rhs {r : NamedRule ν} {name : String} (hr : r ∈ spec.rules)
    (hname : name ∈ r.rhs) (hlhs : name ∉ spec.lhsNames) : name ∈ spec.terminalNames := by
  simp only [terminalNames, List.mem_eraseDups, List.mem_append, List.mem_filter,
    List.mem_flatMap]
  exact .inl (.inl (.inr ⟨⟨r, hr, hname⟩, by simpa using hlhs⟩))

theorem mem_terminalNames_of_target {f : FallbackSpec} (h : f ∈ spec.fallbacks) :
    f.target ∈ spec.terminalNames := by
  simp only [terminalNames, List.mem_eraseDups, List.mem_append, List.mem_flatMap]
  exact .inr ⟨f, h, List.mem_cons_self ..⟩

theorem ordinary_symbol {name : String} (h : Text.isReserved name = false)
    (hmem : name ∉ spec.lhsNames → name ∈ spec.terminalNames) :
    (spec.names.symbol name).Ordinary spec.names.terminals.length
      spec.names.nonterminals.length := by
  by_cases hlhs : name ∈ spec.lhsNames
  · have hname : name ∈ spec.names.nonterminals := List.mem_cons_of_mem _ hlhs
    rw [Names.symbol_of_mem hname]
    exact ⟨idxOf_nonterminal_pos h, List.idxOf_lt_length_of_mem hname⟩
  · have hname : name ∉ spec.names.nonterminals := by
      rw [names, List.mem_cons, not_or]
      exact ⟨(ne_of_isReserved h isReserved_acceptName).symm, hlhs⟩
    rw [Names.symbol_of_not_mem hname]
    exact ⟨idxOf_terminal_pos h, List.idxOf_lt_length_of_mem (hmem hlhs)⟩

theorem cfg_grammar (spec : Spec ν) : spec.grammar.cfg = spec.cfg := by
  simp [Grammar.cfg, grammar, cfg, production, Function.comp_def]

theorem rules_cfg_grammar (r : Nat) :
    spec.grammar.cfg.rules[r]? = spec.allRules[r]?.map spec.names.rule := by
  simp [Grammar.cfg, grammar, production, Function.comp_def]

theorem mem_rulesOf_grammar_iff {n r : Nat} :
    r ∈ spec.grammar.cfg.rulesOf n ↔
      ∃ R, spec.allRules[r]? = some R ∧ spec.names.nonterminals.idxOf R.lhs = n := by
  simp [Cfg.mem_rulesOf_iff, rules_cfg_grammar, Names.rule]

theorem mem_rhs_grammar_iff {r : Nat} {x : Sym} :
    x ∈ spec.grammar.cfg.rhs r ↔
      ∃ R, spec.allRules[r]? = some R ∧ ∃ name ∈ R.rhs, spec.names.symbol name = x := by
  cases hR : spec.allRules[r]? with
  | none => simp [Cfg.rhs, rules_cfg_grammar, hR]
  | some R => simp [Cfg.rhs, rules_cfg_grammar, hR, Names.rule]

theorem size_terminals_grammar : spec.grammar.terminals.size = spec.names.terminals.length := by
  simp [grammar]

theorem terminalNames_grammar : spec.grammar.terminalNames = spec.terminalNames := by
  simp [Grammar.terminalNames, grammar, terminal, Function.comp_def, names]

theorem Unreserved.cfg_wellFormed (h : spec.Unreserved) (hstart : spec.startName ∈ spec.lhsNames) :
    spec.grammar.cfg.WellFormed spec.grammar.terminals.size spec.grammar.start where
  zero_mem := mem_rulesOf_grammar_iff.2 ⟨spec.acceptRule, rfl, by simp [acceptRule, names]⟩
  rhs_zero := by
    have hmem : spec.startName ∈ spec.names.nonterminals := List.mem_cons_of_mem _ hstart
    have hrule : spec.allRules[0]? = some spec.acceptRule := rfl
    simp [Cfg.rhs, rules_cfg_grammar, hrule, acceptRule, Names.rule, Names.symbol_of_mem hmem]
    rfl
  eq_zero {r} hr := by
    obtain ⟨R, hR, hzero⟩ := mem_rulesOf_grammar_iff.1 hr
    cases r with
    | zero => rfl
    | succ r =>
      have hmem : R ∈ spec.rules := List.mem_of_getElem? hR
      have hpos : 0 < spec.names.nonterminals.idxOf R.lhs := idxOf_nonterminal_pos (h.lhs hmem)
      omega
  lt_nonterminals {n r} hr := by
    obtain ⟨R, hR, rfl⟩ := mem_rulesOf_grammar_iff.1 hr
    have hlt : spec.names.nonterminals.idxOf R.lhs < spec.names.nonterminals.length := by
      apply List.idxOf_lt_length_of_mem
      rcases List.mem_cons.1 (List.mem_of_getElem? hR) with rfl | hmem
      · exact List.mem_cons_self ..
      · exact List.mem_cons_of_mem _ (mem_lhsNames_iff.2 ⟨R, hmem, rfl⟩)
    simpa [Grammar.cfg, grammar] using hlt
  ordinary {r x} hx := by
    obtain ⟨R, hR, name, hname, rfl⟩ := mem_rhs_grammar_iff.1 hx
    have hordinary : (spec.names.symbol name).Ordinary spec.names.terminals.length
        spec.names.nonterminals.length := by
      rcases List.mem_cons.1 (List.mem_of_getElem? hR) with rfl | hmem
      · rw [List.mem_singleton.1 hname]
        exact ordinary_symbol (h.of_mem_lhsNames hstart) (absurd hstart)
      · exact ordinary_symbol (h.rhs hmem hname) (mem_terminalNames_of_rhs hmem hname)
    simpa [Grammar.cfg, grammar] using hordinary

theorem fallback?_grammar {t u : Nat} (h : spec.grammar.fallback? t = some u) :
    ∃ f ∈ spec.fallbacks, spec.terminalNames[t]? = some f.source ∧
      u = spec.terminalNames.idxOf f.target := by
  have hget : spec.grammar.terminals[t]? =
      spec.terminalNames[t]?.map (spec.terminal spec.names) := by
    simp [grammar, names]
  rw [Grammar.fallback?, hget] at h
  cases hname : spec.terminalNames[t]? with
  | none => simp [hname] at h
  | some name =>
    simp only [hname, Option.map_some, Option.bind_some, terminal, fallbackOf,
      Option.map_eq_some_iff] at h
    obtain ⟨f, hf, rfl⟩ := h
    have hsource : f.source = name := by simpa using List.find?_some hf
    exact ⟨f, List.mem_of_find?_eq_some hf, by rw [hsource], rfl⟩

theorem Unreserved.wellFormed (h : spec.Unreserved) (hstart : spec.startName ∈ spec.lhsNames) :
    spec.grammar.WellFormed where
  cfg := h.cfg_wellFormed hstart
  start_pos := idxOf_nonterminal_pos (h.of_mem_lhsNames hstart)
  nodup := by
    rw [terminalNames_grammar]
    exact nodup_eraseDups _
  terminalNames_zero := by
    obtain ⟨names, hnames⟩ := spec.terminalNames_cons
    simp [terminalNames_grammar, hnames]
  fallback {t u} hu := by
    obtain ⟨f, hf, -, rfl⟩ := fallback?_grammar hu
    rw [size_terminals_grammar]
    exact ⟨idxOf_terminal_pos (h.target hf),
      List.idxOf_lt_length_of_mem (mem_terminalNames_of_target hf)⟩
  fallback_zero := by
    rw [Option.eq_none_iff_forall_ne_some]
    intro u hu
    obtain ⟨f, hf, hsource, -⟩ := fallback?_grammar hu
    obtain ⟨names, hnames⟩ := spec.terminalNames_cons
    rw [hnames, List.getElem?_cons_zero, Option.some.injEq] at hsource
    exact ne_of_isReserved (h.source hf) isReserved_endName hsource

end Spec

theorem Grammar.IsAssembled.wellFormed {g : Grammar ν} (h : g.IsAssembled) : g.WellFormed := by
  obtain ⟨declarations, spec, hspec, hg⟩ := h
  obtain ⟨hstart, rfl⟩ := Spec.assemble_eq_ok hg
  exact (Spec.Unreserved.declareAll hspec).wellFormed hstart

theorem Spec.startName_grammar {spec : Spec ν} (h : spec.startName ∈ spec.lhsNames) :
    spec.grammar.startName = spec.startName := by
  have hmem : spec.startName ∈ spec.names.nonterminals := List.mem_cons_of_mem _ h
  simp [Grammar.startName, grammar, List.getElem?_idxOf hmem]

/-- The rule of the start item says of which nonterminal a whole input is a sentence. -/
theorem Grammar.IsAssembled.exists_production_zero {g : Grammar ν} (h : g.IsAssembled) :
    ∃ p, g.productions[0]? = some p ∧ p.lhs = Grammar.acceptName ∧ p.rhs = [g.startName] ∧
      p.rule = ⟨0, [.nonterminal g.start]⟩ := by
  obtain ⟨rule, hrule, hlhs⟩ := Cfg.mem_rulesOf_iff.1 h.wellFormed.cfg.zero_mem
  have hrhs : rule.rhs = [.nonterminal g.start] := by
    rw [← Cfg.rhs_eq hrule, h.wellFormed.cfg.rhs_zero]
  obtain ⟨declarations, spec, -, hg⟩ := h
  obtain ⟨hstart, rfl⟩ := Spec.assemble_eq_ok hg
  have hp : spec.grammar.productions[0]? = some (spec.production spec.names spec.acceptRule) := by
    simp [Spec.grammar, Spec.allRules]
  refine ⟨_, hp, rfl, ?_, ?_⟩
  · rw [Spec.startName_grammar hstart]
    rfl
  · rw [Grammar.cfg, Array.getElem?_map, hp, Option.map_some, Option.some.injEq] at hrule
    rw [hrule, ← hlhs, ← hrhs]

/-! Sums of numbers, a grammar to try things out on. -/

namespace Sums

def declarations : List (Site × Declaration Unit) :=
  [(default, .tokens "n"), (default, .rule "sum" "sum + n" (.native ()) none),
    (default, .rule "sum" "n" (.native ()) none)]

def spec : Spec Unit := (Spec.declareAll {} declarations).toOption.get (by decide +kernel)

def grammar : Grammar Unit := spec.assemble.toOption.get (by decide +kernel)

theorem declareAll_eq : Spec.declareAll {} declarations = .ok spec := Except.eq_ok_get _ _

theorem isAssembled : grammar.IsAssembled :=
  ⟨declarations, spec, declareAll_eq, Except.eq_ok_get _ _⟩

end Sums

end Lalr
