import Lalr.Proofs.Grammar.Assembly

/-!
Grammars that differ in nothing but how they rank rules, in what else their terminals fall back to,
and in the terminals that only these speak of. Their rules are numbered alike, symbol by symbol:
the terminals that rules are made of come before all that are named elsewhere.
-/

namespace Lalr

variable {ν : Type}

/-- What a rule says and what it does. -/
structure BareRule (ν : Type) where
  lhs : String
  rhs : List String
  body : Body ν

structure BareProduction (ν : Type) extends BareRule ν where
  rule : Rule
  routine : Routine ν

/-- Without its place, and without its rank. -/
def NamedRule.bare (r : NamedRule ν) : BareRule ν := ⟨r.lhs, r.rhs, r.body⟩

def Production.bare (p : Production ν) : BareProduction ν := ⟨p.toNamedRule.bare, p.rule, p.routine⟩

namespace Names

def bareRule (names : Names) (r : BareRule ν) : Rule :=
  ⟨names.nonterminals.idxOf r.lhs, r.rhs.map names.symbol⟩

def bareProduction (names : Names) (r : BareRule ν) : BareProduction ν :=
  ⟨r, names.bareRule r, r.body.prepare⟩

end Names

namespace Spec

variable {spec spec' : Spec ν}

/-- The terminals that are numbered first: the end of input, tokens, and those of rules. -/
def basis (spec : Spec ν) : List String :=
  (Grammar.endName :: spec.tokenNames
    ++ (spec.rules.flatMap (·.rhs)).filter (!spec.lhsNames.contains ·)).eraseDups

def basisNames (spec : Spec ν) : Names := ⟨spec.basis, Grammar.acceptName :: spec.lhsNames⟩

theorem basis_isPrefix (spec : Spec ν) : spec.basis <+: spec.terminalNames := by
  rw [basis, terminalNames, List.append_assoc, List.append_assoc (Grammar.endName :: _),
    ← List.append_assoc (_ :: _)]
  exact eraseDups_isPrefix _ _

theorem endName_mem_basis (spec : Spec ν) : Grammar.endName ∈ spec.basis := by
  simp [basis, List.mem_eraseDups]

theorem mem_basis_of_rhs {r : NamedRule ν} {name : String} (hr : r ∈ spec.rules)
    (hname : name ∈ r.rhs) (hlhs : name ∉ spec.lhsNames) : name ∈ spec.basis := by
  simp only [basis, List.mem_eraseDups, List.mem_append, List.mem_filter, List.mem_flatMap]
  exact .inr ⟨⟨r, hr, hname⟩, by simpa using hlhs⟩

/-- There are tokens or rules that speak of it. -/
def Mentions (spec : Spec ν) (name : String) : Prop :=
  name = Grammar.endName ∨ name ∈ spec.tokenNames ∨ ∃ r ∈ spec.rules, name ∈ r.rhs

theorem mentions_of_mem_basis {name : String} (h : name ∈ spec.basis) : spec.Mentions name := by
  simp only [basis, List.mem_eraseDups, List.mem_append, List.mem_cons, List.mem_filter,
    List.mem_flatMap] at h
  rcases h with (hend | htoken) | ⟨hrule, -⟩
  · exact .inl hend
  · exact .inr (.inl htoken)
  · exact .inr (.inr hrule)

/-- All symbols of rules are among the nonterminals and the terminals that are numbered first. -/
theorem mem_of_mem_allRules (hstart : spec.startName ∈ spec.lhsNames) {r : NamedRule ν}
    (hr : r ∈ spec.allRules) {name : String} (hname : name ∈ r.rhs) :
    name ∈ spec.names.nonterminals ∨ name ∈ spec.basis := by
  rcases List.mem_cons.1 hr with rfl | hr
  · rw [List.mem_singleton.1 hname]
    exact .inl (List.mem_cons_of_mem _ hstart)
  · by_cases hlhs : name ∈ spec.lhsNames
    · exact .inl (List.mem_cons_of_mem _ hlhs)
    · exact .inr (mem_basis_of_rhs hr hname hlhs)

theorem symbol_names {name : String} (h : name ∈ spec.names.nonterminals ∨ name ∈ spec.basis) :
    spec.names.symbol name = spec.basisNames.symbol name := by
  by_cases hmem : name ∈ spec.names.nonterminals
  · have hmem' : name ∈ spec.basisNames.nonterminals := hmem
    exact (Names.symbol_of_mem hmem).trans (Names.symbol_of_mem hmem').symm
  · have hmem' : name ∉ spec.basisNames.nonterminals := hmem
    rw [Names.symbol_of_not_mem hmem, Names.symbol_of_not_mem hmem']
    exact congrArg Sym.terminal (idxOf_of_isPrefix spec.basis_isPrefix (h.resolve_left hmem))

theorem rule_names (hstart : spec.startName ∈ spec.lhsNames) {r : NamedRule ν}
    (hr : r ∈ spec.allRules) : spec.names.rule r = spec.basisNames.bareRule r.bare := by
  have hrhs : r.rhs.map spec.names.symbol = r.rhs.map spec.basisNames.symbol :=
    List.map_congr_left fun _ hname => symbol_names (mem_of_mem_allRules hstart hr hname)
  rw [Names.rule, hrhs]
  rfl

theorem bare_productions_grammar (hstart : spec.startName ∈ spec.lhsNames) :
    spec.grammar.productions.toList.map Production.bare =
      (spec.allRules.map NamedRule.bare).map spec.basisNames.bareProduction := by
  simp only [grammar, List.map_map]
  refine List.map_congr_left fun r hr => ?_
  simp only [Function.comp_apply, production, rule_names hstart hr]
  rfl

/-- Tokens, rules and start are the same. -/
structure Alike (spec spec' : Spec ν) : Prop where
  tokenNames : spec'.tokenNames = spec.tokenNames
  rules : spec'.rules.map NamedRule.bare = spec.rules.map NamedRule.bare
  startName : spec'.startName = spec.startName

namespace Alike

theorem lhsNames_eq (h : spec.Alike spec') : spec'.lhsNames = spec.lhsNames := by
  have hlhs := congrArg (List.map BareRule.lhs) h.rules
  rw [List.map_map, List.map_map] at hlhs
  exact congrArg List.eraseDups hlhs

theorem basis_eq (h : spec.Alike spec') : spec'.basis = spec.basis := by
  have hrhs : spec'.rules.flatMap (·.rhs) = spec.rules.flatMap (·.rhs) := by
    have hmap := congrArg (List.flatMap BareRule.rhs) h.rules
    rwa [List.flatMap_map, List.flatMap_map] at hmap
  rw [basis, basis, h.tokenNames, h.lhsNames_eq, hrhs]

theorem bare_allRules (h : spec.Alike spec') :
    spec'.allRules.map NamedRule.bare = spec.allRules.map NamedRule.bare := by
  simp only [allRules, List.map_cons, h.rules]
  simp [acceptRule, NamedRule.bare, h.startName]

end Alike
end Spec

namespace Grammar

variable {names : List String} {g g' : Grammar ν}

/-- The rules are the same, and all their terminals are among those with the names, which come first
in both grammars. -/
structure Alike (names : List String) (g g' : Grammar ν) : Prop where
  productions : g'.productions.map Production.bare = g.productions.map Production.bare
  nonterminals : g'.nonterminals = g.nonterminals
  isPrefix : names <+: g.terminalNames
  isPrefix' : names <+: g'.terminalNames
  endName_mem : endName ∈ names
  cfg_wellFormed : g.cfg.WellFormed names.length g.start

/-- The numbers of one terminal in the two grammars. -/
def Shares (g g' : Grammar ν) (a a' : Nat) : Prop :=
  ∃ name, g.terminal? name = some a ∧ g'.terminal? name = some a'

theorem terminal?_eq_some_iff {name : String} {a : Nat} :
    g.terminal? name = some a ↔ name ∈ g.terminalNames ∧ g.terminalNames.idxOf name = a :=
  idxOf?_eq_some

theorem isTerminal_iff {name : String} :
    g.isTerminal name = true ↔ ∃ a, g.terminal? name = some a := by
  simp [isTerminal, terminal?_eq_some_iff]

theorem length_terminalNames (g : Grammar ν) : g.terminalNames.length = g.terminals.size := by
  simp [terminalNames]

theorem lt_size_of_terminal? {name : String} {a : Nat} (h : g.terminal? name = some a) :
    a < g.terminals.size := by
  obtain ⟨hmem, rfl⟩ := terminal?_eq_some_iff.1 h
  exact g.length_terminalNames ▸ List.idxOf_lt_length_of_mem hmem

theorem terminal?_of_isPrefix (h : g.terminalNames <+: g'.terminalNames) {name : String} {a : Nat}
    (ha : g.terminal? name = some a) : g'.terminal? name = some a := by
  obtain ⟨hmem, rfl⟩ := terminal?_eq_some_iff.1 ha
  exact terminal?_eq_some_iff.2 ⟨h.subset hmem, idxOf_of_isPrefix h hmem⟩

theorem terminalName_eq_getD (g : Grammar ν) (a : Nat) :
    g.terminalName a = g.terminalNames[a]?.getD "?" := by simp [terminalName, terminalNames]

theorem Shares.terminalName_eq {a a' : Nat} (h : g.Shares g' a a') :
    g'.terminalName a' = g.terminalName a := by
  obtain ⟨name, ha, ha'⟩ := h
  rw [terminalName_of_terminal? ha, terminalName_of_terminal? ha']

namespace Alike

theorem cfg_eq (h : Alike names g g') : g'.cfg = g.cfg := by
  have hrules := congrArg (Array.map BareProduction.rule) h.productions
  rw [Array.map_map, Array.map_map] at hrules
  rw [cfg, cfg, h.nonterminals]
  exact congrArg (Cfg.mk _) hrules

/-- Terminals of rules have one number in both grammars, and others have numbers above those. -/
theorem of_shares (h : Alike names g g') {a a' : Nat} (ha : g.Shares g' a a') :
    a' = a ∨ names.length ≤ a ∧ names.length ≤ a' := by
  obtain ⟨name, ha, ha'⟩ := ha
  obtain ⟨-, rfl⟩ := terminal?_eq_some_iff.1 ha
  obtain ⟨-, rfl⟩ := terminal?_eq_some_iff.1 ha'
  by_cases hname : name ∈ names
  · rw [idxOf_of_isPrefix h.isPrefix hname, idxOf_of_isPrefix h.isPrefix' hname]
    exact .inl rfl
  · exact .inr ⟨length_le_idxOf h.isPrefix hname, length_le_idxOf h.isPrefix' hname⟩

theorem terminalName_eq (h : Alike names g g') {a : Nat} (ha : a < names.length) :
    g'.terminalName a = g.terminalName a := by
  have hname : ∀ {g : Grammar ν}, names <+: g.terminalNames → g.terminalName a = names[a] := by
    rintro g ⟨others, hothers⟩
    have hget : g.terminalNames[a]? = some names[a] := by
      rw [← hothers, List.getElem?_append_left ha, List.getElem?_eq_getElem ha]
    rw [terminalName_eq_getD, hget, Option.getD_some]
  rw [hname h.isPrefix, hname h.isPrefix']

theorem length_le (h : Alike names g g') : names.length ≤ g.terminals.size :=
  g.length_terminalNames ▸ h.isPrefix.length_le

theorem length_le' (h : Alike names g g') : names.length ≤ g'.terminals.size :=
  g'.length_terminalNames ▸ h.isPrefix'.length_le

theorem production?_bare (h : Alike names g g') (r : Nat) :
    g'.productions[r]?.map Production.bare = g.productions[r]?.map Production.bare := by
  simpa using congrArg (·[r]?) h.productions

end Alike
end Grammar

namespace Spec

variable {spec spec' : Spec ν}

theorem lt_length_basis (hstart : spec.startName ∈ spec.lhsNames) {r t : Nat}
    (ht : .terminal t ∈ spec.grammar.cfg.rhs r) : t < spec.basis.length := by
  obtain ⟨R, hR, name, hname, hsymbol⟩ := mem_rhs_grammar_iff.1 ht
  have hmem := mem_of_mem_allRules hstart (List.mem_of_getElem? hR) hname
  by_cases hlhs : name ∈ spec.names.nonterminals
  · rw [Names.symbol_of_mem hlhs] at hsymbol
    cases hsymbol
  · have hlhs' : name ∉ spec.basisNames.nonterminals := hlhs
    rw [symbol_names hmem, Names.symbol_of_not_mem hlhs'] at hsymbol
    cases hsymbol
    exact List.idxOf_lt_length_of_mem (hmem.resolve_left hlhs)

theorem Unreserved.cfg_wellFormed_basis (h : spec.Unreserved)
    (hstart : spec.startName ∈ spec.lhsNames) :
    spec.grammar.cfg.WellFormed spec.basis.length spec.grammar.start :=
  { h.cfg_wellFormed hstart with
    ordinary := fun {_ x} hx => by
      have hordinary := (h.cfg_wellFormed hstart).ordinary hx
      cases x with
      | terminal t => exact ⟨hordinary.1, lt_length_basis hstart hx⟩
      | nonterminal n => exact hordinary }

/-- Grammars of the same tokens, rules and start are alike in the terminals of rules. -/
theorem Alike.grammar (h : spec.Alike spec') (hu : spec.Unreserved)
    (hstart : spec.startName ∈ spec.lhsNames) :
    Grammar.Alike spec.basis spec.grammar spec'.grammar where
  productions := by
    have hstart' : spec'.startName ∈ spec'.lhsNames := by rwa [h.startName, h.lhsNames_eq]
    have hnames : spec'.basisNames = spec.basisNames := by
      rw [basisNames, basisNames, h.basis_eq, h.lhsNames_eq]
    apply Array.toList_inj.1
    rw [Array.toList_map, Array.toList_map, bare_productions_grammar hstart,
      bare_productions_grammar hstart', h.bare_allRules, hnames]
  nonterminals := by simp [Spec.grammar, names, h.lhsNames_eq]
  isPrefix := terminalNames_grammar ▸ spec.basis_isPrefix
  isPrefix' := terminalNames_grammar ▸ h.basis_eq ▸ spec'.basis_isPrefix
  endName_mem := spec.endName_mem_basis
  cfg_wellFormed := hu.cfg_wellFormed_basis hstart

/-! What terminals fall back to. -/

def fallbackNames (spec : Spec ν) : List (String × String) :=
  spec.fallbacks.map fun f => (f.target, f.source)

theorem target_mem_terminalNames {target source : String}
    (h : (target, source) ∈ spec.fallbackNames) : target ∈ spec.terminalNames := by
  obtain ⟨f, hf, heq⟩ := List.mem_map.1 h
  cases heq
  exact mem_terminalNames_of_target hf

theorem fallback?_of_terminal? {name : String} {a : Nat}
    (h : spec.grammar.terminal? name = some a) : spec.grammar.fallback? a =
      (spec.fallbackNames.find? (·.2 = name)).map fun f => spec.terminalNames.idxOf f.1 := by
  obtain ⟨hmem, rfl⟩ := Grammar.terminal?_eq_some_iff.1 h
  rw [terminalNames_grammar] at hmem ⊢
  simp [Grammar.fallback?, grammar, names, List.getElem?_idxOf hmem, terminal, fallbackOf,
    fallbackNames, List.find?_map, Function.comp_def]

/-- With the same fallbacks, a terminal falls back to one terminal in both grammars, or to none. -/
theorem rel_fallback? (h : spec'.fallbackNames = spec.fallbackNames) {a a' : Nat}
    (ha : spec.grammar.Shares spec'.grammar a a') :
    Option.Rel (spec.grammar.Shares spec'.grammar) (spec.grammar.fallback? a)
      (spec'.grammar.fallback? a') := by
  obtain ⟨name, ha, ha'⟩ := ha
  rw [fallback?_of_terminal? ha, fallback?_of_terminal? ha', h]
  cases hfind : spec.fallbackNames.find? (·.2 = name) with
  | none => exact .none
  | some f =>
    have hmem := List.mem_of_find?_eq_some hfind
    refine .some ⟨f.1, Grammar.terminal?_eq_some_iff.2 ?_, Grammar.terminal?_eq_some_iff.2 ?_⟩ <;>
      rw [terminalNames_grammar]
    · exact ⟨target_mem_terminalNames hmem, rfl⟩
    · exact ⟨target_mem_terminalNames (h ▸ hmem), rfl⟩

end Spec

end Lalr
