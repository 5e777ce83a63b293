import Lalr.Proofs.Grammar.Assembly

/-!
Declarations are assembled just if they fit together. Each of the faults that are looked for is one
way in which they do not, and there is no other.
-/

namespace Lalr

variable {ν : Type}

/-- The helper is called in the expression, or in something in it. -/
inductive Expr.Calls (helper : String) : Expr → Prop
  | call {args} : Calls helper (.call helper args)
  | item {items e} : e ∈ items → Calls helper e → Calls helper (.list items)
  | argument {name args e} : e ∈ args → Calls helper e → Calls helper (.call name args)
  | receiver {r name args} : Calls helper r → Calls helper (.method r name args)
  | methodArgument {r name args e} : e ∈ args → Calls helper e → Calls helper (.method r name args)
  | field {r name} : Calls helper r → Calls helper (.field r name)

def Template.Calls (t : Template) (helper : String) : Prop :=
  (∃ b ∈ t.bindings, b.2.Calls helper) ∨ t.result.Calls helper

namespace Spec

def Defines (spec : Spec ν) (name : String) : Prop := ∃ r ∈ spec.rules, r.lhs = name

/-- The rules lead from the start to the name. -/
inductive Reaches (spec : Spec ν) : String → Prop
  | start : spec.Reaches spec.startName
  | rule {r name} : spec.Reaches r.lhs → r ∈ spec.rules → name ∈ r.rhs → spec.Reaches name

structure Consistent (spec : Spec ν) : Prop where
  rules_ne_nil : spec.rules ≠ []
  lhs {r : NamedRule ν} : r ∈ spec.rules → r.lhs ∉ spec.tokenNames
  start : spec.Defines spec.startName
  rhs {r : NamedRule ν} {name : String} : r ∈ spec.rules → name ∈ r.rhs →
    spec.Defines name ∨ name ∈ spec.tokenNames ∨ Text.isPunctuation name = true
  band {b : BandSpec} {name : String} : b ∈ spec.bands → name ∈ b.names → ¬ spec.Defines name
  fallback {f : FallbackSpec} : f ∈ spec.fallbacks →
    ¬ spec.Defines f.target ∧ ¬ spec.Defines f.source
  precedenceSymbol {r : NamedRule ν} {name : String} : r ∈ spec.rules →
    r.precedenceSymbol = some name → ∃ b ∈ spec.bands, name ∈ b.names
  helper {r : NamedRule ν} {t : Template} {h : String} : r ∈ spec.rules → r.body = .template t →
    t.Calls h → h ∈ spec.helpers
  reaches {r : NamedRule ν} : r ∈ spec.rules → spec.Reaches r.lhs

end Spec

/-! What is called. -/

namespace Expr

variable {helper : String}

mutual

theorem calls_of_mem_nodes {x : Expr} (hx : x.called? = some helper) :
    ∀ {e : Expr}, x ∈ e.nodes → e.Calls helper := by
  intro e h
  cases e with
  | capture i | bound i | literal l =>
    rw [nodes, List.mem_singleton] at h
    subst h
    cases hx
  | list items =>
    rw [nodes, List.mem_cons] at h
    rcases h with rfl | h
    · cases hx
    · obtain ⟨e, he, hcalls⟩ := calls_of_mem_nodesOf hx h
      exact .item he hcalls
  | call name args =>
    rw [nodes, List.mem_cons] at h
    rcases h with rfl | h
    · cases hx
      exact .call
    · obtain ⟨e, he, hcalls⟩ := calls_of_mem_nodesOf hx h
      exact .argument he hcalls
  | method r name args =>
    rw [nodes, List.mem_cons, List.mem_append] at h
    rcases h with rfl | h | h
    · cases hx
    · exact .receiver (calls_of_mem_nodes hx h)
    · obtain ⟨e, he, hcalls⟩ := calls_of_mem_nodesOf hx h
      exact .methodArgument he hcalls
  | field r name =>
    rw [nodes, List.mem_cons] at h
    rcases h with rfl | h
    · cases hx
    · exact .field (calls_of_mem_nodes hx h)

theorem calls_of_mem_nodesOf {x : Expr} (hx : x.called? = some helper) :
    ∀ {es : List Expr}, x ∈ nodesOf es → ∃ e ∈ es, e.Calls helper := by
  intro es h
  cases es with
  | nil => cases h
  | cons e es =>
    rw [nodesOf, List.mem_append] at h
    rcases h with h | h
    · exact ⟨e, List.mem_cons_self .., calls_of_mem_nodes hx h⟩
    · obtain ⟨e', he', hcalls⟩ := calls_of_mem_nodesOf hx h
      exact ⟨e', List.mem_cons_of_mem _ he', hcalls⟩

end

theorem nodes_subset_nodesOf {e : Expr} {es : List Expr} (h : e ∈ es) : e.nodes ⊆ nodesOf es := by
  induction es with
  | nil => cases h
  | cons e' es ih =>
    intro x hx
    rw [nodesOf, List.mem_append]
    rcases List.mem_cons.1 h with rfl | h
    · exact .inl hx
    · exact .inr (ih h hx)

theorem Calls.exists_mem_nodes {e : Expr} (h : e.Calls helper) :
    ∃ x ∈ e.nodes, x.called? = some helper := by
  induction h with
  | call => exact ⟨_, List.mem_cons_self .., rfl⟩
  | item he _ ih | argument he _ ih =>
    obtain ⟨x, hx, hcalled⟩ := ih
    exact ⟨x, List.mem_cons_of_mem _ (nodes_subset_nodesOf he hx), hcalled⟩
  | receiver _ ih =>
    obtain ⟨x, hx, hcalled⟩ := ih
    exact ⟨x, List.mem_cons_of_mem _ (List.mem_append_left _ hx), hcalled⟩
  | methodArgument he _ ih =>
    obtain ⟨x, hx, hcalled⟩ := ih
    have hargs := nodes_subset_nodesOf he hx
    exact ⟨x, List.mem_cons_of_mem _ (List.mem_append_right _ hargs), hcalled⟩
  | field _ ih =>
    obtain ⟨x, hx, hcalled⟩ := ih
    exact ⟨x, List.mem_cons_of_mem _ hx, hcalled⟩

end Expr

theorem Template.mem_helpers_iff {t : Template} {helper : String} :
    helper ∈ t.helpers ↔ t.Calls helper := by
  simp only [helpers, nodes, List.mem_filterMap, List.mem_append, List.mem_flatMap, Calls]
  constructor
  · rintro ⟨x, ⟨b, hb, hx⟩ | hx, hcalled⟩
    · exact .inl ⟨b, hb, Expr.calls_of_mem_nodes hcalled hx⟩
    · exact .inr (Expr.calls_of_mem_nodes hcalled hx)
  · rintro (⟨b, hb, hcalls⟩ | hcalls)
    · obtain ⟨x, hx, hcalled⟩ := hcalls.exists_mem_nodes
      exact ⟨x, .inl ⟨b, hb, hx⟩, hcalled⟩
    · obtain ⟨x, hx, hcalled⟩ := hcalls.exists_mem_nodes
      exact ⟨x, .inr hx, hcalled⟩

/-! What the faults are. -/

namespace Spec

variable {spec : Spec ν}

theorem defines_iff {name : String} : spec.Defines name ↔ name ∈ spec.lhsNames :=
  mem_lhsNames_iff.symm

theorem emptyFault?_eq_none_iff : spec.emptyFault? = none ↔ spec.rules ≠ [] := by
  simp [emptyFault?]

theorem tokenFault?_eq_none_iff :
    spec.tokenFault? = none ↔ ∀ r ∈ spec.rules, r.lhs ∉ spec.tokenNames := by
  simp [tokenFault?, List.findSome?_eq_none_iff]

theorem startFault?_eq_none_iff : spec.startFault? = none ↔ spec.Defines spec.startName := by
  simp [startFault?, defines_iff]

theorem undefinedFault?_eq_none_iff :
    spec.undefinedFault? = none ↔ ∀ r ∈ spec.rules, ∀ name ∈ r.rhs,
      spec.Defines name ∨ name ∈ spec.tokenNames ∨ Text.isPunctuation name = true := by
  simp [undefinedFault?, List.findSome?_eq_none_iff, defines_iff, or_iff_not_imp_left]

theorem bandFault?_eq_none_iff :
    spec.bandFault? = none ↔ ∀ b ∈ spec.bands, ∀ name ∈ b.names, ¬ spec.Defines name := by
  simp [bandFault?, List.findSome?_eq_none_iff, defines_iff]

theorem fallbackFault?_eq_none_iff :
    spec.fallbackFault? = none ↔
      ∀ f ∈ spec.fallbacks, ¬ spec.Defines f.target ∧ ¬ spec.Defines f.source := by
  simp [fallbackFault?, List.findSome?_eq_none_iff, defines_iff]

theorem precedenceOf_eq_none_iff {name : String} :
    spec.precedenceOf name = none ↔ ∀ b ∈ spec.bands, name ∉ b.names := by
  have hbands : spec.bands.zipIdx.map Prod.fst = spec.bands := by simp
  conv_rhs => rw [← hbands, List.forall_mem_map]
  simp [precedenceOf, List.findSome?_eq_none_iff]

theorem precedenceSymbolFault?_eq_none_iff {r : NamedRule ν} :
    spec.precedenceSymbolFault? r = none ↔
      ∀ name, r.precedenceSymbol = some name → ∃ b ∈ spec.bands, name ∈ b.names := by
  cases hsymbol : r.precedenceSymbol with
  | none => simp [precedenceSymbolFault?, hsymbol]
  | some name => simp [precedenceSymbolFault?, hsymbol, precedenceOf_eq_none_iff]

theorem helperFault?_eq_none_iff {r : NamedRule ν} :
    spec.helperFault? r = none ↔
      ∀ t, r.body = .template t → ∀ h, t.Calls h → h ∈ spec.helpers := by
  cases hbody : r.body with
  | native f => simp [helperFault?, hbody]
  | template t => simp [helperFault?, hbody, ← Template.mem_helpers_iff]

theorem ruleFault?_eq_none_iff :
    spec.ruleFault? = none ↔ ∀ r ∈ spec.rules,
      (∀ name, r.precedenceSymbol = some name → ∃ b ∈ spec.bands, name ∈ b.names) ∧
        ∀ t, r.body = .template t → ∀ h, t.Calls h → h ∈ spec.helpers := by
  simp [ruleFault?, List.findSome?_eq_none_iff, precedenceSymbolFault?_eq_none_iff,
    helperFault?_eq_none_iff]

/-! What cannot be reached. -/

theorem Defines.mem_nonterminals {name : String} (h : spec.Defines name) :
    name ∈ spec.names.nonterminals := List.mem_cons_of_mem _ (defines_iff.1 h)

theorem Unreserved.mem_nonterminals_iff (h : spec.Unreserved) {r : NamedRule ν} {name : String}
    (hr : r ∈ spec.rules) (hname : name ∈ r.rhs) :
    name ∈ spec.names.nonterminals ↔ spec.Defines name := by
  have hne : name ≠ Grammar.acceptName :=
    (ne_of_isReserved (h.rhs hr hname) isReserved_acceptName).symm
  simp [names, hne, defines_iff]

theorem Unreserved.nodup_nonterminals (h : spec.Unreserved) : spec.names.nonterminals.Nodup := by
  refine List.nodup_cons.2 ⟨fun hmem => ?_, nodup_eraseDups _⟩
  exact ne_of_isReserved (h.of_mem_lhsNames hmem) isReserved_acceptName rfl

theorem reachFault?_eq_none_iff (h : spec.Unreserved) :
    spec.reachFault? = none ↔
      ∀ r ∈ spec.rules, spec.names.nonterminals.idxOf r.lhs ∈ spec.cfg.reachable := by
  simp only [reachFault?, List.findSome?_eq_none_iff]
  constructor
  · intro hnone r hr
    have hmem : r.lhs ∈ spec.names.nonterminals :=
      List.mem_cons_of_mem _ (mem_lhsNames_iff.2 ⟨r, hr, rfl⟩)
    have hplace := hnone (r.lhs, spec.names.nonterminals.idxOf r.lhs)
      (List.mem_zipIdx_iff_getElem?.2 (List.getElem?_idxOf hmem))
    by_contra hnot
    rw [if_neg fun hin => hnot (List.contains_iff_mem.1 hin), Option.map_eq_none_iff,
      List.find?_eq_none] at hplace
    exact hplace r hr (by simp)
  · rintro hall ⟨name, n⟩ hplace
    split
    · rfl
    · next hnot =>
      rw [Option.map_eq_none_iff, List.find?_eq_none]
      intro r hr hlhs
      obtain ⟨hn, hget⟩ := List.getElem?_eq_some_iff.1 (List.mem_zipIdx_iff_getElem?.1 hplace)
      have hname : spec.names.nonterminals[n] = r.lhs := hget.trans (of_decide_eq_true hlhs).symm
      have hreach := hall r hr
      rw [← hname, h.nodup_nonterminals.idxOf_getElem] at hreach
      exact hnot (by simpa using hreach)

theorem symbol_eq_nonterminal_iff {names : Names} {name : String} {n : Nat} :
    names.symbol name = .nonterminal n ↔
      name ∈ names.nonterminals ∧ names.nonterminals.idxOf name = n := by
  by_cases hname : name ∈ names.nonterminals
  · simp [Names.symbol_of_mem hname, hname]
  · simp [Names.symbol_of_not_mem hname, hname]

theorem mem_mentioned_grammar_iff {m n : Nat} :
    m ∈ spec.grammar.cfg.mentioned n ↔
      ∃ r ∈ spec.allRules, spec.names.nonterminals.idxOf r.lhs = n ∧
        ∃ name ∈ r.rhs, name ∈ spec.names.nonterminals ∧
          spec.names.nonterminals.idxOf name = m := by
  simp only [Cfg.mentioned, List.mem_flatMap, List.mem_filterMap, mem_rulesOf_grammar_iff,
    mem_rhs_grammar_iff, ← symbol_eq_nonterminal_iff]
  constructor
  · rintro ⟨k, ⟨r, hr, hlhs⟩, x, ⟨r', hr', name, hname, hx⟩, hm⟩
    rw [hr, Option.some.injEq] at hr'
    subst hr'
    cases x with
    | terminal t => cases hm
    | nonterminal m' =>
      cases hm
      exact ⟨r, List.mem_of_getElem? hr, hlhs, name, hname, hx⟩
  · rintro ⟨r, hr, hlhs, name, hname, hx⟩
    obtain ⟨k, hk⟩ := List.mem_iff_getElem?.1 hr
    exact ⟨k, ⟨r, hk, hlhs⟩, .nonterminal m, ⟨r, hk, name, hname, hx⟩, rfl⟩

/-- Leads through numbers, and what is reached has names. -/
theorem Unreserved.reaches_of_leads (h : spec.Unreserved) (hstart : spec.Defines spec.startName)
    {n : Nat} (hleads : Leads spec.grammar.cfg.mentioned [0] n) :
    n = 0 ∨ ∃ name, spec.Defines name ∧ spec.names.nonterminals.idxOf name = n ∧
      spec.Reaches name := by
  refine hleads.induction (P := fun n => n = 0 ∨ ∃ name, spec.Defines name ∧
    spec.names.nonterminals.idxOf name = n ∧ spec.Reaches name)
    (fun n hn => .inl (List.mem_singleton.1 hn)) fun n m hn hm => ?_
  obtain ⟨r, hr, hlhs, name, hname, hmem, hm⟩ := mem_mentioned_grammar_iff.1 hm
  rcases List.mem_cons.1 hr with rfl | hr
  · rw [acceptRule, List.mem_singleton] at hname
    exact .inr ⟨name, hname ▸ hstart, hm, hname ▸ .start⟩
  · rcases hn with rfl | ⟨lhs, hdefined, hn, hreaches⟩
    · exact absurd hlhs (Nat.ne_of_gt (idxOf_nonterminal_pos (h.lhs hr)))
    · rw [← hlhs, List.idxOf_inj hdefined.mem_nonterminals] at hn
      subst hn
      exact .inr ⟨name, (h.mem_nonterminals_iff hr hname).1 hmem, hm, hreaches.rule hr hname⟩

theorem Reaches.leads {name : String} (h : spec.Reaches name) (hname : spec.Defines name) :
    Leads spec.grammar.cfg.mentioned [0] (spec.names.nonterminals.idxOf name) := by
  induction h with
  | start =>
    refine (Leads.of_mem (List.mem_singleton_self 0)).step (mem_mentioned_grammar_iff.2 ?_)
    exact ⟨spec.acceptRule, List.mem_cons_self .., by simp [acceptRule, names], spec.startName,
      List.mem_singleton_self _, hname.mem_nonterminals, rfl⟩
  | @rule r name _ hr hrhs ih =>
    refine (ih ⟨r, hr, rfl⟩).step (mem_mentioned_grammar_iff.2 ?_)
    exact ⟨r, List.mem_cons_of_mem _ hr, rfl, name, hrhs, hname.mem_nonterminals, rfl⟩

theorem Unreserved.mem_reachable_iff (h : spec.Unreserved) (hstart : spec.Defines spec.startName)
    {name : String} (hname : spec.Defines name) :
    spec.names.nonterminals.idxOf name ∈ spec.cfg.reachable ↔ spec.Reaches name := by
  rw [← cfg_grammar, (h.cfg_wellFormed (defines_iff.1 hstart)).mem_reachable_iff]
  refine ⟨fun hleads => ?_, fun hreaches => hreaches.leads hname⟩
  have hpos : 0 < spec.names.nonterminals.idxOf name :=
    idxOf_nonterminal_pos (h.of_mem_lhsNames (defines_iff.1 hname))
  rcases h.reaches_of_leads hstart hleads with hzero | ⟨x, hx, heq, hreaches⟩
  · omega
  · rw [List.idxOf_inj hx.mem_nonterminals] at heq
    exact heq ▸ hreaches

theorem Unreserved.fault?_eq_none_iff (h : spec.Unreserved) :
    spec.fault? = none ↔ spec.Consistent := by
  simp only [fault?, Option.orElse_eq_orElse, Option.orElse_eq_or, Option.or_eq_none_iff,
    emptyFault?_eq_none_iff, tokenFault?_eq_none_iff, startFault?_eq_none_iff,
    undefinedFault?_eq_none_iff, bandFault?_eq_none_iff, fallbackFault?_eq_none_iff,
    ruleFault?_eq_none_iff, reachFault?_eq_none_iff h]
  constructor
  · rintro ⟨hrules, hlhs, hstart, hrhs, hband, hfallback, hrule, hreach⟩
    exact
      { rules_ne_nil := hrules
        lhs := fun hr => hlhs _ hr
        start := hstart
        rhs := fun hr hname => hrhs _ hr _ hname
        band := fun hb hname => hband _ hb _ hname
        fallback := fun hf => hfallback _ hf
        precedenceSymbol := fun hr hname => (hrule _ hr).1 _ hname
        helper := fun hr hbody hcalls => (hrule _ hr).2 _ hbody _ hcalls
        reaches := fun hr => (h.mem_reachable_iff hstart ⟨_, hr, rfl⟩).1 (hreach _ hr) }
  · intro hc
    refine ⟨hc.rules_ne_nil, fun _ => hc.lhs, hc.start, fun _ hr _ => hc.rhs hr,
      fun _ hb _ => hc.band hb, fun _ => hc.fallback, fun _ hr => ⟨fun _ => hc.precedenceSymbol hr,
      fun _ hbody _ => hc.helper hr hbody⟩, fun r hr => ?_⟩
    exact (h.mem_reachable_iff hc.start ⟨r, hr, rfl⟩).2 (hc.reaches hr)

theorem exists_assemble_eq_iff : (∃ g, spec.assemble = .ok g) ↔ spec.fault? = none := by
  cases hfault : spec.fault? <;> simp [assemble, hfault]

/-- A grammar is made of declarations that are consistent, and of no others. -/
theorem assembles_iff_consistent {declarations : List (Site × Declaration ν)}
    (h : Spec.declareAll {} declarations = .ok spec) :
    (∃ g, spec.assemble = .ok g) ↔ spec.Consistent :=
  exists_assemble_eq_iff.trans (Unreserved.declareAll h).fault?_eq_none_iff

end Spec

/-! Sums are consistent, and a rule for something that sums do not lead to spoils that. -/

namespace Sums

def strayDeclarations : List (Site × Declaration Unit) :=
  declarations ++ [(default, .rule "stray" "n" (.native ()) none)]

def straySpec : Spec Unit := (Spec.declareAll {} strayDeclarations).toOption.get (by decide +kernel)

end Sums

theorem Sums.consistent_but_for_stray :
    Spec.declareAll {} declarations = .ok spec ∧ spec.Consistent ∧
      Spec.declareAll {} strayDeclarations = .ok straySpec ∧ ¬ straySpec.Consistent := by
  have hstray : Spec.declareAll {} strayDeclarations = .ok straySpec := Except.eq_ok_get _ _
  have hsums : ∃ g, spec.assemble = .ok g := ⟨grammar, Except.eq_ok_get _ _⟩
  refine ⟨declareAll_eq, (Spec.assembles_iff_consistent declareAll_eq).1 hsums, hstray,
    fun hconsistent => ?_⟩
  obtain ⟨g, hg⟩ := (Spec.assembles_iff_consistent hstray).2 hconsistent
  have herror : straySpec.assemble.toOption.isNone = true := by decide +kernel
  rw [hg] at herror
  cases herror

end Lalr
