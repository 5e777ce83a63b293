import Lalr.Proofs.Table.Resolution

/-!
A built table is all of a piece: each state has a cell for each terminal and a goto for each
nonterminal, and no move, goto or item speaks of a state, rule or symbol that does not exist. The
whole input is accepted in a single cell.
-/

namespace Lalr

variable {ν : Type}

namespace Cfg

variable {g : Cfg} {terminals start : Nat}

theorem mem_allKernels_of_mem (hg : 0 < g.rules.size) {kernel : List Item}
    (h : kernel ∈ g.kernels) : kernel ∈ g.allKernels := by
  refine (leads_of_mem_discover h).induction (P := (· ∈ g.allKernels)) (fun k hk => ?_)
    fun k k' hk hk' => follows_subset hk hk'
  rw [List.mem_singleton.1 hk]
  exact start_mem_allKernels hg

/-- The items of a state begin with its kernel, and their dots are in their rules. -/
theorem items_of_mem_states (hg : 0 < g.rules.size) {s : State} (hs : s ∈ g.states) :
    s.kernel <+: s.items ∧
      ∀ i ∈ s.items, i.rule < g.rules.size ∧ i.dot ≤ (g.rhs i.rule).length := by
  rw [states, List.mem_toArray, List.mem_map] at hs
  obtain ⟨kernel, hkernel, rfl⟩ := hs
  have hsub := subset_of_mem_allKernels (mem_allKernels_of_mem hg hkernel)
  exact ⟨discover_extends g.predicted (kernel.length + g.rules.size) kernel,
    fun i hi => mem_allItems_iff.1 (closure_subset hsub hi)⟩

theorem lt_size_of_goTo (hg : 0 < g.rules.size) {q q' : Nat} {x : Sym}
    (h : g.goTo q x = some q') : q' < g.states.size :=
  g.size_states ▸ (List.getElem?_eq_some_iff.1 (kernel_of_goTo hg h)).1

theorem WellFormed.lt_of_reaches (h : g.WellFormed terminals start) {n a : Nat}
    (hr : g.firstFlow.Reaches n a) : a < terminals := by
  induction hr with
  | seed hs ha =>
    obtain ⟨r, -, t, hfront, rfl⟩ := mem_firstFlow_seeds.1 hs
    obtain ⟨u, v, hrhs, -⟩ := mem_fronts_iff.1 hfront
    rw [IdSet.mem_singleton.1 ha]
    exact (h.ordinary (r := r) (x := .terminal t) (by simp [hrhs])).2
  | link _ _ ih => exact ih

end Cfg

/-- What is looked up in a table, by its questions, by parsers and for its report, is there. -/
structure Table.Closed (t : Table ν) : Prop where
  states : t.automaton.states.size = t.states ∧ t.gotos.size = t.states
  row {row : Array Cell} : row ∈ t.rows → row.size = t.terminals
  gotoRow {row : Array (Option Nat)} : row ∈ t.gotos → row.size = t.nonterminals
  shift {q a q' : Nat} : t.move q a = .shift q' → a ≠ 0 ∧ q' < t.states
  reduce {q a r : Nat} : t.move q a = .reduce r → r ≠ 0 ∧ ∃ p, t.production? r = some p
  goto {q n q' : Nat} : t.goto? q n = some q' → q' < t.states
  expected {q a : Nat} : a ∈ t.expected q → ∃ x, t.grammar.terminals[a]? = some x
  kernel {s : State} : s ∈ t.automaton.states → s.kernel <+: s.items
  item {s : State} {i : Item} : s ∈ t.automaton.states → i ∈ s.items →
    ∃ p, t.production? i.rule = some p ∧ i.dot ≤ p.rule.rhs.length
  first {n : Nat} : n < t.nonterminals → ∃ set, t.automaton.firstSets.first[n]? = some set ∧
    ∀ a ∈ set, ∃ x, t.grammar.terminals[a]? = some x

namespace Table.IsBuilt

variable {t : Table ν}

theorem size_of_mem_rows (h : t.IsBuilt) {row : Array Cell} (hrow : row ∈ t.rows) :
    row.size = t.terminals := by
  obtain ⟨g, -, -, rfl⟩ := h.exists_grammar
  simp only [Analysis.table, Analysis.verdicts_ofGrammar, Array.mem_map] at hrow
  obtain ⟨-, ⟨q, -, rfl⟩, rfl⟩ := hrow
  simp [terminals, Analysis.table, Analysis.ofGrammar]

theorem size_of_mem_gotos (h : t.IsBuilt) {row : Array (Option Nat)} (hrow : row ∈ t.gotos) :
    row.size = t.nonterminals := by
  obtain ⟨g, -, -, rfl⟩ := h.exists_grammar
  obtain ⟨q, -, rfl⟩ := Array.mem_map.1 hrow
  simp [nonterminals, Analysis.table, Analysis.ofGrammar, LookaheadAutomaton.gotos,
    LookaheadAutomaton.ofCfg, Automaton.ofCfg, Grammar.cfg]

theorem size_gotos (h : t.IsBuilt) : t.gotos.size = t.states := by
  obtain ⟨g, -, -, rfl⟩ := h.exists_grammar
  simp [states, Analysis.table, Analysis.ofGrammar]

theorem exists_first (h : t.IsBuilt) {n : Nat} (hn : n < t.nonterminals) :
    ∃ set, t.automaton.firstSets.first[n]? = some set ∧ ∀ a ∈ set, a < t.terminals := by
  have hfirst : t.automaton.firstSets.first = t.cfg.firstFlow.solve := by
    rw [h.automaton]
    rfl
  obtain ⟨hsize, hreaches⟩ := Flow.partial_solve t.cfg.firstFlow
  have hlt : n < t.cfg.firstFlow.solve.size := hsize ▸ hn
  refine ⟨t.cfg.firstFlow.solve[n], by rw [hfirst, Array.getElem?_eq_getElem hlt], fun a ha => ?_⟩
  refine h.wellFormed.cfg.lt_of_reaches (hreaches n a ?_)
  rwa [Array.getD_eq_getD_getElem?, Array.getElem?_eq_getElem hlt]

theorem closed (h : t.IsBuilt) : t.Closed where
  states := ⟨by rw [h.automaton_states, h.states_eq], h.size_gotos⟩
  row hrow := h.size_of_mem_rows hrow
  gotoRow hrow := h.size_of_mem_gotos hrow
  shift hmove := by
    have hgoto := h.of_move_shift hmove
    have hwf := h.wellFormed.cfg
    refine ⟨Nat.ne_of_gt (hwf.ordinary_of_goTo hgoto).1, ?_⟩
    rw [h.states_eq]
    exact Cfg.lt_size_of_goTo hwf.size_pos hgoto
  reduce hmove := by
    obtain ⟨hne, hlt, -⟩ := h.of_move_reduce hmove
    obtain ⟨p, hp, -⟩ := production?_eq_some hlt
    exact ⟨hne, p, hp⟩
  goto hgoto := by
    rw [h.goto?_eq] at hgoto
    rw [h.states_eq]
    exact Cfg.lt_size_of_goTo h.wellFormed.cfg.size_pos hgoto
  expected ha := by
    have hlt : _ < t.terminals := List.mem_range.1 (List.mem_of_mem_filter ha)
    exact ⟨_, Array.getElem?_eq_getElem hlt⟩
  kernel hs := by
    rw [h.automaton_states] at hs
    exact (Cfg.items_of_mem_states h.wellFormed.cfg.size_pos hs).1
  item hs hi := by
    rw [h.automaton_states] at hs
    obtain ⟨hrule, hdot⟩ := (Cfg.items_of_mem_states h.wellFormed.cfg.size_pos hs).2 _ hi
    obtain ⟨p, hp, hprule⟩ := production?_eq_some hrule
    exact ⟨p, hp, Cfg.rhs_eq hprule ▸ hdot⟩
  first hn := by
    obtain ⟨set, hset, hlt⟩ := h.exists_first hn
    exact ⟨set, hset, fun a ha => ⟨_, Array.getElem?_eq_getElem (hlt a ha)⟩⟩

/-! The cell that accepts. -/

theorem exists_build (h : t.IsBuilt) : ∃ g : Grammar ν, g.build = .ok t := by
  obtain ⟨declarations, spec, -, hbuild⟩ := h
  obtain ⟨g, -, hbuild⟩ := Spec.build_eq_ok_iff.1 hbuild
  exact ⟨g, hbuild⟩

/-- No table is built that has no use for one of its rules. -/
theorem uses (h : t.IsBuilt) {r : Nat} (hr : r < t.cfg.rules.size) : t.grammar.Uses r := by
  obtain ⟨g, hbuild⟩ := h.exists_build
  obtain ⟨-, hused, rfl⟩ := Grammar.of_build hbuild
  exact hused r (by simpa [Grammar.cfg, Analysis.table, Analysis.ofGrammar] using hr)

/-- Whatever precedence and order decide, no earlier rule can take the place of rule 0. -/
theorem exists_move_accept (h : t.IsBuilt) : ∃ q a, t.move q a = .accept := by
  obtain ⟨q, hq, a, ha, hmove | hdisplaced⟩ := h.uses h.wellFormed.cfg.size_pos
  · rw [← h.states_eq] at hq
    obtain ⟨v, rfl, -, hcell⟩ := h.cell?_eq hq ha
    rw [Grammar.verdict, ← h.shift?_eq, ← h.reducible_eq] at hmove
    exact ⟨q, a, by rw [Table.move, hcell]; exact hmove⟩
  · obtain ⟨-, s, hs, -⟩ := hdisplaced
    exact absurd hs (Nat.not_lt_zero s)

/-- The state after a sentence accepts the end of input. -/
theorem goto?_of_move_accept (h : t.IsBuilt) {q a : Nat} (hmove : t.move q a = .accept) :
    a = 0 ∧ t.goto? 0 t.grammar.start = some q := by
  have hwf := h.wellFormed.cfg
  obtain ⟨ha, hi⟩ := h.of_move_accept hmove
  obtain ⟨γ, hpath⟩ := Cfg.exists_path hwf.size_pos (Cfg.lt_size_of_mem_items hi)
  obtain rfl := hwf.of_itemAfter_accepting (Cfg.itemAfter_of_mem hwf.size_pos hpath hi)
  obtain ⟨q₀, hq₀, hgoto⟩ := Cfg.Path.of_snoc (γ := []) hpath
  rw [h.goto?_eq]
  exact ⟨ha, hq₀.eq_zero ▸ hgoto⟩

theorem move_eq_accept_iff (h : t.IsBuilt) {q q' a : Nat}
    (hq : t.goto? 0 t.grammar.start = some q) : t.move q' a = .accept ↔ q' = q ∧ a = 0 := by
  constructor
  · intro hmove
    obtain ⟨rfl, hq'⟩ := h.goto?_of_move_accept hmove
    exact ⟨Option.some.inj (hq'.symm.trans hq), rfl⟩
  · rintro ⟨rfl, rfl⟩
    obtain ⟨q₁, a₁, hmove⟩ := h.exists_move_accept
    obtain ⟨rfl, hq₁⟩ := h.goto?_of_move_accept hmove
    rwa [Option.some.inj (hq₁.symm.trans hq)] at hmove

end Table.IsBuilt
end Lalr
