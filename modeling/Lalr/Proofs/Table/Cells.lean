import Lalr.Proofs.Automaton.Lookahead
import Lalr.Proofs.Grammar.Assembly
import Lalr.Proofs.Table.Verdict
import Lalr.Table.Build

/-!
What a built table says: it follows the automaton, and each of its moves is one of the candidates
for its cell.
-/

namespace Lalr

variable {ν : Type}

namespace Cfg

variable {g : Cfg} {terminals start : Nat}

def lookaheads (g : Cfg) (q : Nat) (i : Item) : IdSet :=
  (LookaheadAutomaton.ofCfg g).lookahead q ((g.items q).idxOf i)

/-- The rule is complete in the state, and the terminal can follow it there. -/
def Completes (g : Cfg) (q r a : Nat) : Prop :=
  g.finished r ∈ g.items q ∧ a ∈ g.lookaheads q (g.finished r)

theorem mem_reductions_iff {q r : Nat} {s : IdSet} :
    (r, s) ∈ (LookaheadAutomaton.ofCfg g).reductions q ↔ r < g.rules.size ∧
      g.finished r ∈ g.items q ∧ s = g.lookaheads q (g.finished r) := by
  simp only [LookaheadAutomaton.reductions, List.mem_filterMap, List.mem_range,
    Option.map_eq_some_iff, idxOf?_eq_some, Prod.mk.injEq]
  constructor
  · rintro ⟨r, hr, k, ⟨hmem, rfl⟩, rfl, hs⟩
    exact ⟨hr, hmem, hs.symm⟩
  · rintro ⟨hr, hmem, hs⟩
    exact ⟨r, hr, _, ⟨hmem, rfl⟩, rfl, hs.symm⟩

/-- The rules that can be reduced in the state when the terminal comes. -/
def reducible (g : Cfg) (q a : Nat) : List Nat :=
  (((LookaheadAutomaton.ofCfg g).reductions q).filter fun (_, lookahead) =>
    lookahead.contains a).map (·.1)

theorem mem_reducible_iff {q r a : Nat} :
    r ∈ g.reducible q a ↔ r < g.rules.size ∧ g.Completes q r a := by
  simp only [reducible, List.mem_map, List.mem_filter, Prod.exists, mem_reductions_iff]
  constructor
  · rintro ⟨r, s, ⟨⟨hr, hmem, hs⟩, ha⟩, rfl⟩
    exact ⟨hr, hmem, hs ▸ ha⟩
  · rintro ⟨hr, hmem, ha⟩
    exact ⟨r, _, ⟨⟨hr, hmem, rfl⟩, ha⟩, rfl⟩

theorem ascending_reducible (g : Cfg) (q a : Nat) : (g.reducible q a).Pairwise (· < ·) := by
  have hsub : (g.reducible q a).Sublist
      (((LookaheadAutomaton.ofCfg g).reductions q).map (·.1)) := List.filter_sublist.map _
  refine List.Pairwise.sublist hsub ?_
  rw [LookaheadAutomaton.reductions, map_fst_filterMap]
  exact List.pairwise_lt_range.filter _

namespace WellFormed

theorem size_pos (h : g.WellFormed terminals start) : 0 < g.rules.size :=
  lt_size_of_mem_rulesOf h.zero_mem

theorem mem_lookaheads_iff (h : g.WellFormed terminals start) {q : Nat} {i : Item}
    (hi : i ∈ g.items q) {t : Nat} :
    t ∈ g.lookaheads q i ↔ ∃ γ, g.Path γ q ∧ g.LookaheadAfter γ i t :=
  LookaheadAutomaton.mem_lookahead_iff h.size_pos h.lt_nonterminals hi

theorem ordinary_of_goTo (h : g.WellFormed terminals start) {q q' : Nat} {x : Sym}
    (hx : g.goTo q x = some q') : x.Ordinary terminals g.nonterminals := by
  obtain ⟨i, -, hnext⟩ := exists_mem_of_goTo hx
  exact h.ordinary (mem_rhs_of_next? hnext)

end WellFormed
end Cfg

/-- The verdict on the moves that the automaton offers in a cell. -/
def Grammar.verdict (g : Grammar ν) (q a : Nat) : Verdict :=
  g.ranking.verdict a (g.cfg.goTo q (.terminal a)) (g.cfg.reducible q a)

namespace Analysis

theorem verdicts_ofGrammar (g : Grammar ν) :
    (ofGrammar g).verdicts =
      (Array.range g.cfg.states.size).map fun q =>
        (Array.range g.terminals.size).map (g.verdict q) := rfl

theorem cells_ofGrammar (g : Grammar ν) :
    (ofGrammar g).cells =
      (List.range g.cfg.states.size).flatMap fun q =>
        (List.range g.terminals.size).map fun a => (q, a, g.verdict q a) := by
  simp only [cells, verdicts_ofGrammar, Array.toList_map, Array.toList_range, zipIdx_map_range,
    List.flatMap_map, List.map_map]
  rfl

theorem mem_cells_ofGrammar {g : Grammar ν} {q a : Nat} {v : Verdict} :
    (q, a, v) ∈ (ofGrammar g).cells ↔
      q < g.cfg.states.size ∧ a < g.terminals.size ∧ v = g.verdict q a := by
  rw [cells_ofGrammar]
  simp only [List.mem_flatMap, List.mem_map, List.mem_range, Prod.mk.injEq]
  constructor
  · rintro ⟨q, hq, a, ha, rfl, rfl, rfl⟩
    exact ⟨hq, ha, rfl⟩
  · rintro ⟨hq, ha, rfl⟩
    exact ⟨q, hq, a, ha, rfl, rfl, rfl⟩

theorem cell?_table (g : Grammar ν) (q a : Nat) :
    (ofGrammar g).table.cell? q a =
      if q < g.cfg.states.size ∧ a < g.terminals.size then some (g.verdict q a).toCell
      else none := by
  by_cases hq : q < g.cfg.states.size <;>
    by_cases ha : a < g.terminals.size <;>
      simp [Table.cell?, table, verdicts_ofGrammar, hq, ha]

end Analysis

theorem Spec.build_eq_ok_iff {spec : Spec ν} {t : Table ν} :
    spec.build = .ok t ↔ ∃ g, spec.assemble = .ok g ∧ g.build = .ok t := by
  refine Except.bind_eq_ok.trans (exists_congr fun g => ?_)
  rw [Except.mapError_eq_ok]

def Table.IsBuilt (t : Table ν) : Prop :=
  ∃ declarations spec, Spec.declareAll {} declarations = .ok spec ∧ spec.build = .ok t

namespace Table

abbrev cfg (t : Table ν) : Cfg := t.grammar.cfg

def shift? (t : Table ν) (q a : Nat) : Option Nat :=
  (t.automaton.states.getD q default).target? (.terminal a)

def reducible (t : Table ν) (q a : Nat) : List Nat :=
  ((t.automaton.reductions q).filter fun (_, lookahead) => lookahead.contains a).map (·.1)

/-- The moves to choose from in a cell, before precedence, associativity or order decide. -/
def candidates (t : Table ν) (q a : Nat) : List Move := offers (t.shift? q a) (t.reducible q a)

def Unambiguous (t : Table ν) : Prop :=
  ∀ q < t.states, ∀ a < t.terminals, (t.candidates q a).length ≤ 1

instance (t : Table ν) : Decidable t.Unambiguous :=
  inferInstanceAs (Decidable (∀ q < t.states, ∀ a < t.terminals, (t.candidates q a).length ≤ 1))

namespace IsBuilt

variable {t : Table ν}

theorem exists_grammar (h : t.IsBuilt) :
    ∃ g : Grammar ν, g.IsAssembled ∧ (Analysis.ofGrammar g).conflicts = [] ∧
      t = (Analysis.ofGrammar g).table := by
  obtain ⟨declarations, spec, hspec, hbuild⟩ := h
  obtain ⟨g, hg, hbuild⟩ := Spec.build_eq_ok_iff.1 hbuild
  refine ⟨g, ⟨declarations, spec, hspec, hg⟩, ?_⟩
  unfold Grammar.build Analysis.build at hbuild
  split at hbuild
  · next hconflicts _ =>
    cases hbuild
    exact ⟨hconflicts, rfl⟩
  · cases hbuild
  · cases hbuild

theorem wellFormed (h : t.IsBuilt) : t.grammar.WellFormed := by
  obtain ⟨g, hg, -, rfl⟩ := h.exists_grammar
  exact hg.wellFormed

theorem automaton (h : t.IsBuilt) : t.automaton = LookaheadAutomaton.ofCfg t.cfg := by
  obtain ⟨g, -, -, rfl⟩ := h.exists_grammar
  rfl

theorem automaton_states (h : t.IsBuilt) : t.automaton.states = t.cfg.states := by
  rw [h.automaton]
  rfl

theorem states_eq (h : t.IsBuilt) : t.states = t.cfg.states.size := by
  obtain ⟨g, -, -, rfl⟩ := h.exists_grammar
  simp [states, Analysis.table, Analysis.ofGrammar, LookaheadAutomaton.ofCfg, Automaton.ofCfg]

theorem terminals_pos (h : t.IsBuilt) : 0 < t.terminals := h.wellFormed.terminals_pos

theorem production?_eq_some {r : Nat} (hr : r < t.cfg.rules.size) :
    ∃ p, t.production? r = some p ∧ t.cfg.rules[r]? = some p.rule := by
  have hsize : r < t.grammar.productions.size := by simpa [Grammar.cfg] using hr
  exact ⟨t.grammar.productions[r], by simp [production?, hsize], by simp [Grammar.cfg, hsize]⟩

theorem shift?_eq (h : t.IsBuilt) (q a : Nat) :
    t.shift? q a = t.cfg.goTo q (.terminal a) := by
  rw [shift?, h.automaton_states]
  rfl

theorem goto?_eq (h : t.IsBuilt) (q n : Nat) :
    t.goto? q n = t.cfg.goTo q (.nonterminal n) := by
  have hwf := h.wellFormed
  obtain ⟨g, -, -, rfl⟩ := h.exists_grammar
  by_cases hq : q < g.cfg.states.size
  · by_cases hn : n < g.cfg.nonterminals
    · simp [goto?, Analysis.table, Analysis.ofGrammar, LookaheadAutomaton.ofCfg, Automaton.ofCfg,
        LookaheadAutomaton.gotos, Cfg.goTo, hq, hn]
    · have hnone : g.cfg.goTo q (.nonterminal n) = none := by
        rw [Option.eq_none_iff_forall_ne_some]
        intro q' hq'
        exact hn (hwf.cfg.ordinary_of_goTo hq').2
      simp [goto?, Analysis.table, Analysis.ofGrammar, LookaheadAutomaton.ofCfg, Automaton.ofCfg,
        LookaheadAutomaton.gotos, hq, hn, hnone]
  · have hnone : g.cfg.goTo q (.nonterminal n) = none := by simp [Cfg.goTo, hq]; rfl
    simp [goto?, Analysis.table, Analysis.ofGrammar, LookaheadAutomaton.ofCfg, Automaton.ofCfg,
      hq, hnone]

theorem states_analysis (g : Grammar ν) :
    (Analysis.ofGrammar g).table.states = g.cfg.states.size := by
  simp [states, Analysis.table, Analysis.ofGrammar, LookaheadAutomaton.ofCfg, Automaton.ofCfg]

/-- Every cell has the verdict on its candidates, and there is no clash. -/
theorem cell?_eq (h : t.IsBuilt) {q a : Nat} (hq : q < t.states) (ha : a < t.terminals) :
    ∃ v : Verdict, v = t.grammar.ranking.verdict a (t.shift? q a) (t.reducible q a) ∧
      v.clashes = [] ∧ t.cell? q a = some v.toCell := by
  obtain ⟨g, -, hconflicts, rfl⟩ := h.exists_grammar
  rw [states_analysis] at hq
  have hmem := Analysis.mem_cells_ofGrammar.2 ⟨hq, ha, rfl⟩
  rw [Analysis.conflicts, List.flatMap_eq_nil_iff] at hconflicts
  exact ⟨g.verdict q a, rfl, List.map_eq_nil_iff.1 (hconflicts _ hmem),
    (Analysis.cell?_table g q a).trans (if_pos ⟨hq, ha⟩)⟩

theorem move_of_cell?_none {q a : Nat} (h : t.cell? q a = none) : t.move q a = .error := by
  simp [move, h]

theorem cell?_eq_none (h : t.IsBuilt) {q a : Nat} (hout : ¬ (q < t.states ∧ a < t.terminals)) :
    t.cell? q a = none := by
  obtain ⟨g, -, -, rfl⟩ := h.exists_grammar
  rw [states_analysis] at hout
  exact (Analysis.cell?_table g q a).trans (if_neg hout)

theorem reducible_eq (h : t.IsBuilt) (q a : Nat) : t.reducible q a = t.cfg.reducible q a := by
  rw [reducible, h.automaton]
  rfl

theorem mem_reducible_iff (h : t.IsBuilt) {q r a : Nat} :
    r ∈ t.reducible q a ↔ r < t.cfg.rules.size ∧ t.cfg.Completes q r a := by
  rw [h.reducible_eq, Cfg.mem_reducible_iff]

theorem nodup_reducible (h : t.IsBuilt) (q a : Nat) : (t.reducible q a).Nodup := by
  rw [h.reducible_eq]
  exact (Cfg.ascending_reducible _ q a).imp Nat.ne_of_lt

theorem not_error_of_mem_candidates {q a : Nat} {m : Move} (h : m ∈ t.candidates q a) :
    m ≠ .error := by
  rcases List.mem_append.1 h with h | h
  · obtain ⟨q', -, rfl⟩ : ∃ q', t.shift? q a = some q' ∧ Move.shift q' = m := by simpa using h
    simp
  · obtain ⟨r, -, rfl⟩ := List.mem_map.1 h
    unfold Move.reduceBy
    split <;> simp

theorem in_range_of_candidate (h : t.IsBuilt) {q a : Nat} {m : Move} (hm : m ∈ t.candidates q a) :
    q < t.states ∧ a < t.terminals := by
  have hitems : ∀ {i}, i ∈ t.cfg.items q → q < t.states := by
    intro i hi
    rw [h.states_eq]
    exact Cfg.lt_size_of_mem_items hi
  rcases List.mem_append.1 hm with hm | hm
  · obtain ⟨q', hq', -⟩ : ∃ q', t.shift? q a = some q' ∧ Move.shift q' = m := by simpa using hm
    rw [h.shift?_eq] at hq'
    obtain ⟨i, hi, -⟩ := Cfg.exists_mem_of_goTo hq'
    exact ⟨hitems hi, (h.wellFormed.cfg.ordinary_of_goTo hq').2⟩
  · obtain ⟨r, hr, -⟩ := List.mem_map.1 hm
    obtain ⟨-, hi, ha⟩ := h.mem_reducible_iff.1 hr
    obtain ⟨γ, -, hla⟩ := (h.wellFormed.cfg.mem_lookaheads_iff hi).1 ha
    exact ⟨hitems hi, h.wellFormed.cfg.lookaheadAfter_lt h.terminals_pos hla⟩

theorem move_mem_candidates (h : t.IsBuilt) {q a : Nat} (hm : t.move q a ≠ .error) :
    t.move q a ∈ t.candidates q a := by
  by_cases hin : q < t.states ∧ a < t.terminals
  · obtain ⟨v, rfl, -, hcell⟩ := h.cell?_eq hin.1 hin.2
    have hmove :
        t.move q a = (t.grammar.ranking.verdict a (t.shift? q a) (t.reducible q a)).move := by
      simp [move, hcell]
    rw [hmove] at hm ⊢
    exact (Ranking.verdict_move ..).resolve_left hm
  · exact absurd (move_of_cell?_none (h.cell?_eq_none hin)) hm

theorem move_eq_of_mem_candidates (h : t.IsBuilt) (hone : t.Unambiguous) {q a : Nat} {m : Move}
    (hm : m ∈ t.candidates q a) : t.move q a = m := by
  obtain ⟨hq, ha⟩ := h.in_range_of_candidate hm
  have hsingle : t.candidates q a = [m] := by
    have hlen := hone q hq a ha
    match hc : t.candidates q a, hlen with
    | [m'], _ =>
      rw [hc, List.mem_singleton] at hm
      rw [hm]
    | [], _ => simp [hc] at hm
  obtain ⟨v, rfl, -, hcell⟩ := h.cell?_eq hq ha
  simp only [move, hcell, Option.map_some, Option.getD_some]
  exact (Ranking.verdict_of_offers hsingle).1

/-- To have no cell with more than one candidate is to have dropped no move. -/
theorem unambiguous_iff (h : t.IsBuilt) :
    t.Unambiguous ↔ ∀ q a cell, t.cell? q a = some cell → cell.dropped = [] := by
  constructor
  · intro hone q a cell hcell
    by_cases hin : q < t.states ∧ a < t.terminals
    · obtain ⟨v, rfl, -, hcell'⟩ := h.cell?_eq hin.1 hin.2
      rw [hcell', Option.some.injEq] at hcell
      subst hcell
      match hc : t.candidates q a, hone q hin.1 a hin.2 with
      | [], _ => exact (Ranking.verdict_of_no_offers hc).2
      | [m], _ => exact (Ranking.verdict_of_offers hc).2
    · rw [h.cell?_eq_none hin] at hcell
      cases hcell
  · intro hnone q hq a ha
    obtain ⟨v, rfl, hclashes, hcell⟩ := h.cell?_eq hq ha
    by_contra hmany
    rcases Ranking.dropped_or_clashes t.grammar.ranking a (nodup_reducible h q a)
      (Nat.lt_of_not_le hmany) with hdropped | hclash
    · exact hdropped (hnone q a _ hcell)
    · exact hclash hclashes

/-! What each candidate says of the automaton. -/

theorem shift_mem_candidates_iff (h : t.IsBuilt) {q a q' : Nat} :
    .shift q' ∈ t.candidates q a ↔ t.cfg.goTo q (.terminal a) = some q' := by
  simp [candidates, offers, h.shift?_eq, Move.shift_ne_reduceBy.symm]

theorem reduceBy_mem_candidates_iff (h : t.IsBuilt) {q a r : Nat} :
    .reduceBy r ∈ t.candidates q a ↔
      r < t.cfg.rules.size ∧ t.cfg.Completes q r a := by
  simp [candidates, offers, Move.shift_ne_reduceBy, Move.reduceBy_inj, h.mem_reducible_iff]

/-- A rule can be reduced where a path completes it and the terminal can follow. -/
theorem reduceBy_mem_candidates (h : t.IsBuilt) {γ : List Sym} {q a r : Nat}
    (hq : t.cfg.Path γ q) (ha : t.cfg.LookaheadAfter γ (t.cfg.finished r) a) :
    .reduceBy r ∈ t.candidates q a := by
  have hwf := h.wellFormed.cfg
  have hi := ha.itemAfter.mem_items hwf.size_pos hq
  exact h.reduceBy_mem_candidates_iff.2
    ⟨ha.itemAfter.rule_lt hwf.size_pos, hi, (hwf.mem_lookaheads_iff hi).2 ⟨γ, hq, ha⟩⟩

theorem of_move_shift (h : t.IsBuilt) {q a q' : Nat} (hm : t.move q a = .shift q') :
    t.cfg.goTo q (.terminal a) = some q' := by
  have hmem := h.move_mem_candidates (q := q) (a := a) (by simp [hm])
  rw [hm] at hmem
  exact h.shift_mem_candidates_iff.1 hmem

theorem of_move_reduce (h : t.IsBuilt) {q a r : Nat} (hm : t.move q a = .reduce r) :
    r ≠ 0 ∧ r < t.cfg.rules.size ∧ t.cfg.Completes q r a := by
  have hmem := h.move_mem_candidates (q := q) (a := a) (by simp [hm])
  rw [hm] at hmem
  have hr : r ≠ 0 := by
    rintro rfl
    rcases List.mem_append.1 hmem with hmem | hmem
    · simp at hmem
    · obtain ⟨r, -, hr⟩ := List.mem_map.1 hmem
      unfold Move.reduceBy at hr
      split at hr
      · cases hr
      · next hne =>
        cases hr
        exact hne rfl
  have hby : Move.reduceBy r = .reduce r := if_neg hr
  exact ⟨hr, h.reduceBy_mem_candidates_iff.1 (hby ▸ hmem)⟩

/-- A whole input is accepted at its end only. -/
theorem of_move_accept (h : t.IsBuilt) {q a : Nat} (hm : t.move q a = .accept) :
    a = 0 ∧ t.cfg.finished 0 ∈ t.cfg.items q := by
  have hmem := h.move_mem_candidates (q := q) (a := a) (by simp [hm])
  rw [hm] at hmem
  obtain ⟨-, hi, ha⟩ := (h.reduceBy_mem_candidates_iff (r := 0)).1 hmem
  obtain ⟨γ, -, hla⟩ := (h.wellFormed.cfg.mem_lookaheads_iff hi).1 ha
  exact ⟨h.wellFormed.cfg.eq_zero_of_lookaheadAfter hla rfl, hi⟩

end IsBuilt
end Table

namespace Sums

def table : Table Unit := spec.build.toOption.get (by decide +kernel)

theorem isBuilt : table.IsBuilt := ⟨declarations, spec, declareAll_eq, Except.eq_ok_get _ _⟩

theorem unambiguous : table.Unambiguous := by decide +kernel

end Sums
end Lalr
