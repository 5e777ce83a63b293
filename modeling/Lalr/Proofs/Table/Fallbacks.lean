import Lalr.Proofs.Table.Alike

/-!
A grammar with the same rules and the same ranks, and with more terminals, that no rule speaks of.
Its table is built where the other one is, and has but blank columns in addition.
-/

namespace Lalr

variable {ν : Type} {g g' : Grammar ν} {t t' : Table ν}

namespace Grammar

section Extended

variable (h : Alike g.terminalNames g g') (hrank : g'.ranking = g.ranking)

include h

theorem size_le_of_alike : g.terminals.size ≤ g'.terminals.size :=
  g.length_terminalNames ▸ h.length_le'

theorem verdict_of_size_le {q a : Nat} (ha : g.terminals.size ≤ a) :
    g.verdict q a = ⟨⟨.error, []⟩, none, []⟩ := by
  have hpos := List.length_pos_of_mem h.endName_mem
  have hle : g.terminalNames.length ≤ a := g.length_terminalNames ▸ ha
  rw [verdict, h.cfg_wellFormed.goTo_eq_none hle, h.cfg_wellFormed.reducible_eq_nil hpos hle,
    Ranking.verdict_nil]
  rfl

include hrank

theorem verdict_of_alike : g'.verdict = g.verdict := by
  funext q a
  rw [verdict, verdict, h.cfg_eq, hrank]

theorem clashes_of_alike (hclash : g'.Clashes) : g.Clashes := by
  obtain ⟨q, hq, a, -, hne⟩ := hclash
  rw [h.cfg_eq] at hq
  rw [verdict_of_alike h hrank] at hne
  refine ⟨q, hq, a, ?_, hne⟩
  by_contra ha
  rw [verdict_of_size_le h (Nat.le_of_not_lt ha)] at hne
  exact hne rfl

theorem uses_of_alike {r : Nat} (hr : g.Uses r) : g'.Uses r := by
  obtain ⟨q, hq, a, ha, hr⟩ := hr
  refine ⟨q, h.cfg_eq ▸ hq, a, Nat.lt_of_lt_of_le ha (size_le_of_alike h), ?_⟩
  rwa [verdict_of_alike h hrank, hrank, completed, h.cfg_eq]

/-- What keeps a table from being built is not brought about by terminals of no rule. -/
theorem build_of_alike (hbuild : g.build = .ok t) :
    g'.build = .ok (Analysis.ofGrammar g').table := by
  obtain ⟨hclash, hused, -⟩ := of_build hbuild
  have hsize : g'.productions.size = g.productions.size := by
    simpa using congrArg Array.size h.productions
  exact build_of_used (fun hclash' => hclash (clashes_of_alike h hrank hclash')) fun r hr =>
    uses_of_alike h hrank (hused r (hsize ▸ hr))

theorem cell?_of_alike {q a : Nat} (ha : a < g.terminals.size) :
    (Analysis.ofGrammar g').table.cell? q a = (Analysis.ofGrammar g).table.cell? q a := by
  have ha' := Nat.lt_of_lt_of_le ha (size_le_of_alike h)
  simp [Analysis.cell?_table, h.cfg_eq, verdict_of_alike h hrank, ha, ha']

theorem move_of_alike (hm : (Analysis.ofGrammar g).table.IsBuilt) {q a : Nat}
    (hmove : (Analysis.ofGrammar g).table.move q a ≠ .error) :
    (Analysis.ofGrammar g').table.move q a = (Analysis.ofGrammar g).table.move q a := by
  have ha := (hm.in_range_of_candidate (hm.move_mem_candidates hmove)).2
  rw [Table.move, Table.move, cell?_of_alike h hrank ha]

end Extended

end Grammar

/-- The tables are alike, and the second has the cells of the first and blank columns besides. -/
structure Table.Extends (t t' : Table ν) : Prop where
  alike : t.Alike t'
  cellOn? {name : String} (q : Nat) : t.grammar.isTerminal name = true →
    t'.cellOn? q name = t.cellOn? q name
  isBlankOn_new {name : String} : t.grammar.isTerminal name = false →
    t'.grammar.isTerminal name = true → t'.IsBlankOn name

theorem Table.extends_of_alike (hm : t.IsBuilt) (hm' : t'.IsBuilt)
    (htable : t = (Analysis.ofGrammar g).table) (htable' : t' = (Analysis.ofGrammar g').table)
    (h : Grammar.Alike g.terminalNames g g') (hrank : g'.ranking = g.ranking) :
    t.Extends t' := by
  subst htable htable'
  refine ⟨alike_of_grammar hm hm' h, fun {name} q hname => ?_, fun {name} hname => ?_⟩
  · obtain ⟨a, ha⟩ := Grammar.isTerminal_iff.1 hname
    have ha' := Grammar.terminal?_of_isPrefix h.isPrefix' ha
    rw [cellOn?_of_terminal? ha, cellOn?_of_terminal? ha']
    exact Grammar.cell?_of_alike h hrank (Grammar.lt_size_of_terminal? ha)
  · have hnot : name ∉ g.terminalNames := fun hmem =>
      Bool.false_ne_true (hname.symm.trans (List.contains_iff_mem.2 hmem))
    exact (isBlankOn_of_not_mem hm hm' h hnot).2

end Lalr
