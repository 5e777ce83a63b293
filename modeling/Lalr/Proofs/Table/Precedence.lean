import Lalr.Proofs.Table.Alike

/-!
Tables of grammars that differ in precedence: in bands, in the precedence symbols of rules, or in
the policy for ties. There is a difference only in cells that have more than one candidate.
-/

namespace Lalr

variable {ν : Type}

namespace Table

variable {t t' : Table ν}

theorem expected_of_le {q n : Nat} (hn : n ≤ t.terminals)
    (herror : ∀ a, n ≤ a → t.move q a = .error) :
    t.expected q = (List.range n).filter fun a => t.move q a ≠ .error := by
  obtain ⟨k, hk⟩ := Nat.exists_eq_add_of_le hn
  rw [expected, hk, List.range_add, List.filter_append, List.append_right_eq_self]
  simp [herror]

/-- The tables are alike, and so are cells that have one candidate or none. -/
structure DiffersInRanks (t t' : Table ν) : Prop where
  alike : t.Alike t'
  candidatesOn {name : String} (q : Nat) : t.grammar.isTerminal name = true →
    t'.grammar.isTerminal name = true → t'.candidatesOn q name = t.candidatesOn q name
  cellOn? {name : String} (q : Nat) : t.grammar.isTerminal name = true →
    t'.grammar.isTerminal name = true → (t.candidatesOn q name).length ≤ 1 →
    t'.cellOn? q name = t.cellOn? q name

section Alike

variable {names : List String} (hm : t.IsBuilt) (hm' : t'.IsBuilt)
  (h : Grammar.Alike names t.grammar t'.grammar)

include hm hm' h

theorem cell?_of_shares {q a a' : Nat} (ha : t.grammar.Shares t'.grammar a a')
    (hone : (t.candidates q a).length ≤ 1) : t'.cell? q a' = t.cell? q a := by
  have hcandidates := @candidates_of_shares _ _ _ _ hm hm' h q _ _ ha
  have hin : a < t.terminals ∧ a' < t'.terminals := by
    obtain ⟨name, ha, ha'⟩ := ha
    exact ⟨Grammar.lt_size_of_terminal? ha, Grammar.lt_size_of_terminal? ha'⟩
  by_cases hq : q < t.states
  · have hq' : q < t'.states := states_of_alike hm hm' h ▸ hq
    rw [hm'.cell?_of_candidates hq' hin.2 (hcandidates ▸ hone),
      hm.cell?_of_candidates hq hin.1 hone, hcandidates]
  · have hq' : ¬ q < t'.states := states_of_alike hm hm' h ▸ hq
    rw [hm'.cell?_eq_none fun hin => hq' hin.1, hm.cell?_eq_none fun hin => hq hin.1]

theorem differsInRanks_of_alike : t.DiffersInRanks t' := by
  refine ⟨alike_of_grammar hm hm' h, fun {name} q hname hname' => ?_,
    fun {name} q hname hname' hone => ?_⟩
  all_goals
    obtain ⟨a, ha⟩ := Grammar.isTerminal_iff.1 hname
    obtain ⟨a', ha'⟩ := Grammar.isTerminal_iff.1 hname'
  · rw [candidatesOn_of_terminal? ha, candidatesOn_of_terminal? ha']
    exact candidates_of_shares hm hm' h ⟨name, ha, ha'⟩
  · rw [candidatesOn_of_terminal? ha] at hone
    rw [cellOn?_of_terminal? ha, cellOn?_of_terminal? ha']
    exact cell?_of_shares hm hm' h ⟨name, ha, ha'⟩ hone

/-! Nothing is to be decided. -/

variable (hone : t.Unambiguous)

include hone

theorem move_of_shares {q a a' : Nat} (ha : t.grammar.Shares t'.grammar a a') :
    t'.move q a' = t.move q a := by
  rw [move, move, cell?_of_shares hm hm' h ha (hm.length_candidates_le hone q a)]

theorem expectedNames_of_alike (q : Nat) : t'.expectedNames q = t.expectedNames q := by
  have hmove : ∀ a, t'.move q a = t.move q a := fun a => by
    have hle := hm.length_candidates_le hone q a
    have hcandidates := candidates_eq hm hm' h q a
    rw [hm'.move_of_candidates (hcandidates ▸ hle), hm.move_of_candidates hle, hcandidates]
  have herror : ∀ a, names.length ≤ a → t.move q a = .error := fun a ha => by
    have hnil := @candidates_eq_nil _ _ _ _ hm h q _ ha
    rw [hm.move_of_candidates (by simp [hnil]), hnil]
    rfl
  rw [expectedNames, expectedNames, expected_of_le h.length_le herror,
    expected_of_le h.length_le' fun a ha => (hmove a).trans (herror a ha)]
  simp only [hmove]
  refine List.map_congr_left fun a ha => h.terminalName_eq ?_
  exact List.mem_range.1 (List.mem_filter.1 ha).1

end Alike
end Table

end Lalr
