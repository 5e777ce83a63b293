import Lalr.Table.Cell
import Lalr.Proofs.Lists

/-!
What a verdict makes of the moves that a cell is offered: it makes one of them or none, it makes the
only one where there is one, and where there are more it drops one or reports a clash.
-/

namespace Lalr

namespace Move

theorem reduceBy_inj {r s : Nat} : reduceBy r = reduceBy s ↔ r = s := by
  unfold reduceBy
  split <;> split <;> simp <;> omega

theorem shift_ne_reduceBy {q r : Nat} : shift q ≠ reduceBy r := by
  unfold reduceBy
  split <;> simp

end Move

def offers (shift? : Option Nat) (rules : List Nat) : List Move :=
  (shift?.map Move.shift).toList ++ rules.map Move.reduceBy

namespace Ranking

/-- A shift on a terminal of precedence `s`, held against a reduction by a rule of precedence
`p`. -/
inductive Settles (s p : Precedence) (state rule : Nat) : Cell → Prop
  | looser (h : p.level < s.level) :
    Settles s p state rule ⟨.shift state, [⟨.reduceBy rule, .precedence⟩]⟩
  | tighter (h : s.level < p.level) :
    Settles s p state rule ⟨.reduceBy rule, [⟨.shift state, .precedence⟩]⟩
  | left (h : s.level = p.level) (left : s.associativity = .left) :
    Settles s p state rule ⟨.reduceBy rule, [⟨.shift state, .associativity⟩]⟩
  | right (h : s.level = p.level) (right : s.associativity = .right) :
    Settles s p state rule ⟨.shift state, [⟨.reduceBy rule, .associativity⟩]⟩
  | nonassoc (h : s.level = p.level) (nonassoc : s.associativity = .nonassoc) :
    Settles s p state rule
      ⟨.error, [⟨.shift state, .associativity⟩, ⟨.reduceBy rule, .associativity⟩]⟩

variable {rank : Ranking} {terminal : Nat} {shift? : Option Nat} {rules : List Nat}

theorem favoured_sublist (rank : Ranking) (rules : List Nat) :
    (rank.favoured rules).Sublist rules := by
  unfold favoured
  split
  · exact List.filter_sublist
  · exact List.Sublist.refl rules

theorem favoured_eq_nil_iff : rank.favoured rules = [] ↔ rules = [] := by
  constructor
  · intro h
    unfold favoured at h
    split at h
    · next level hlevel =>
      obtain ⟨r, hr, hrank⟩ := List.mem_filterMap.1 (List.max?_mem hlevel)
      have := List.filter_eq_nil_iff.1 h r hr
      simp [hrank] at this
    · exact h
  · rintro rfl
    simp [favoured]

theorem favoured_singleton (rank : Ranking) (r : Nat) : rank.favoured [r] = [r] := by
  have hsub := rank.favoured_sublist [r]
  rcases List.sublist_singleton.1 hsub with h | h
  · rw [favoured_eq_nil_iff] at h
    cases h
  · exact h

theorem settles_of_settle {state rule : Nat} {cell : Cell}
    (h : rank.settle terminal state rule = some cell) :
    ∃ s p, rank.ofTerminal terminal = some s ∧ rank.ofRule rule = some p ∧
      Settles s p state rule cell := by
  unfold settle at h
  split at h
  · next s p hs hp =>
    refine ⟨s, p, hs, hp, ?_⟩
    simp only at h
    split at h
    · next hlt =>
      cases h
      exact .looser hlt
    · next hge =>
      split at h
      · next hlt =>
        cases h
        exact .tighter hlt
      · next hle =>
        have heq : s.level = p.level := by omega
        split at h
        · next hassoc =>
          cases h
          exact .left heq hassoc
        · next hassoc =>
          cases h
          exact .right heq hassoc
        · next hassoc =>
          cases h
          exact .nonassoc heq hassoc
  · cases h

theorem settle_eq_none_iff {state rule : Nat} :
    rank.settle terminal state rule = none ↔
      rank.ofTerminal terminal = none ∨ rank.ofRule rule = none := by
  constructor
  · intro h
    cases hs : rank.ofTerminal terminal with
    | none => exact .inl rfl
    | some s =>
      cases hp : rank.ofRule rule with
      | none => exact .inr rfl
      | some p =>
        simp only [settle, hs, hp] at h
        split at h
        · cases h
        · split at h
          · cases h
          · split at h <;> cases h
  · intro h
    cases hsettle : rank.settle terminal state rule with
    | none => rfl
    | some cell =>
      obtain ⟨s, p, hs, hp, -⟩ := settles_of_settle hsettle
      simp [hs, hp] at h

theorem settle_move {target rule : Nat} {cell : Cell}
    (h : rank.settle terminal target rule = some cell) :
    (cell.move = .error ∨ cell.move = .shift target ∨ cell.move = .reduceBy rule) ∧
      cell.dropped ≠ [] := by
  obtain ⟨s, p, -, -, hs⟩ := settles_of_settle h
  cases hs <;> simp

theorem against_move (rank : Ranking) (terminal : Nat) (shift? : Option Nat) (rule : Nat) :
    (rank.against terminal shift? rule).1.move = .error ∨
      (rank.against terminal shift? rule).1.move ∈ offers shift? [rule] := by
  unfold against
  split
  · simp [offers]
  · split
    · next cell hcell =>
      rcases (settle_move hcell).1 with h | h | h <;> simp [offers, h]
    · simp [offers]

theorem verdict_move (rank : Ranking) (terminal : Nat) (shift? : Option Nat) (rules : List Nat) :
    (rank.verdict terminal shift? rules).move = .error ∨
      (rank.verdict terminal shift? rules).move ∈ offers shift? rules := by
  unfold verdict
  simp only
  split
  · cases shift? with
    | none => exact .inl rfl
    | some q => exact .inr (by simp [offers])
  · next winner hwinner =>
    have hmem : winner ∈ rules :=
      (rank.favoured_sublist rules).subset (List.mem_of_mem_head? hwinner)
    refine (rank.against_move terminal shift? winner).imp_right fun h => ?_
    rcases List.mem_append.1 h with h | h
    · exact List.mem_append_left _ h
    · rw [List.map_singleton, List.mem_singleton] at h
      exact List.mem_append_right _ (List.mem_map.2 ⟨winner, hmem, h.symm⟩)

theorem verdict_nil (rank : Ranking) (terminal : Nat) (shift? : Option Nat) :
    rank.verdict terminal shift? [] = ⟨⟨(shift?.map Move.shift).getD .error, []⟩, none, []⟩ := by
  simp [verdict, favoured]

theorem verdict_of_unshifted (rank : Ranking) (terminal rule : Nat) :
    rank.verdict terminal none [rule] = ⟨⟨.reduceBy rule, []⟩, none, []⟩ := by
  simp [verdict, favoured_singleton, lost, against]

theorem verdict_of_settle {state rule : Nat} {cell : Cell}
    (h : rank.settle terminal state rule = some cell) :
    rank.verdict terminal (some state) [rule] = ⟨cell, none, []⟩ := by
  simp [verdict, favoured_singleton, lost, against, h]

theorem verdict_of_offers {m : Move} (h : offers shift? rules = [m]) :
    (rank.verdict terminal shift? rules).move = m ∧
      (rank.verdict terminal shift? rules).dropped = [] := by
  cases shift? with
  | some q =>
    obtain ⟨rfl, hrules⟩ : .shift q = m ∧ rules = [] := by simpa [offers] using h
    subst hrules
    simp [verdict_nil]
  | none =>
    obtain ⟨r, rfl, rfl⟩ : ∃ r, rules = [r] ∧ Move.reduceBy r = m := by
      simpa [offers, List.map_eq_singleton_iff] using h
    simp [verdict_of_unshifted]

theorem verdict_of_no_offers (h : offers shift? rules = []) :
    (rank.verdict terminal shift? rules).move = .error ∧
      (rank.verdict terminal shift? rules).dropped = [] := by
  obtain ⟨rfl, rfl⟩ : shift? = none ∧ rules = [] := by simpa [offers] using h
  simp [verdict_nil]

/-- Of several moves that were offered, one is dropped or takes part in a clash. -/
theorem dropped_or_clashes (rank : Ranking) (terminal : Nat) (hnodup : rules.Nodup)
    (h : 1 < (offers shift? rules).length) :
    (rank.verdict terminal shift? rules).dropped ≠ [] ∨
      (rank.verdict terminal shift? rules).clashes ≠ [] := by
  have hrules : rank.favoured rules ≠ [] := by
    rw [ne_eq, favoured_eq_nil_iff]
    rintro rfl
    cases shift? <;> simp [offers] at h
  obtain ⟨winner, tail, hfav⟩ := List.exists_cons_of_ne_nil hrules
  have hmem : winner ∈ rules := (rank.favoured_sublist rules).subset (by simp [hfav])
  by_cases hsingle : rules = [winner]
  · subst hsingle
    cases shift? with
    | none => simp [offers] at h
    | some q =>
      cases hsettle : rank.settle terminal q winner with
      | some cell =>
        left
        simp [verdict, hfav, against, hsettle, (settle_move hsettle).2]
      | none =>
        right
        simp [verdict, hfav, against, hsettle]
  · left
    have hother : ∃ r ∈ rules, r ≠ winner := by
      by_contra hnone
      push Not at hnone
      refine hsingle (List.perm_singleton.1 ?_)
      refine (List.perm_ext_iff_of_nodup hnodup (List.nodup_singleton _)).2 fun r => ?_
      rw [List.mem_singleton]
      exact ⟨hnone r, fun h => h ▸ hmem⟩
    obtain ⟨r, hr, hne⟩ := hother
    have hlost : lost (rank.favoured rules) winner rules ≠ [] := by
      rw [lost, ne_eq, List.map_eq_nil_iff, List.filter_eq_nil_iff]
      intro hall
      exact absurd (by simpa using hall r hr) hne
    simp only [verdict, hfav, List.head?_cons, ne_eq, List.append_eq_nil_iff, not_and_or]
    exact .inl (hfav ▸ hlost)

end Ranking
end Lalr
