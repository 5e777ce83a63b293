import Lalr.Proofs.Table.Bounds
import Lalr.Table.Report
import Mathlib.Data.List.Perm.Basic

/-!
What became of the moves that were offered. A cell has each of them exactly once, as the move that is
made or among those that are dropped, and the findings name the rules that no cell reduces by.
-/

namespace Lalr

variable {ν : Type}

/-- The move that is made, if any, and those that are dropped. -/
def Cell.moves (c : Cell) : List Move :=
  (if c.move = .error then [] else [c.move]) ++ c.dropped.map Dropped.move

namespace Move

theorem reduceBy_ne_error {r : Nat} : reduceBy r ≠ error := by
  unfold reduceBy
  split <;> simp

theorem reduceBy_injective : Function.Injective reduceBy := fun _ _ => reduceBy_inj.1

end Move

theorem nodup_offers (shift? : Option Nat) {rules : List Nat} (h : rules.Nodup) :
    (offers shift? rules).Nodup := by
  refine List.Nodup.append ?_ (h.map Move.reduceBy_injective) fun m hm hm' => ?_
  · cases shift? <;> simp
  · obtain ⟨q, -, rfl⟩ : ∃ q, shift? = some q ∧ Move.shift q = m := by simpa using hm
    obtain ⟨r, -, hr⟩ := List.mem_map.1 hm'
    exact Move.shift_ne_reduceBy hr.symm

namespace Cell

variable {c : Cell}

theorem moves_of_error (h : c.move = .error) : c.moves = c.dropped.map Dropped.move := by
  simp [moves, h]

end Cell

namespace Ranking

variable {rank : Ranking} {terminal : Nat} {shift? : Option Nat} {rules : List Nat}

/-- The reduction that is left and the shift are on one level, and the level groups neither way. -/
def Ties (rank : Ranking) (terminal : Nat) (shift? : Option Nat) (rules : Set Nat) : Prop :=
  ∃ (state winner : Nat) (s p : Precedence), shift? = some state ∧
    IsLeast {r | rank.Favours rules r} winner ∧ rank.ofTerminal terminal = some s ∧
    rank.ofRule winner = some p ∧ s.level = p.level ∧ s.associativity = .nonassoc

theorem settle_moves {target rule : Nat} {cell : Cell}
    (h : rank.settle terminal target rule = some cell) :
    cell.moves.Perm (offers (some target) [rule]) := by
  obtain ⟨s, p, -, -, hs⟩ := settles_of_settle h
  cases hs with
  | looser | right => simp [Cell.moves, offers]
  | tighter | left =>
    simpa [Cell.moves, offers, Move.reduceBy_ne_error] using List.Perm.swap ..
  | nonassoc => simp [Cell.moves, offers]

theorem against_moves {rule : Nat} (h : (rank.against terminal shift? rule).2 = []) :
    (rank.against terminal shift? rule).1.moves.Perm (offers shift? [rule]) := by
  unfold against at h ⊢
  split
  · simp [Cell.moves, offers, Move.reduceBy_ne_error]
  · split
    · next hsettle => exact settle_moves hsettle
    · next hsettle => simp [hsettle] at h

theorem lost_moves (favoured : List Nat) (winner : Nat) (rules : List Nat) :
    (lost favoured winner rules).map Dropped.move =
      (rules.filter (· ≠ winner)).map Move.reduceBy := by
  simp [lost, Function.comp_def]

/-- Where nothing clashes, what was offered is made or dropped, each move once. -/
theorem verdict_moves (hnodup : rules.Nodup)
    (hclashes : (rank.verdict terminal shift? rules).clashes = []) :
    (rank.verdict terminal shift? rules).toCell.moves.Perm (offers shift? rules) := by
  cases hhead : (rank.favoured rules).head? with
  | none =>
    obtain rfl : rules = [] := favoured_eq_nil_iff.1 (List.head?_eq_none_iff.1 hhead)
    rw [verdict_nil]
    cases shift? <;> simp [Cell.moves, offers]
  | some winner =>
    have hmem : winner ∈ rules :=
      (rank.favoured_sublist rules).subset (List.mem_of_mem_head? hhead)
    have hagainst : (rank.against terminal shift? winner).2 = [] := by
      simp only [verdict, hhead, List.append_eq_nil_iff] at hclashes
      exact hclashes.2
    have hrules : (winner :: rules.filter (· ≠ winner)).Perm rules := by
      have hfilter : rules.filter (· ≠ winner) = rules.erase winner :=
        (hnodup.erase_eq_filter winner).symm ▸
          List.filter_congr fun r _ => Bool.eq_iff_iff.2 (by simp)
      exact hfilter ▸ (List.perm_cons_erase hmem).symm
    calc (rank.verdict terminal shift? rules).toCell.moves
      _ = (if (rank.against terminal shift? winner).1.move = .error then []
            else [(rank.against terminal shift? winner).1.move]) ++
          ((rules.filter (· ≠ winner)).map Move.reduceBy ++
            (rank.against terminal shift? winner).1.dropped.map Dropped.move) := by
        simp only [verdict, hhead, Cell.moves, List.map_append, lost_moves]
      List.Perm _ ((rank.against terminal shift? winner).1.moves ++
          (rules.filter (· ≠ winner)).map Move.reduceBy) := by
        rw [Cell.moves, List.append_assoc]
        exact List.perm_append_comm.append_left _
      List.Perm _ (offers shift? [winner] ++ (rules.filter (· ≠ winner)).map Move.reduceBy) :=
        (against_moves hagainst).append_right _
      List.Perm _ (offers shift? rules) := by
        rw [offers, offers, List.append_assoc, ← List.map_append]
        exact (hrules.map _).append_left _

theorem settle_eq_error_iff {state rule : Nat} {cell : Cell}
    (h : rank.settle terminal state rule = some cell) :
    cell.move = .error ↔ ∃ s p, rank.ofTerminal terminal = some s ∧ rank.ofRule rule = some p ∧
      s.level = p.level ∧ s.associativity = .nonassoc := by
  obtain ⟨s, p, hs, hp, hsettles⟩ := settles_of_settle h
  simp only [hs, hp, Option.some.injEq, ↓existsAndEq, true_and]
  cases hsettles with
  | looser hlt => simp [hlt.ne']
  | tighter hlt => simp [Move.reduceBy_ne_error, hlt.ne]
  | left heq hassoc => simp [Move.reduceBy_ne_error, hassoc]
  | right heq hassoc => simp [hassoc]
  | nonassoc heq hassoc => simp [heq, hassoc]

/-- A move was offered and none is made, just if the last two of them tie. -/
theorem verdict_eq_error_iff (h : rules.Pairwise (· < ·)) :
    (rank.verdict terminal shift? rules).move = .error ∧ offers shift? rules ≠ [] ↔
      rank.Ties terminal shift? {r | r ∈ rules} := by
  cases hhead : (rank.favoured rules).head? with
  | none =>
    obtain rfl : rules = [] := favoured_eq_nil_iff.1 (List.head?_eq_none_iff.1 hhead)
    have hties : ¬ rank.Ties terminal shift? {r | r ∈ ([] : List Nat)} := by
      rintro ⟨-, w, -, -, -, hw, -⟩
      exact List.not_mem_nil hw.1.mem
    refine iff_of_false ?_ hties
    rw [verdict_nil]
    cases shift? <;> simp [offers]
  | some winner =>
    have hleast := (head?_favoured_iff h).1 hhead
    have hmem : winner ∈ rules :=
      (rank.favoured_sublist rules).subset (List.mem_of_mem_head? hhead)
    have hoffers : offers shift? rules ≠ [] := by
      simp [offers, List.ne_nil_of_mem hmem]
    have hmove : (rank.verdict terminal shift? rules).move =
        (rank.against terminal shift? winner).1.move := by
      simp [verdict, hhead]
    rw [hmove, and_iff_left hoffers]
    constructor
    · intro herror
      unfold against at herror
      split at herror
      · exact absurd herror Move.reduceBy_ne_error
      · next state =>
        split at herror
        · next cell hsettle =>
          obtain ⟨s, p, hs, hp, hlevel, hassoc⟩ := (settle_eq_error_iff hsettle).1 herror
          exact ⟨state, winner, s, p, rfl, hleast, hs, hp, hlevel, hassoc⟩
        · cases herror
    · rintro ⟨state, w, s, p, rfl, hw, hs, hp, hlevel, hassoc⟩
      obtain rfl : w = winner := hw.unique hleast
      cases hsettle : rank.settle terminal state w with
      | none =>
        rcases settle_eq_none_iff.1 hsettle with hnone | hnone
        · simp [hnone] at hs
        · simp [hnone] at hp
      | some cell =>
        simpa [against, hsettle] using
          (settle_eq_error_iff hsettle).2 ⟨s, p, hs, hp, hlevel, hassoc⟩

/-- Only a rule is ever dropped for its place in the order. -/
theorem exists_rule_of_order {d : Dropped} (h : d ∈ (rank.verdict terminal shift? rules).dropped)
    (horder : d.reason = .order) : ∃ r, d.move = .reduceBy r := by
  unfold verdict at h
  simp only at h
  split at h
  · cases h
  · rcases List.mem_append.1 h with h | h
    · obtain ⟨r, -, rfl⟩ := List.mem_map.1 h
      exact ⟨r, rfl⟩
    · exact absurd horder (dropped_against_ne_order h)

end Ranking

/-! The cells of a grammar. -/

namespace Grammar

variable {g : Grammar ν}

/-- A state has a move on a terminal to choose from: the shift, if there is one, and a reduction by
each rule that is complete in the state and can be followed by the terminal there. -/
inductive Offers (g : Grammar ν) (q a : Nat) : Move → Prop
  | shift {q' : Nat} (h : g.cfg.goTo q (.terminal a) = some q') : Offers g q a (.shift q')
  | reduce {r : Nat} (h : r ∈ g.completed q a) : Offers g q a (.reduceBy r)

/-- In the cell, a shift and the reduction that is left tie. -/
def Ties (g : Grammar ν) (q a : Nat) : Prop :=
  g.ranking.Ties a (g.cfg.goTo q (.terminal a)) (g.completed q a)

theorem mem_offers_iff {q a : Nat} {m : Move} :
    m ∈ offers (g.cfg.goTo q (.terminal a)) (g.cfg.reducible q a) ↔ g.Offers q a m := by
  simp only [offers, List.mem_append, Option.mem_toList, Option.map_eq_some_iff, List.mem_map]
  constructor
  · rintro (⟨q', hq', rfl⟩ | ⟨r, hr, rfl⟩)
    · exact .shift hq'
    · exact .reduce (Cfg.mem_reducible_iff.1 hr)
  · rintro (hq' | hr)
    · exact .inl ⟨_, hq', rfl⟩
    · exact .inr ⟨_, Cfg.mem_reducible_iff.2 hr, rfl⟩

/-- What a cell says of the moves that were offered. -/
structure Records (g : Grammar ν) (q a : Nat) (cell : Cell) : Prop where
  nodup : cell.moves.Nodup
  mem_iff {m : Move} : m ∈ cell.moves ↔ g.Offers q a m
  error_iff : (cell.move = .error ∧ ∃ m, g.Offers q a m) ↔ g.Ties q a
  order_iff {r : Nat} : ⟨.reduceBy r, .order⟩ ∈ cell.dropped ↔
    g.ranking.Displaces (g.completed q a) r
  of_order {d : Dropped} : d ∈ cell.dropped → d.reason = .order → ∃ r, d.move = .reduceBy r

theorem records_verdict {q a : Nat} (h : (g.verdict q a).clashes = []) :
    g.Records q a (g.verdict q a).toCell := by
  have hascending := Cfg.ascending_reducible g.cfg q a
  have hnodup : (g.cfg.reducible q a).Nodup := hascending.imp Nat.ne_of_lt
  have hmoves := Ranking.verdict_moves hnodup h
  constructor
  case nodup => exact hmoves.nodup_iff.2 (nodup_offers _ hnodup)
  case mem_iff => exact hmoves.mem_iff.trans mem_offers_iff
  case error_iff =>
    rw [Ties, ← setOf_mem_reducible, ← Ranking.verdict_eq_error_iff hascending, ne_eq,
      List.eq_nil_iff_forall_not_mem]
    simp only [mem_offers_iff, not_forall, not_not]
    rfl
  case order_iff =>
    intro r
    rw [← setOf_mem_reducible]
    exact Ranking.dropped_by_order_iff hascending
  case of_order => exact Ranking.exists_rule_of_order

end Grammar

/-! What a table makes known. -/

namespace Table

variable {t : Table ν}

/-- The line of a description that is about one cell. -/
def cellLine? (t : Table ν) (q a : Nat) : Option String :=
  (t.cell? q a).bind (t.moveLine? (t.grammar.terminalName a))

theorem onSymbol_inj {name what what' : String} :
    onSymbol name what = onSymbol name what' ↔ what = what' := by
  simp [onSymbol]

theorem moveLine?_eq_error_iff {name : String} {cell : Cell} :
    t.moveLine? name cell = some (onSymbol name "error") ↔
      cell.move = .error ∧ cell.dropped ≠ [] := by
  have hshift (q : Nat) : "shift        " ++ toString q ≠ "error" := by
    simp [← String.toList_inj]
  have hreduce (number text : String) : "reduce       " ++ number ++ " " ++ text ≠ "error" := by
    simp [← String.toList_inj]
  cases hmove : cell.move with
  | shift q => simpa [moveLine?, hmove, onSymbol_inj] using hshift q
  | reduce r => simpa [moveLine?, hmove, onSymbol_inj] using hreduce _ _
  | accept => simp [moveLine?, hmove, onSymbol_inj]
  | error => simp [moveLine?, hmove]

end Table

namespace Grammar

variable {g : Grammar ν}

theorem Records.dropped_ne_nil_iff {q a : Nat} {cell : Cell} (h : g.Records q a cell)
    (herror : cell.move = .error) : cell.dropped ≠ [] ↔ ∃ m, g.Offers q a m := by
  have hmoves : cell.dropped ≠ [] ↔ cell.moves ≠ [] := by
    rw [Cell.moves_of_error herror, ne_eq, ne_eq, List.map_eq_nil_iff]
  rw [hmoves, ne_eq, List.eq_nil_iff_forall_not_mem]
  simp [h.mem_iff]

end Grammar

namespace Analysis

end Analysis

namespace Table.IsBuilt

variable {t : Table ν}

theorem records (h : t.IsBuilt) {q a : Nat} (hq : q < t.states) (ha : a < t.terminals) :
    ∃ cell, t.cell? q a = some cell ∧ t.grammar.Records q a cell := by
  obtain ⟨v, hv, hclashes, hcell⟩ := h.cell?_eq hq ha
  rw [h.shift?_eq, h.reducible_eq] at hv
  subst hv
  exact ⟨_, hcell, Grammar.records_verdict hclashes⟩

theorem cellLine?_eq_error_iff (h : t.IsBuilt) {q a : Nat} (hq : q < t.states)
    (ha : a < t.terminals) :
    t.cellLine? q a = some (onSymbol (t.grammar.terminalName a) "error") ↔
      t.grammar.Ties q a := by
  obtain ⟨cell, hcell, hrecords⟩ := h.records hq ha
  rw [cellLine?, hcell, Option.bind_some, moveLine?_eq_error_iff, ← hrecords.error_iff]
  exact and_congr_right hrecords.dropped_ne_nil_iff

end Table.IsBuilt

/-! Comparisons that do not group, of numbers and of names that look like numbers. -/

namespace Rivals

def declarations : List (Site × Declaration Unit) :=
  [(default, .tokens "n"), (default, .bands [(.nonassoc, "<")]),
    (default, .rule "less" "less < less" (.native ()) none),
    (default, .rule "less" "number" (.native ()) none),
    (default, .rule "less" "name" (.native ()) none),
    (default, .rule "number" "n" (.native ()) none),
    (default, .rule "name" "n" (.native ()) none)]

def spec : Spec Unit := (Spec.declareAll {} declarations).toOption.get (by decide +kernel)

def table : Table Unit := spec.build.toOption.get (by decide +kernel)

theorem isBuilt : table.IsBuilt :=
  ⟨declarations, spec, Except.eq_ok_get _ _, Except.eq_ok_get _ _⟩

end Rivals
end Lalr
