import Lalr.Proofs.Automaton.Canonical
import Lalr.Proofs.Grammar.Fallbacks
import Lalr.Proofs.Table.Resolution

/-!
Tables of grammars with the same rules, compared by the names of symbols. They have the same states,
and precedence makes a difference only where there is more than one candidate.
-/

namespace Lalr

variable {ν : Type}

namespace Cfg.WellFormed

variable {g : Cfg} {terminals start : Nat}

theorem goTo_eq_none (h : g.WellFormed terminals start) {q a : Nat} (ha : terminals ≤ a) :
    g.goTo q (.terminal a) = none := by
  rw [Option.eq_none_iff_forall_ne_some]
  intro q' hq'
  have hlt := (h.ordinary_of_goTo hq').2
  omega

theorem lt_of_mem_lookaheads (h : g.WellFormed terminals start) (hpos : 0 < terminals) {q : Nat}
    {i : Item} (hi : i ∈ g.items q) {a : Nat} (ha : a ∈ g.lookaheads q i) : a < terminals := by
  obtain ⟨γ, -, hla⟩ := (h.mem_lookaheads_iff hi).1 ha
  exact h.lookaheadAfter_lt hpos hla

theorem reducible_eq_nil (h : g.WellFormed terminals start) (hpos : 0 < terminals) {q a : Nat}
    (ha : terminals ≤ a) : g.reducible q a = [] := by
  rw [List.eq_nil_iff_forall_not_mem]
  intro r hr
  obtain ⟨-, hi, hmem⟩ := mem_reducible_iff.1 hr
  have hlt := h.lt_of_mem_lookaheads hpos hi hmem
  omega

end Cfg.WellFormed

theorem Ranking.toCell_verdict {rank : Ranking} {terminal : Nat} {shift? : Option Nat}
    {rules : List Nat} (hone : (offers shift? rules).length ≤ 1) :
    (rank.verdict terminal shift? rules).toCell =
      ⟨(offers shift? rules).head?.getD .error, []⟩ := by
  match h : offers shift? rules, hone with
  | [], _ =>
    obtain ⟨hmove, hdropped⟩ := @verdict_of_no_offers rank terminal shift? rules h
    rw [List.head?_nil, Option.getD_none, ← hmove, ← hdropped]
  | [m], _ =>
    obtain ⟨hmove, hdropped⟩ := @verdict_of_offers rank terminal shift? rules m h
    rw [List.head?_cons, Option.getD_some, ← hdropped, ← hmove]

/-! Tables as they look by name. -/

def Grammar.nameOf (g : Grammar ν) : Sym → String
  | .terminal t => g.terminalName t
  | .nonterminal n => g.nonterminals.getD n "?"

theorem Grammar.Alike.nameOf_eq {names : List String} {g g' : Grammar ν}
    (h : Grammar.Alike names g g') {x : Sym} (hx : x.Ordinary names.length g.cfg.nonterminals) :
    g'.nameOf x = g.nameOf x := by
  cases x with
  | terminal t => exact h.terminalName_eq hx.2
  | nonterminal n => simp only [nameOf, h.nonterminals]

/-- Items come with the names of their lookaheads. -/
structure NamedState where
  kernel : List Item
  items : List (Item × List String)
  transitions : List (String × Nat)

namespace Table

def namedState? (t : Table ν) (q : Nat) : Option NamedState :=
  t.automaton.states[q]?.map fun s => {
    kernel := s.kernel
    items := s.items.zipIdx.map fun (i, k) =>
      (i, (t.automaton.lookahead q k).toList.map t.grammar.terminalName)
    transitions := s.transitions.map fun (x, p) => (t.grammar.nameOf x, p) }

def gotoOn? (t : Table ν) (q : Nat) (name : String) : Option Nat :=
  (t.grammar.nonterminal? name).bind (t.goto? q)

def cellOn? (t : Table ν) (q : Nat) (name : String) : Option Cell :=
  (t.grammar.terminal? name).bind (t.cell? q)

def candidatesOn (t : Table ν) (q : Nat) (name : String) : List Move :=
  ((t.grammar.terminal? name).map (t.candidates q)).getD []

theorem cellOn?_of_terminal? {t : Table ν} {q a : Nat} {name : String}
    (h : t.grammar.terminal? name = some a) : t.cellOn? q name = t.cell? q a := by
  simp [cellOn?, h]

theorem candidatesOn_of_terminal? {t : Table ν} {q a : Nat} {name : String}
    (h : t.grammar.terminal? name = some a) : t.candidatesOn q name = t.candidates q a := by
  simp [candidatesOn, h]

/-- No state has a move on the terminal. -/
def IsBlankOn (t : Table ν) (name : String) : Prop :=
  ∀ q < t.states, t.cellOn? q name = some ⟨.error, []⟩

/-- The rules are the same, and so are the states and where they lead to. -/
structure Alike (t t' : Table ν) : Prop where
  production?_bare (r : Nat) :
    (t'.production? r).map Production.bare = (t.production? r).map Production.bare
  nonterminals : t'.grammar.nonterminals = t.grammar.nonterminals
  states : t'.states = t.states
  namedState? (q : Nat) : t'.namedState? q = t.namedState? q
  gotoOn? (q : Nat) (name : String) : t'.gotoOn? q name = t.gotoOn? q name

variable {t t' : Table ν} {names : List String}

namespace IsBuilt

theorem length_candidates_le (h : t.IsBuilt) (hone : t.Unambiguous) (q a : Nat) :
    (t.candidates q a).length ≤ 1 := by
  by_cases hnil : t.candidates q a = []
  · simp [hnil]
  · obtain ⟨m, hm⟩ := List.exists_mem_of_ne_nil _ hnil
    obtain ⟨hq, ha⟩ := h.in_range_of_candidate hm
    exact hone q hq a ha

/-- Where nothing is to be decided, the candidate is the move. -/
theorem cell?_of_candidates (h : t.IsBuilt) {q a : Nat} (hq : q < t.states) (ha : a < t.terminals)
    (hone : (t.candidates q a).length ≤ 1) :
    t.cell? q a = some ⟨(t.candidates q a).head?.getD .error, []⟩ := by
  obtain ⟨v, rfl, -, hcell⟩ := h.cell?_eq hq ha
  rw [hcell, Ranking.toCell_verdict hone]
  rfl

theorem cell?_of_candidates_nil (h : t.IsBuilt) {q a : Nat} (hq : q < t.states)
    (ha : a < t.terminals) (hnil : t.candidates q a = []) : t.cell? q a = some ⟨.error, []⟩ := by
  rw [h.cell?_of_candidates hq ha (by simp [hnil]), hnil]
  rfl

theorem move_of_candidates (h : t.IsBuilt) {q a : Nat} (hone : (t.candidates q a).length ≤ 1) :
    t.move q a = (t.candidates q a).head?.getD .error := by
  by_cases hin : q < t.states ∧ a < t.terminals
  · rw [move, h.cell?_of_candidates hin.1 hin.2 hone]
    rfl
  · have hnil : t.candidates q a = [] := by
      rw [List.eq_nil_iff_forall_not_mem]
      exact fun m hm => hin (h.in_range_of_candidate hm)
    rw [move_of_cell?_none (h.cell?_eq_none hin), hnil]
    rfl

end IsBuilt

/-! Tables of grammars that are alike. -/

section Alike

variable (hm : t.IsBuilt) (hm' : t'.IsBuilt) (h : Grammar.Alike names t.grammar t'.grammar)

include hm h

theorem candidates_eq_nil {q a : Nat} (ha : names.length ≤ a) : t.candidates q a = [] := by
  have hpos := List.length_pos_of_mem h.endName_mem
  rw [candidates, hm.shift?_eq, hm.reducible_eq, h.cfg_wellFormed.goTo_eq_none ha,
    h.cfg_wellFormed.reducible_eq_nil hpos ha]
  rfl

/-- Only terminals of rules are lookaheads. -/
theorem lt_of_mem_lookahead {q k a : Nat} {s : State} {i : Item}
    (hs : t.automaton.states[q]? = some s) (hi : s.items[k]? = some i)
    (ha : a ∈ (t.automaton.lookahead q k).toList) : a < names.length := by
  rw [hm.automaton_states] at hs
  have hitems : t.cfg.items q = s.items := by simp [Cfg.items, hs]
  obtain ⟨hk, rfl⟩ := List.getElem?_eq_some_iff.1 hi
  have hidxOf : (t.cfg.items q).idxOf s.items[k] = k := by
    rw [hitems]
    exact (hitems ▸ t.cfg.nodup_items q : s.items.Nodup).idxOf_getElem k hk
  have hmem : s.items[k] ∈ t.cfg.items q := by
    rw [hitems]
    exact List.getElem_mem hk
  refine h.cfg_wellFormed.lt_of_mem_lookaheads (List.length_pos_of_mem h.endName_mem) hmem ?_
  rw [Cfg.lookaheads, hidxOf, ← hm.automaton]
  exact IdSet.mem_toList.1 ha

/-- Only symbols of rules lead on. -/
theorem ordinary_of_mem_transitions {q : Nat} {s : State} {x : Sym × Nat}
    (hs : t.automaton.states[q]? = some s) (hx : x ∈ s.transitions) :
    x.1.Ordinary names.length t.cfg.nonterminals := by
  rw [hm.automaton_states] at hs
  have hcanonical := Cfg.isCanonical_states h.cfg_wellFormed.size_pos
  obtain ⟨i, -, hnext⟩ :=
    (hcanonical.leadsOn (Array.mem_of_getElem? hs)).mem_symbols_iff.1 ⟨x.2, hx⟩
  exact h.cfg_wellFormed.ordinary (Cfg.WellFormed.mem_rhs_of_next? hnext)

include hm'

theorem automaton_eq : t'.automaton = t.automaton := by
  rw [hm.automaton, hm'.automaton, cfg, h.cfg_eq]

theorem candidates_eq (q a : Nat) : t'.candidates q a = t.candidates q a := by
  simp only [candidates, shift?, reducible, automaton_eq hm hm' h]

theorem candidates_of_shares {q a a' : Nat} (ha : t.grammar.Shares t'.grammar a a') :
    t'.candidates q a' = t.candidates q a := by
  rw [candidates_eq hm hm' h]
  obtain rfl | ⟨hle, hle'⟩ := h.of_shares ha
  · rfl
  · rw [candidates_eq_nil hm h hle, candidates_eq_nil hm h hle']

theorem states_of_alike : t'.states = t.states := by
  rw [hm.states_eq, hm'.states_eq, cfg, h.cfg_eq]

theorem namedState?_eq (q : Nat) : t'.namedState? q = t.namedState? q := by
  rw [namedState?, namedState?, automaton_eq hm hm' h]
  refine Option.map_congr fun s hs => ?_
  rw [NamedState.mk.injEq]
  refine ⟨rfl, List.map_congr_left fun ⟨i, k⟩ hik => ?_, List.map_congr_left fun x hx => ?_⟩
  · exact congrArg (Prod.mk i) (List.map_congr_left fun a ha =>
      h.terminalName_eq (lt_of_mem_lookahead hm h hs (List.mk_mem_zipIdx_iff_getElem?.1 hik) ha))
  · exact congrArg (Prod.mk · x.2) (h.nameOf_eq (ordinary_of_mem_transitions hm h hs hx))

theorem goto?_eq_of_alike (q n : Nat) : t'.goto? q n = t.goto? q n := by
  rw [hm.goto?_eq, hm'.goto?_eq, cfg, h.cfg_eq]

theorem alike_of_grammar : t.Alike t' where
  production?_bare := h.production?_bare
  nonterminals := h.nonterminals
  states := states_of_alike hm hm' h
  namedState? := namedState?_eq hm hm' h
  gotoOn? q name := by
    rw [Table.gotoOn?, Table.gotoOn?, Grammar.nonterminal?, Grammar.nonterminal?, h.nonterminals]
    exact congrArg (Option.bind _) (funext fun n => goto?_eq_of_alike hm hm' h q n)

/-- The columns of terminals that no rule is about are blank. -/
theorem isBlankOn_of_not_mem {name : String} (hname : name ∉ names) :
    (t.grammar.isTerminal name = true → t.IsBlankOn name) ∧
    (t'.grammar.isTerminal name = true → t'.IsBlankOn name) := by
  constructor <;> intro hterminal q hq
  all_goals
    obtain ⟨a, ha⟩ := Grammar.isTerminal_iff.1 hterminal
    rw [cellOn?_of_terminal? ha]
    obtain ⟨-, rfl⟩ := Grammar.terminal?_eq_some_iff.1 ha
  · exact hm.cell?_of_candidates_nil hq (Grammar.lt_size_of_terminal? ha)
      (candidates_eq_nil hm h (length_le_idxOf h.isPrefix hname))
  · refine hm'.cell?_of_candidates_nil hq (Grammar.lt_size_of_terminal? ha) ?_
    rw [candidates_eq hm hm' h]
    exact candidates_eq_nil hm h (length_le_idxOf h.isPrefix' hname)

end Alike
end Table
end Lalr
