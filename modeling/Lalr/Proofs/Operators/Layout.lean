import Lalr.Proofs.Operators.Grammar
import Lalr.Table.Cell

/-!
How the symbols and rules of the grammar of expressions are numbered, and what precedence they have.
-/

namespace Lalr

variable {ν σ V : Type}

namespace Operators

/-- The numbers of symbols and rules in a grammar whose rules are the forms, and the levels of the
operators. -/
structure Layout (ops : Operators) (g : Grammar ν) where
  mark : Mark ops → Nat
  form : Form ops → Nat
  rank : ops.Operator → Nat
  wellFormed : g.WellFormed
  start : g.start = 1
  fallback? (a : Nat) : g.fallback? a = none
  terminal? (m : Mark ops) : g.terminal? m.name = some (mark m)
  mem_rulesOf {r : Nat} : r ∈ g.cfg.rulesOf 1 ↔ ∃ f, form f = r
  rhs (f : Form ops) : g.cfg.rhs (form f) = f.symbols.map (Symbol.sym mark)
  eq_zero_or {r : Nat} : r < g.cfg.rules.size → r = 0 ∨ ∃ f, form f = r
  ofTerminal (o : ops.Operator) :
    g.ranking.ofTerminal (mark (.operator o)) = some ⟨rank o, ops.associativity o⟩
  ofRule (o : ops.Operator) :
    g.ranking.ofRule (form (.binary o)) = some ⟨rank o, ops.associativity o⟩
  rank_lt_iff {o p : ops.Operator} : rank o < rank p ↔ ops.level o < ops.level p

variable {ops : Operators}

/-- The level of a band, since levels count the bands that have operators. -/
def rankAt (bands : List (Associativity × List String)) (i : Nat) : Nat :=
  ((bands.take i).filter (·.2 ≠ [])).length + 1

theorem rankAt_cons_succ (b : Associativity × List String)
    (bands : List (Associativity × List String)) (i : Nat) :
    rankAt (b :: bands) (i + 1) = (if b.2 = [] then 0 else 1) + rankAt bands i := by
  by_cases hnil : b.2 = []
  · simp [rankAt, hnil]
  · simp [rankAt, hnil]
    omega

theorem findSome?_bands {s : Site} {bands : List (Associativity × List String)} {name : String}
    {band : Associativity × List String}
    (h : bands[bands.findIdx (name ∈ ·.2)]? = some band) (n : Nat) :
    (((bands.filter (·.2 ≠ [])).map fun b => (⟨s, b.1, b.2⟩ : BandSpec)).zipIdx n).findSome?
        (fun (b, i) => if name ∈ b.names then some (⟨i + 1, b.associativity⟩ : Precedence)
          else none) =
      some ⟨n + rankAt bands (bands.findIdx (name ∈ ·.2)), band.1⟩ := by
  induction bands generalizing n with
  | nil => simp at h
  | cons b bands ih =>
    rw [List.findIdx_cons] at h ⊢
    by_cases hb : name ∈ b.2
    · have hne : b.2 ≠ [] := List.ne_nil_of_mem hb
      obtain rfl : b = band := by simpa [hb] using h
      simp [hne, hb, List.zipIdx_cons, rankAt]
    · have hband : bands[bands.findIdx (name ∈ ·.2)]? = some band := by simpa [hb] using h
      simp only [hb, decide_false, cond_false, rankAt_cons_succ]
      by_cases hnil : b.2 = []
      · simpa [hnil] using ih hband n
      · have hrest := ih hband (n + 1)
        rw [Nat.add_assoc] at hrest
        simpa [hnil, hb, List.zipIdx_cons] using hrest

theorem getElem?_level (o : ops.Operator) :
    ∃ b, ops.bands[ops.level o]? = some b ∧ o.1 ∈ b.2 ∧ ops.associativity o = b.1 := by
  have hmem := List.findIdx_getElem (w := ops.level_lt o)
  rw [decide_eq_true_eq] at hmem
  exact ⟨_, List.getElem?_eq_getElem (ops.level_lt o), hmem, rfl⟩

theorem rankAt_lt {o p : ops.Operator} (h : ops.level o < ops.level p) :
    rankAt ops.bands (ops.level o) < rankAt ops.bands (ops.level p) := by
  obtain ⟨b, hb, ho, -⟩ := getElem?_level o
  have hne : b.2 ≠ [] := List.ne_nil_of_mem ho
  have htake : ops.bands.take (ops.level o + 1) = ops.bands.take (ops.level o) ++ [b] := by
    rw [List.take_add_one, hb]
    rfl
  have hsub : (ops.bands.take (ops.level o + 1)).Sublist (ops.bands.take (ops.level p)) :=
    (List.take_prefix_take_left h).sublist
  have hlength := (hsub.filter (·.2 ≠ [])).length_le
  rw [htake, List.filter_append, List.filter_singleton, decide_eq_true hne, cond_true,
    List.length_append, List.length_singleton] at hlength
  exact Nat.succ_lt_succ hlength

theorem rankAt_lt_iff {o p : ops.Operator} :
    rankAt ops.bands (ops.level o) < rankAt ops.bands (ops.level p) ↔
      ops.level o < ops.level p := by
  refine ⟨fun h => ?_, rankAt_lt⟩
  by_contra hle
  rcases Nat.lt_or_eq_of_le (Nat.le_of_not_lt hle) with hlt | heq
  · exact Nat.lt_asymm h (rankAt_lt hlt)
  · rw [heq] at h
    exact Nat.lt_irrefl _ h

namespace Wording

variable (w : ops.Wording ν)

def precedence (_ : ops.Wording ν) (o : ops.Operator) : Precedence :=
  ⟨rankAt ops.bands (ops.level o), ops.associativity o⟩

theorem precedenceOf_operator (o : ops.Operator) :
    w.spec.precedenceOf o.1 = some (w.precedence o) := by
  obtain ⟨b, hb, -, hassociativity⟩ := getElem?_level o
  have hfind := findSome?_bands (s := w.site) hb 0
  rw [Nat.zero_add, ← hassociativity] at hfind
  simpa [Spec.precedenceOf, spec, level, precedence] using hfind

theorem precedenceOf_operand : w.spec.precedenceOf "E" = none := by
  rw [Spec.precedenceOf, List.findSome?_eq_none_iff]
  rintro ⟨b, i⟩ hb
  obtain ⟨band, hmem, rfl⟩ := List.mem_map.1 (List.fst_mem_of_mem_zipIdx hb)
  have hband : "E" ∉ band.2 := fun hname =>
    ne_of_mem_names (List.mem_flatMap.2 ⟨band, (List.mem_filter.1 hmem).1, hname⟩) rfl
  simp [hband]

theorem rulePrecedence_binary (o : ops.Operator) (s : Site) :
    w.spec.rulePrecedence ((Form.binary o).rule w.bodies s) = some (w.precedence o) := by
  have hrhs : (Form.binary o).rhs.reverse = ["E", o.1, "E"] := rfl
  simp only [Spec.rulePrecedence, Form.rule, hrhs, List.findSome?_cons, w.precedenceOf_operand,
    w.precedenceOf_operator]

def form (f : Form ops) : Nat := (w.rules.map (·.2)).idxOf f + 1

theorem getElem?_form (f : Form ops) :
    ∃ s, w.spec.allRules[w.form f]? = some (f.rule w.bodies s) := by
  have hget : (w.rules.map (·.2))[(w.rules.map (·.2)).idxOf f]? = some f :=
    List.getElem?_idxOf (w.perm.mem_iff.2 (mem_forms f))
  rw [List.getElem?_map, Option.map_eq_some_iff] at hget
  obtain ⟨⟨s, f⟩, hrule, rfl⟩ := hget
  exact ⟨s, by simp [Spec.allRules, form, spec, hrule]⟩

theorem exists_form {r : Nat} {R : NamedRule ν} (hR : w.spec.allRules[r + 1]? = some R) :
    ∃ f, w.form f = r + 1 := by
  have hnodup : (w.rules.map (·.2)).Nodup := w.perm.nodup_iff.2 ops.nodup_forms
  rw [Spec.allRules, List.getElem?_cons_succ, spec, List.getElem?_map,
    Option.map_eq_some_iff] at hR
  obtain ⟨⟨s, f⟩, hrule, -⟩ := hR
  obtain ⟨hlt, hget⟩ := List.getElem?_eq_some_iff.1 hrule
  have hlt' : r < (w.rules.map (·.2)).length := by simpa using hlt
  have hidx := hnodup.idxOf_getElem r hlt'
  rw [List.getElem_map, hget] at hidx
  exact ⟨f, congrArg Nat.succ hidx⟩

theorem getElem?_productions (f : Form ops) :
    ∃ s, w.spec.grammar.productions[w.form f]? =
      some (w.spec.production w.spec.names (f.rule w.bodies s)) := by
  obtain ⟨s, hs⟩ := w.getElem?_form f
  exact ⟨s, by simp [Spec.grammar, hs]⟩

def layout : ops.Layout w.spec.grammar where
  mark := w.mark
  form := w.form
  rank o := (w.precedence o).level
  wellFormed := w.wellFormed
  start := w.start_eq
  fallback? a := by
    rw [Option.eq_none_iff_forall_ne_some]
    intro u hu
    obtain ⟨f, hf, -⟩ := Spec.fallback?_grammar hu
    cases hf
  terminal? m := by
    rw [Grammar.terminal?, Spec.terminalNames_grammar, idxOf?_eq, if_pos (w.mem_terminalNames m)]
    rfl
  mem_rulesOf {r} := by
    rw [Spec.mem_rulesOf_grammar_iff, w.nonterminals_eq]
    constructor
    · rintro ⟨R, hR, hlhs⟩
      cases r with
      | zero =>
        cases hR
        cases hlhs
      | succ r => exact w.exists_form hR
    · rintro ⟨f, rfl⟩
      obtain ⟨s, hs⟩ := w.getElem?_form f
      exact ⟨_, hs, rfl⟩
  rhs f := by
    obtain ⟨s, hs⟩ := w.getElem?_form f
    have hsymbols : f.rhs.map w.spec.names.symbol = f.symbols.map (Symbol.sym w.mark) := by
      rw [Form.rhs, List.map_map]
      exact List.map_congr_left fun x _ => w.symbol_name x
    rw [Cfg.rhs, Spec.rules_cfg_grammar, hs]
    exact hsymbols
  eq_zero_or {r} hr := by
    cases r with
    | zero => exact .inl rfl
    | succ r =>
      rw [Spec.cfg_grammar] at hr
      have hlt : r + 1 < w.spec.allRules.length := by simpa [Spec.cfg] using hr
      exact .inr (w.exists_form (List.getElem?_eq_getElem hlt))
  ofTerminal o := by
    have hget := List.getElem?_idxOf (w.mem_terminalNames (.operator o))
    simp only [Grammar.ranking, Spec.grammar, mark, List.getElem?_toArray, List.getElem?_map,
      Spec.names, hget]
    exact w.precedenceOf_operator o
  ofRule o := by
    obtain ⟨s, hs⟩ := w.getElem?_productions (.binary o)
    simp only [Grammar.ranking, hs]
    exact w.rulePrecedence_binary o s
  rank_lt_iff := rankAt_lt_iff

end Wording
end Operators
end Lalr
