import Lalr.Proofs.Operators.Layout
import Lalr.Proofs.Table.Resolution

/-!
The cells of the table of expressions. A path leads to one complete item at most, and where it could
go on besides, two operators meet, between which their bands decide.
-/

namespace Lalr

variable {ν : Type}

namespace Operators

variable {ops : Operators} {g : Grammar ν}

/-- A form with a dot before one of its symbols. -/
inductive Dotted : Form ops → List (Symbol ops) → Symbol ops → List (Symbol ops) → Prop
  | left (o : ops.Operator) : Dotted (.binary o) [] none [some (.operator o), none]
  | operator (o : ops.Operator) : Dotted (.binary o) [none] (some (.operator o)) [none]
  | right (o : ops.Operator) : Dotted (.binary o) [none, some (.operator o)] none []
  | opening : Dotted .bracketed [] (some .opening) [none, some .closing]
  | inner : Dotted .bracketed [some .opening] none [some .closing]
  | closing : Dotted .bracketed [some .opening, none] (some .closing) []
  | number : Dotted .number [] (some .number) []

theorem dotted_iff {f : Form ops} {before after : List (Symbol ops)} {x : Symbol ops} :
    Dotted f before x after ↔ f.symbols = before ++ x :: after := by
  constructor
  · intro h
    cases h <;> rfl
  · intro h
    cases f with
    | binary o =>
      rcases before with _ | ⟨_, _ | ⟨_, _ | _⟩⟩
      · cases h
        exact .left o
      · cases h
        exact .operator o
      · cases h
        exact .right o
      · simp [Form.symbols] at h
    | bracketed =>
      rcases before with _ | ⟨_, _ | ⟨_, _ | _⟩⟩
      · cases h
        exact .opening
      · cases h
        exact .inner
      · cases h
        exact .closing
      · simp [Form.symbols] at h
    | number =>
      rcases before with _ | _
      · cases h
        exact .number
      · simp [Form.symbols] at h

namespace Layout

variable (L : ops.Layout g)

theorem mark_injective : Function.Injective L.mark := by
  intro m m' h
  have hname := Grammar.terminalName_of_terminal? (L.terminal? m)
  rw [h, Grammar.terminalName_of_terminal? (L.terminal? m')] at hname
  have heq : Symbol.name (some m') = Symbol.name (some m) := hname
  exact (Option.some.inj (Symbol.name_injective heq)).symm

def sym (x : Symbol ops) : Sym := x.sym L.mark

theorem sym_injective : Function.Injective L.sym := by
  intro x y h
  match x, y, h with
  | none, none, _ => rfl
  | some m, some m', h => rw [L.mark_injective (Sym.terminal.inj h)]

include L in
theorem rhs_zero : g.cfg.rhs 0 = [.nonterminal 1] := by
  rw [L.wellFormed.cfg.rhs_zero, L.start]

theorem form_ne_zero (f : Form ops) : L.form f ≠ 0 := by
  intro h
  obtain ⟨rule, hrule, hlhs⟩ := Cfg.mem_rulesOf_iff.1 L.wellFormed.cfg.zero_mem
  obtain ⟨rule', hrule', hlhs'⟩ := Cfg.mem_rulesOf_iff.1 (L.mem_rulesOf.2 ⟨f, rfl⟩)
  rw [h, hrule, Option.some.injEq] at hrule'
  rw [← hrule', hlhs] at hlhs'
  cases hlhs'

theorem mark_pos (m : Mark ops) : 0 < L.mark m := by
  obtain ⟨f, hf⟩ := Form.exists_mem_symbols m
  have hmem : Sym.terminal (L.mark m) ∈ g.cfg.rhs (L.form f) := by
    rw [L.rhs]
    exact List.mem_map_of_mem hf
  exact (L.wellFormed.cfg.ordinary hmem).1

variable {γ : List Sym} {i : Item} {r : Nat} {f : Form ops} {before after : List (Symbol ops)}
  {x : Symbol ops}

theorem rhs_of_dotted (h : Dotted f before x after) :
    g.cfg.rhs (L.form f) = before.map L.sym ++ L.sym x :: after.map L.sym := by
  rw [L.rhs, dotted_iff.1 h, List.map_append, List.map_cons]
  rfl

theorem next?_of_dotted (h : Dotted f before x after) :
    g.cfg.next? ⟨L.form f, before.length⟩ = some (L.sym x) := by
  rw [Cfg.next?, Cfg.rest, L.rhs_of_dotted h, List.drop_left' (by simp), List.head?_cons]

/-- The items that wait for a symbol: that of a whole input, and the forms with a dot. -/
theorem dotted_of_next? {X : Sym} (h : g.cfg.ItemAfter γ i) (hx : g.cfg.next? i = some X) :
    γ = [] ∧ X = .nonterminal 1 ∨
      ∃ f before x after γ', Dotted f before x after ∧ X = L.sym x ∧
        i = ⟨L.form f, before.length⟩ ∧ γ = γ' ++ before.map L.sym := by
  obtain ⟨γ', before, after, rfl, hrhs, hdot, hbegin⟩ := h.split_next hx
  rcases L.eq_zero_or (h.rule_lt L.wellFormed.cfg.size_pos) with hzero | ⟨f, hf⟩
  · left
    rw [hzero, L.rhs_zero] at hrhs
    obtain ⟨rfl, hX⟩ : before = [] ∧ X = .nonterminal 1 := by
      cases before with
      | nil =>
        cases hrhs
        exact ⟨rfl, rfl⟩
      | cons _ before => simp at hrhs
    rw [hzero] at hbegin
    rcases hbegin.of_zero with ⟨rfl, -⟩ | ⟨j, n, -, hn, hr⟩
    · exact ⟨rfl, hX⟩
    · exact absurd rfl (L.wellFormed.cfg.rule_ne_zero_of_next? hn hr)
  · right
    rw [← hf, L.rhs] at hrhs
    obtain ⟨before, rest, hsymbols, rfl, hrest⟩ := List.map_eq_append_iff.1 hrhs
    obtain ⟨x, after, rfl, rfl, rfl⟩ := List.map_eq_cons_iff.1 hrest
    rw [List.length_map] at hdot
    exact ⟨f, before, x, after, γ', dotted_iff.2 hsymbols, rfl, by rw [hf, ← hdot], rfl⟩

/-- The last symbol, if any, is no whole operand. -/
def Opens (γ : List Sym) : Prop :=
  γ = [] ∨ γ.getLast? = some (L.sym (some .opening)) ∨
    ∃ o, γ.getLast? = some (L.sym (some (.operator o)))

/-- Where a form begins an operand does. -/
theorem opens_of_zero (h : g.cfg.ItemAfter γ i) (hd : i.dot = 0) : L.Opens γ := by
  induction h with
  | start => exact .inl rfl
  | advance => cases hd
  | @predict γ i j h hj ih =>
    obtain ⟨n, hn, -, -⟩ := Cfg.mem_predicted_iff.1 hj
    rcases L.dotted_of_next? h hn with ⟨rfl, -⟩ | ⟨f, before, x, after, γ', hf, hx, rfl, rfl⟩
    · exact .inl rfl
    · cases hf with
      | left o => exact ih rfl
      | operator o => cases hx
      | right o => exact .inr (.inr ⟨o, by simp⟩)
      | opening => cases hx
      | inner => exact .inr (.inl (by simp))
      | closing => cases hx
      | number => cases hx

theorem eq_of_append_symbols {γ γ' : List Sym} {f f' : Form ops}
    (h : γ ++ f.symbols.map L.sym = γ' ++ f'.symbols.map L.sym) : f = f' := by
  have hlast := congrArg List.getLast? h
  cases f <;> cases f' <;> simp [Form.symbols, L.sym_injective.eq_iff] at hlast
  · next o o' =>
    obtain ⟨-, hsymbols⟩ := List.append_inj' h rfl
    have hsign : L.sym (some (.operator o)) = L.sym (some (.operator o')) :=
      (List.cons.inj (List.cons.inj hsymbols).2).1
    cases L.sym_injective hsign
    rfl
  · rfl
  · rfl

/-- What a path completes, it ends with. -/
theorem of_finished (h : g.cfg.ItemAfter γ (g.cfg.finished r)) :
    r = 0 ∧ γ = [L.sym none] ∨
      ∃ f γ', r = L.form f ∧ γ = γ' ++ f.symbols.map L.sym := by
  by_cases hzero : r = 0
  · subst hzero
    have hγ := L.wellFormed.cfg.of_itemAfter_accepting h
    rw [L.start] at hγ
    exact .inl ⟨rfl, hγ⟩
  · obtain ⟨γ', i, n, rfl, -, -, -⟩ := h.of_finished hzero
    obtain ⟨f, rfl⟩ := (L.eq_zero_or (h.rule_lt L.wellFormed.cfg.size_pos)).resolve_left hzero
    exact .inr ⟨f, γ', rfl, by rw [L.rhs]; rfl⟩

include L in
theorem eq_of_finished {r' : Nat} (h : g.cfg.ItemAfter γ (g.cfg.finished r))
    (h' : g.cfg.ItemAfter γ (g.cfg.finished r')) : r = r' := by
  have hzero : ∀ (f : Form ops) (γ' : List Sym), [L.sym none] ≠ γ' ++ f.symbols.map L.sym := by
    intro f γ' heq
    have hlast := congrArg List.getLast? heq
    have hlength := congrArg List.length heq
    cases f <;> simp [Form.symbols, L.sym_injective.eq_iff] at hlast hlength
  rcases L.of_finished h with ⟨rfl, hγ⟩ | ⟨f, γ₁, rfl, hγ⟩ <;>
    rcases L.of_finished h' with ⟨rfl, hγ'⟩ | ⟨f', γ₂, rfl, hγ'⟩
  · rfl
  · exact absurd (hγ.symm.trans hγ') (hzero f' γ₂)
  · exact absurd (hγ'.symm.trans hγ) (hzero f γ₁)
  · rw [L.eq_of_append_symbols (hγ.symm.trans hγ')]

theorem not_finished_of_opens (hγ : L.Opens γ) : ¬ g.cfg.ItemAfter γ (g.cfg.finished r) := by
  intro h
  rcases L.of_finished h with ⟨-, rfl⟩ | ⟨f, γ', -, rfl⟩
  · simp [Opens, L.sym_injective.eq_iff] at hγ
  · cases f <;> simp [Opens, Form.symbols, L.sym_injective.eq_iff] at hγ

/-- An operand ends a whole input, or what an operator has on its right. -/
theorem of_finished_operand (h : g.cfg.ItemAfter (γ ++ [L.sym none]) (g.cfg.finished r)) :
    r = 0 ∧ γ = [] ∨
      ∃ o, r = L.form (.binary o) ∧ γ.getLast? = some (L.sym (some (.operator o))) := by
  rcases L.of_finished h with ⟨rfl, hγ⟩ | ⟨f, γ', rfl, hγ⟩
  · exact .inl ⟨rfl, by simpa using hγ⟩
  · cases f with
    | binary o =>
      have hsplit : γ' ++ (Form.binary o).symbols.map L.sym =
          (γ' ++ [L.sym none] ++ [L.sym (some (.operator o))]) ++ [L.sym none] := by
        simp [Form.symbols]
      rw [hsplit] at hγ
      exact .inr ⟨o, rfl, by simp [(List.append_inj' hγ rfl).1]⟩
    | bracketed =>
      have hlast := congrArg List.getLast? hγ
      simp [Form.symbols, L.sym_injective.eq_iff] at hlast
    | number =>
      have hlast := congrArg List.getLast? hγ
      simp [Form.symbols, L.sym_injective.eq_iff] at hlast

/-- Where a path both completes something and can go on, it ends with an operand, and an operator
comes next. -/
theorem of_finished_of_next? (h : g.cfg.ItemAfter γ (g.cfg.finished r))
    (hi : g.cfg.ItemAfter γ i) {a : Nat} (hx : g.cfg.next? i = some (.terminal a)) :
    (r = 0 ∨ ∃ o, r = L.form (.binary o)) ∧ ∃ p, a = L.mark (.operator p) := by
  rcases L.dotted_of_next? hi hx with ⟨-, hX⟩ | ⟨f, before, x, after, γ', hf, hX, rfl, rfl⟩
  · cases hX
  have hopens : before ≠ [] := by
    rintro rfl
    exact L.not_finished_of_opens (L.opens_of_zero hi rfl) h
  cases hf with
  | left o => exact absurd rfl hopens
  | operator o =>
    exact ⟨(L.of_finished_operand h).imp And.left fun ⟨o', hr, _⟩ => ⟨o', hr⟩,
      o, Sym.terminal.inj hX⟩
  | right o => cases hX
  | opening => exact absurd rfl hopens
  | inner => cases hX
  | closing =>
    -- Before the operand here is a bracket, and no form ends with an operand after a bracket.
    rw [List.map_cons, List.append_cons] at h
    rcases L.of_finished_operand h with ⟨-, hγ⟩ | ⟨o, -, hlast⟩
    · simp at hγ
    · simp [L.sym_injective.eq_iff] at hlast
  | number => exact absurd rfl hopens

/-- A cell offers one reduction at most, and only where two operators meet a shift besides. -/
theorem reducible_cases {q a : Nat} (hγ : g.cfg.Path γ q) :
    g.cfg.reducible q a = [] ∨ ∃ r, g.cfg.reducible q a = [r] ∧ (g.cfg.goTo q (.terminal a) = none ∨
      ∃ o p, r = L.form (.binary o) ∧ a = L.mark (.operator p)) := by
  have hwf := L.wellFormed.cfg
  have hafter : ∀ {r}, r ∈ g.cfg.reducible q a → g.cfg.ItemAfter γ (g.cfg.finished r) :=
    fun hr => Cfg.itemAfter_of_mem hwf.size_pos hγ (Cfg.mem_reducible_iff.1 hr).2.1
  cases hlist : g.cfg.reducible q a with
  | nil => exact .inl rfl
  | cons r rest =>
    have hr : r ∈ g.cfg.reducible q a := hlist ▸ List.mem_cons_self ..
    have hrest : rest = [] := by
      rw [List.eq_nil_iff_forall_not_mem]
      intro r' hr'
      have hlt := List.rel_of_pairwise_cons (hlist ▸ Cfg.ascending_reducible g.cfg q a) hr'
      have heq := L.eq_of_finished (hafter hr) (hafter (hlist ▸ List.mem_cons_of_mem _ hr'))
      omega
    refine .inr ⟨r, by rw [hrest], ?_⟩
    cases hgoto : g.cfg.goTo q (.terminal a) with
    | none => exact .inl rfl
    | some q' =>
      obtain ⟨i, hi, hx⟩ := Cfg.exists_mem_of_goTo hgoto
      obtain ⟨hform, p, rfl⟩ := L.of_finished_of_next? (hafter hr)
        (Cfg.itemAfter_of_mem hwf.size_pos hγ hi) hx
      rcases hform with rfl | ⟨o, rfl⟩
      · -- A whole input is followed by its end, which is never shifted.
        obtain ⟨-, hmem, hla⟩ := Cfg.mem_reducible_iff.1 hr
        obtain ⟨δ, -, hla⟩ := (hwf.mem_lookaheads_iff hmem).1 hla
        have hend := hwf.eq_zero_of_lookaheadAfter hla rfl
        exact absurd (hwf.ordinary_of_goTo hgoto).1 (by omega)
      · exact .inr ⟨o, p, rfl, rfl⟩

variable {o p : ops.Operator} {q q' a : Nat}

/-- Between two operators their bands decide. -/
theorem exists_settles (o p : ops.Operator) (q' : Nat) :
    ∃ cell, g.ranking.settle (L.mark (.operator p)) q' (L.form (.binary o)) = some cell ∧
      Ranking.Settles ⟨ops.level p, ops.associativity p⟩ ⟨ops.level o, ops.associativity o⟩ q'
        (L.form (.binary o)) cell := by
  cases hsettle : g.ranking.settle (L.mark (.operator p)) q' (L.form (.binary o)) with
  | none =>
    rw [Ranking.settle_eq_none_iff, L.ofTerminal, L.ofRule] at hsettle
    simp at hsettle
  | some cell =>
    obtain ⟨s, s', hs, hs', hcell⟩ := Ranking.settles_of_settle hsettle
    rw [L.ofTerminal, Option.some.injEq] at hs
    rw [L.ofRule, Option.some.injEq] at hs'
    subst hs hs'
    have hlevel : L.rank p = L.rank o → ops.level p = ops.level o := by
      have hlt : L.rank o < L.rank p ↔ ops.level o < ops.level p := L.rank_lt_iff
      have hgt : L.rank p < L.rank o ↔ ops.level p < ops.level o := L.rank_lt_iff
      omega
    refine ⟨cell, rfl, ?_⟩
    cases hcell with
    | looser h => exact .looser (L.rank_lt_iff.1 h)
    | tighter h => exact .tighter (L.rank_lt_iff.1 h)
    | left h hleft => exact .left (hlevel h) hleft
    | right h hright => exact .right (hlevel h) hright
    | nonassoc h hnonassoc => exact .nonassoc (hlevel h) hnonassoc

theorem settles_shift {cell : Cell} (h : ops.GroupsRight o p)
    (hcell : Ranking.Settles ⟨ops.level p, ops.associativity p⟩ ⟨ops.level o, ops.associativity o⟩
      q' r cell) : cell.move = .shift q' := by
  unfold GroupsRight at h
  cases hcell <;> simp_all
  omega

theorem settles_reduce {cell : Cell} (h : ops.GroupsLeft o p)
    (hcell : Ranking.Settles ⟨ops.level p, ops.associativity p⟩ ⟨ops.level o, ops.associativity o⟩
      q' r cell) : cell.move = .reduceBy r := by
  unfold GroupsLeft at h
  cases hcell <;> simp_all
  omega

theorem settles_error {cell : Cell} (h : ops.level o = ops.level p)
    (hnonassoc : ops.associativity p = .nonassoc)
    (hcell : Ranking.Settles ⟨ops.level p, ops.associativity p⟩ ⟨ops.level o, ops.associativity o⟩
      q' r cell) : cell.move = .error := by
  cases hcell <;> simp_all

/-- What a cell holds: where an operator can be read on after another the bands have settled which
goes first, and elsewhere there is nothing to settle. -/
inductive Decided (q : Nat) : Nat → Verdict → Prop
  | unreduced {a : Nat} (empty : g.cfg.reducible q a = []) :
    Decided q a ⟨⟨((g.cfg.goTo q (.terminal a)).map Move.shift).getD .error, []⟩, none, []⟩
  | unshifted {a r : Nat} (one : g.cfg.reducible q a = [r])
    (stop : g.cfg.goTo q (.terminal a) = none) : Decided q a ⟨⟨.reduceBy r, []⟩, none, []⟩
  | settled {o p : ops.Operator} {q' : Nat} {cell : Cell}
    (one : g.cfg.reducible q (L.mark (.operator p)) = [L.form (.binary o)])
    (goto : g.cfg.goTo q (.terminal (L.mark (.operator p))) = some q')
    (settles : Ranking.Settles ⟨ops.level p, ops.associativity p⟩
      ⟨ops.level o, ops.associativity o⟩ q' (L.form (.binary o)) cell) :
    Decided q (L.mark (.operator p)) ⟨cell, none, []⟩

theorem decided (hγ : g.cfg.Path γ q) (a : Nat) : L.Decided q a (g.verdict q a) := by
  have hone : ∀ {a r}, g.cfg.reducible q a = [r] → g.cfg.goTo q (.terminal a) = none →
      L.Decided q a (g.verdict q a) := by
    intro a r hone hgoto
    rw [Grammar.verdict, hone, hgoto, Ranking.verdict_of_unshifted]
    exact .unshifted hone hgoto
  rcases L.reducible_cases (a := a) hγ with hnone | ⟨r, hr, hgoto | ⟨o, p, rfl, rfl⟩⟩
  · rw [Grammar.verdict, hnone, Ranking.verdict_nil]
    exact .unreduced hnone
  · exact hone hr hgoto
  · cases hgoto : g.cfg.goTo q (.terminal (L.mark (.operator p))) with
    | none => exact hone hr hgoto
    | some q' =>
      obtain ⟨cell, hcell, hsettles⟩ := L.exists_settles o p q'
      rw [Grammar.verdict, hr, hgoto, Ranking.verdict_of_settle hcell]
      exact .settled hr hgoto hsettles

include L in
/-- Nothing is left undecided. -/
theorem verdict_clear (hγ : g.cfg.Path γ q) (a : Nat) :
    (g.verdict q a).clashes = [] ∧ (g.verdict q a).tie = none := by
  have hdecided := L.decided hγ a
  generalize g.verdict q a = v at hdecided
  cases hdecided <;> exact ⟨rfl, rfl⟩

include L in
theorem reducible_eq (hγ : g.cfg.Path γ q)
    (hla : g.cfg.LookaheadAfter γ (g.cfg.finished r) a) : g.cfg.reducible q a = [r] := by
  have hwf := L.wellFormed.cfg
  have hitem := hla.itemAfter.mem_items hwf.size_pos hγ
  have hmem : r ∈ g.cfg.reducible q a := Cfg.mem_reducible_iff.2
    ⟨hla.itemAfter.rule_lt hwf.size_pos, hitem, (hwf.mem_lookaheads_iff hitem).2 ⟨γ, hγ, hla⟩⟩
  rcases L.reducible_cases (a := a) hγ with hnone | ⟨r, hone, -⟩
  · rw [hnone] at hmem
    cases hmem
  · rw [hone, List.mem_singleton] at hmem
    rw [hone, hmem]

theorem form_injective : Function.Injective L.form := by
  intro f f' h
  have hsymbols : f.symbols.map L.sym = f'.symbols.map L.sym := by
    have hrhs := L.rhs f
    rw [h, L.rhs] at hrhs
    exact hrhs.symm
  exact L.eq_of_append_symbols (congrArg ([] ++ ·) hsymbols)

/-- The path goes on, unless it ends with an operand of an operator that is to be taken first. -/
theorem move_shift (hγ : g.cfg.Path γ q) (hgoto : g.cfg.goTo q (.terminal a) = some q')
    (hright : ∀ o p, g.cfg.ItemAfter γ (g.cfg.finished (L.form (.binary o))) →
      a = L.mark (.operator p) → ops.GroupsRight o p) :
    (g.verdict q a).move = .shift q' := by
  have hdecided := L.decided hγ a
  generalize g.verdict q a = v at hdecided
  cases hdecided with
  | unreduced =>
    rw [hgoto]
    rfl
  | unshifted _ hstop => simp [hgoto] at hstop
  | @settled o p q'' cell hone hgoto' hsettles =>
    obtain rfl : q' = q'' := Option.some.inj (hgoto.symm.trans hgoto')
    have hmem : L.form (.binary o) ∈ g.cfg.reducible q (L.mark (.operator p)) :=
      hone ▸ List.mem_singleton_self _
    have hitem := Cfg.itemAfter_of_mem L.wellFormed.cfg.size_pos hγ
      (Cfg.mem_reducible_iff.1 hmem).2.1
    exact settles_shift (hright o p hitem rfl) hsettles

/-- A form that the path ends with is reduced, unless an operator comes that is to be taken
first. -/
theorem move_reduce (hγ : g.cfg.Path γ q)
    (hla : g.cfg.LookaheadAfter γ (g.cfg.finished (L.form f)) a)
    (hleft : ∀ o p, f = .binary o → a = L.mark (.operator p) → ops.GroupsLeft o p) :
    (g.verdict q a).move = .reduceBy (L.form f) := by
  have hone := L.reducible_eq hγ hla
  have hdecided := L.decided hγ a
  generalize g.verdict q a = v at hdecided
  cases hdecided with
  | unreduced hnone => simp [hone] at hnone
  | unshifted hone' => rw [List.singleton_inj.1 (hone.symm.trans hone')]
  | @settled o p q' cell hone' _ hsettles =>
    have hform := List.singleton_inj.1 (hone.symm.trans hone')
    cases L.form_injective hform
    exact settles_reduce (hleft o p rfl rfl) hsettles

/-- Operators of one band that do not associate are not taken together at all. -/
theorem move_error (hγ : g.cfg.Path γ q)
    (hla : g.cfg.LookaheadAfter γ (g.cfg.finished (L.form (.binary o))) (L.mark (.operator p)))
    (hgoto : g.cfg.goTo q (.terminal (L.mark (.operator p))) = some q')
    (hlevel : ops.level o = ops.level p) (hnonassoc : ops.associativity p = .nonassoc) :
    (g.verdict q (L.mark (.operator p))).move = .error := by
  have hone := L.reducible_eq hγ hla
  have hdecided := L.decided hγ (L.mark (.operator p))
  generalize hv : g.verdict q (L.mark (.operator p)) = v at hdecided
  generalize ha : L.mark (.operator p) = a at *
  cases hdecided with
  | unreduced hnone => simp [hone] at hnone
  | unshifted _ hstop => simp [hgoto] at hstop
  | @settled o' p' q'' cell hone' _ hsettles =>
    cases L.mark_injective ha
    cases L.form_injective (List.singleton_inj.1 (hone.symm.trans hone'))
    exact settles_error hlevel hnonassoc hsettles

include L in
theorem not_clashes : ¬ g.Clashes := by
  rintro ⟨q, hq, a, -, hclash⟩
  obtain ⟨γ, hγ⟩ := Cfg.exists_path L.wellFormed.cfg.size_pos hq
  exact hclash (L.verdict_clear hγ a).1

include L in
theorem move_end (hγ : g.cfg.Path γ q) (hla : g.cfg.LookaheadAfter γ (g.cfg.finished r) 0) :
    (g.verdict q 0).move = .reduceBy r := by
  have hgoto : g.cfg.goTo q (.terminal 0) = none := by
    rw [Option.eq_none_iff_forall_ne_some]
    exact fun q' hq' => Nat.lt_irrefl 0 (L.wellFormed.cfg.ordinary_of_goTo hq').1
  rw [Grammar.verdict, L.reducible_eq hγ hla, hgoto, Ranking.verdict_of_unshifted]

include L in
/-- At the end of the input every rule is reduced. -/
theorem exists_reduceBy (hr : r < g.cfg.rules.size) :
    ∃ q < g.cfg.states.size, (g.verdict q 0).move = .reduceBy r := by
  have hwf := L.wellFormed.cfg
  have hla : ∃ γ, g.cfg.LookaheadAfter γ (g.cfg.finished r) 0 := by
    rcases L.eq_zero_or hr with rfl | ⟨f, rfl⟩
    · exact ⟨_, Cfg.LookaheadAfter.start.finished⟩
    · have hadmits : g.cfg.Admits [] .start [] 0 := .inr ⟨.refl [], .start⟩
      exact ⟨_, (hadmits.lookaheadAfter .start L.rhs_zero (L.mem_rulesOf.2 ⟨f, rfl⟩)).finished⟩
  obtain ⟨γ, hla⟩ := hla
  obtain ⟨q, hγ⟩ := hla.itemAfter.exists_path hwf.size_pos
  exact ⟨q, Cfg.lt_size_of_mem_items (hla.itemAfter.mem_items hwf.size_pos hγ),
    L.move_end hγ hla⟩

include L in
theorem isReduced (hr : r < g.cfg.rules.size) : (Analysis.ofGrammar g).isReduced r = true := by
  obtain ⟨q, hq, hmove⟩ := L.exists_reduceBy hr
  refine List.any_eq_true.2 ⟨(q, 0, g.verdict q 0), ?_, by simpa using hmove⟩
  exact Analysis.mem_cells_ofGrammar.2 ⟨hq, L.wellFormed.terminals_pos, rfl⟩

include L in
theorem build_eq : g.build = .ok (Analysis.ofGrammar g).table := by
  refine Grammar.build_of_used L.not_clashes fun r hr => Grammar.uses_iff.2 (.inl ?_)
  exact L.isReduced (by simpa [Grammar.cfg] using hr)

include L in
/-- The table adds nothing to the findings of the grammar. -/
theorem diagnostics_table : (Analysis.ofGrammar g).table.diagnostics = g.diagnostics := by
  have hties : (Analysis.ofGrammar g).ties = [] := by
    rw [Analysis.ties, List.filterMap_eq_nil_iff]
    rintro ⟨q, a, v⟩ hv
    obtain ⟨hq, -, rfl⟩ := Analysis.mem_cells_ofGrammar.1 hv
    obtain ⟨γ, hγ⟩ := Cfg.exists_path L.wellFormed.cfg.size_pos hq
    simp [(L.verdict_clear hγ a).2]
  have hreduced : (Analysis.ofGrammar g).neverReduced = [] := by
    rw [Analysis.neverReduced, List.map_eq_nil_iff, Analysis.unreduced, List.filter_eq_nil_iff]
    rintro ⟨r, p⟩ hp
    obtain ⟨⟨p, r⟩, hmem, heq⟩ := List.mem_map.1 hp
    cases heq
    have hlt : r < g.productions.toList.length :=
      (List.getElem?_eq_some_iff.1 (List.mk_mem_zipIdx_iff_getElem?.1 hmem)).1
    simp [L.isReduced (r := r) (by simpa [Grammar.cfg] using hlt)]
  simp [Analysis.table, hties, hreduced]
  rfl

end Layout
end Operators
end Lalr
