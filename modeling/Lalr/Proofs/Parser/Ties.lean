import Lalr.Proofs.Table.Dropped
import Lalr.Proofs.Parser.Moves

/-!
What becomes of a token where a shift and the last reduction tie. Its own cell has no move, which is
all that a lookup sees of it, so that its fallback is tried there as it is in a cell that is empty.
-/

namespace Lalr

variable {ν σ V : Type}

namespace Table

variable {t : Table ν} {q a : Nat}

/-- No move is left for the terminal nor for its fallback. -/
def RefusesAll (t : Table ν) (q a : Nat) : Prop :=
  ∀ f, t.grammar.fallback? a = some f → t.move q f = .error

theorem lookup_eq_error (hmove : t.move q a = .error) (h : t.RefusesAll q a) :
    t.lookup q a = .error := by
  rw [lookup_eq, if_pos hmove]
  cases hf : t.grammar.fallback? a with
  | none => rfl
  | some f => exact h f hf

theorem lookup_of_fallback {f : Nat} (hmove : t.move q a = .error)
    (hf : t.grammar.fallback? a = some f) : t.lookup q a = t.move q f := by
  rw [lookup_eq, if_pos hmove, hf]
  rfl

theorem IsBuilt.move_of_ties (h : t.IsBuilt) (hties : t.grammar.Ties q a) :
    t.move q a = .error := by
  obtain ⟨q', -, -, -, hgoto, -⟩ := id hties
  have ha : a < t.terminals := (h.wellFormed.cfg.ordinary_of_goTo hgoto).2
  have hq : q < t.states := by
    obtain ⟨i, hi, -⟩ := Cfg.exists_mem_of_goTo hgoto
    by_contra hq
    rw [h.states_eq, not_lt, ← Array.getElem?_eq_none_iff] at hq
    rw [Cfg.items_of_states_none hq] at hi
    cases hi
  obtain ⟨cell, hcell, hrecords⟩ := h.records hq ha
  rw [move, hcell]
  exact (hrecords.error_iff.2 hties).1

end Table

theorem Machine.reduces_of_rule {m : Machine ν σ V} (hm : m.table.IsBuilt) {ahead : Lookahead V}
    {here : Location} {stack : Stack V} {c c' : σ} {r n q k : Nat} {v : V}
    (hlookup : m.table.lookup stack.state ahead.terminal = .reduce r)
    (hr : r ∈ m.table.cfg.rulesOf n) (hk : (m.table.cfg.rhs r).length = k)
    (hq : m.table.cfg.goTo (Stack.state (stack.drop k)) (.nonterminal n) = some q)
    (hact : (m.act r ((stack.take k).reverse.map Frame.value)).run.run c = (.ok v, c')) :
    m.Reduces ahead here (stack, c)
      (⟨q, v, ((stack.take k).getLast?.map Frame.location).getD here⟩ :: stack.drop k, c') := by
  have hreduce : (m.reduce stack r here).run.run c = _ := reduce_run hm hr hk hq rfl
  rw [perform_run, hact] at hreduce
  have hstep : m.step stack ahead here = .reduced <$> m.reduce stack r here := step_reduce hlookup
  rw [Reduces, hstep, map_eq_pure_bind, Parsing.run_bind_of_ok hreduce]
  rfl

namespace Parser

variable {m : Machine ν σ V} {t : Token V} {a : Nat}

theorem addToken_of_lookup_error (p : Parser σ V)
    (ha : m.table.grammar.terminal? t.terminal = some a) (hne : a ≠ 0)
    (hlookup : m.table.lookup p.stack.state a = .error) :
    p.addToken m t = some (.error (.unexpected t.location t.terminal
      (m.table.expectedNames p.stack.state)), p.reset) := by
  have hstep : (m.step p.stack (.token a t.value) t.location).run.run p.context = _ :=
    Machine.step_error hlookup
  rw [addToken_eq p ha hne, Machine.advance_eq, hstep]
  simp only [Lookahead.terminal, Grammar.terminalName_of_terminal? ha]
  rfl

theorem addToken_of_lookup_shift (p : Parser σ V) {q : Nat}
    (ha : m.table.grammar.terminal? t.terminal = some a) (hne : a ≠ 0)
    (hlookup : m.table.lookup p.stack.state a = .shift q) :
    p.addToken m t = some (.ok (),
      ⟨p.context, ⟨q, t.value, t.location⟩ :: p.stack, t.location⟩) := by
  have hstep : (m.step p.stack (.token a t.value) t.location).run.run p.context = _ :=
    Machine.step_shift hlookup
  rw [addToken_eq p ha hne, Machine.advance_eq, hstep]
  rfl

/-- After a reduction the token is taken anew. -/
theorem addToken_of_lookup_reduce (p : Parser σ V) {r : Nat}
    (ha : m.table.grammar.terminal? t.terminal = some a) (hne : a ≠ 0)
    (hlookup : m.table.lookup p.stack.state a = .reduce r) :
    p.addToken m t = match (m.reduce p.stack r t.location).run.run p.context with
      | (.ok stack, context) => ({ p with context, stack } : Parser σ V).addToken m t
      | (.error e, context) => some (.error e, { context }) := by
  have hstep : m.step p.stack (.token a t.value) t.location = _ := Machine.step_reduce hlookup
  rw [addToken_eq p ha hne, Machine.advance_eq, hstep, map_eq_pure_bind, Parsing.run_bind]
  rcases (m.reduce p.stack r t.location).run.run p.context with ⟨e | stack, context⟩
  · rfl
  · exact (addToken_eq (p := { p with context, stack }) ha hne).symm

theorem addToken_of_reduces (p : Parser σ V) {x : Stack V × σ}
    (ha : m.table.grammar.terminal? t.terminal = some a) (hne : a ≠ 0)
    (h : m.Reduces (.token a t.value) t.location (p.stack, p.context) x) :
    p.addToken m t = (⟨x.2, x.1, p.location⟩ : Parser σ V).addToken m t := by
  have hstep : (m.step p.stack (.token a t.value) t.location).run.run p.context =
      (.ok (.reduced x.1), x.2) := h
  rw [addToken_eq p ha hne, Machine.advance_eq, hstep, addToken_eq _ ha hne]

/-- Where a shift and the last reduction tie, the token is refused on the spot if its fallback has no
move either. A fallback that has one lends it to the token: the token is shifted as if it were the
fallback, or it is taken anew after a reduction. -/
theorem addToken_of_ties (hm : m.table.IsBuilt) (p : Parser σ V)
    (ha : m.table.grammar.terminal? t.terminal = some a) (hne : a ≠ 0)
    (hties : m.table.grammar.Ties p.stack.state a) :
    (m.table.RefusesAll p.stack.state a →
      p.addToken m t = some (.error (.unexpected t.location t.terminal
        (m.table.expectedNames p.stack.state)), p.reset)) ∧
    ∀ f, m.table.grammar.fallback? a = some f →
      (∀ q, m.table.move p.stack.state f = .shift q → p.addToken m t =
        some (.ok (), ⟨p.context, ⟨q, t.value, t.location⟩ :: p.stack, t.location⟩)) ∧
      (∀ r, m.table.move p.stack.state f = .reduce r → p.addToken m t =
        match (m.reduce p.stack r t.location).run.run p.context with
        | (.ok stack, context) => ({ p with context, stack } : Parser σ V).addToken m t
        | (.error e, context) => some (.error e, { context })) ∧
      m.table.move p.stack.state f ≠ .accept := by
  have hmove := hm.move_of_ties hties
  refine ⟨fun hrefuses => ?_, fun f hf => ?_⟩
  · exact addToken_of_lookup_error p ha hne (Table.lookup_eq_error hmove hrefuses)
  · have hlookup := Table.lookup_of_fallback hmove hf
    refine ⟨fun q hq => ?_, fun r hr => ?_, fun haccept => ?_⟩
    · exact addToken_of_lookup_shift p ha hne (hlookup.trans hq)
    · exact addToken_of_lookup_reduce p ha hne (hlookup.trans hr)
    · exact hne (hm.of_lookup_accept (hlookup.trans haccept)).1

end Parser

/-! Sums and comparisons, where the sign of a comparison can also be read as that of a sum. -/

namespace Chains

def declarations : List (Site × Declaration Unit) :=
  [(default, .tokens "n"), (default, .bands [(.left, "+")]), (default, .bands [(.nonassoc, "<")]),
    (default, .rule "less" "less < less" (.native ()) none),
    (default, .rule "less" "less + less" (.native ()) none),
    (default, .rule "less" "n" (.native ()) none), (default, .fallback "+" "<")]

def spec : Spec Unit := (Spec.declareAll {} declarations).toOption.get (by decide +kernel)

def table : Table Unit := spec.build.toOption.get (by decide +kernel)

theorem isBuilt : table.IsBuilt :=
  ⟨declarations, spec, Except.eq_ok_get _ _, Except.eq_ok_get _ _⟩

def machine : Machine Unit Nat Nat :=
  ⟨table, fun _ values context => (.ok (values.foldl (· + ·) 0), context + 1)⟩

theorem ties : table.grammar.Ties 5 2 :=
  (isBuilt.cellLine?_eq_error_iff (by decide +kernel) (by decide +kernel)).1 (by decide +kernel)

theorem reduces {a r k q s b c : Nat} {stack : Stack Nat} {here : Location}
    (hlookup : table.lookup s a = .reduce r)
    (hr : r ∈ table.cfg.rulesOf 1 ∧ (table.cfg.rhs r).length = k)
    (hq : table.cfg.goTo b (.nonterminal 1) = some q) (hs : stack.state = s)
    (hb : Stack.state (stack.drop k) = b) :
    machine.Reduces (.token a 0) here (stack, c)
      (⟨q, ((stack.take k).reverse.map Frame.value).foldl (· + ·) 0,
        ((stack.take k).getLast?.map Frame.location).getD here⟩ :: stack.drop k, c + 1) := by
  subst hs hb
  exact Machine.reduces_of_rule isBuilt hlookup hr.1 hr.2 hq rfl

theorem reduce_run {r k q b c : Nat} {stack : Stack Nat} {here : Location}
    (hr : r ∈ table.cfg.rulesOf 1 ∧ (table.cfg.rhs r).length = k)
    (hq : table.cfg.goTo b (.nonterminal 1) = some q) (hb : Stack.state (stack.drop k) = b) :
    (machine.reduce stack r here).run.run c =
      (.ok (⟨q, ((stack.take k).reverse.map Frame.value).foldl (· + ·) 0,
        ((stack.take k).getLast?.map Frame.location).getD here⟩ :: stack.drop k), c + 1) := by
  subst hb
  exact Machine.reduce_run (m := machine) isBuilt hr.1 hr.2 hq rfl

theorem lookups : table.lookup 0 1 = .shift 2 ∧ table.lookup 2 2 = .reduce 3 ∧
    table.lookup 1 2 = .shift 3 ∧ table.lookup 3 1 = .shift 2 ∧ table.lookup 5 2 = .reduce 1 ∧
    table.move 5 3 = .reduce 1 := by decide +kernel

theorem goTos : table.cfg.goTo 0 (.nonterminal 1) = some 1 ∧
    table.cfg.goTo 3 (.nonterminal 1) = some 5 := by decide +kernel

theorem rules : (1 ∈ table.cfg.rulesOf 1 ∧ (table.cfg.rhs 1).length = 3) ∧
    3 ∈ table.cfg.rulesOf 1 ∧ (table.cfg.rhs 3).length = 1 := by decide +kernel

theorem terminals : table.grammar.terminal? "n" = some 1 ∧ table.grammar.terminal? "<" = some 2 ∧
    table.grammar.fallback? 2 = some 3 := by decide +kernel

/-- What has been taken of `1 < 2`. -/
def taken : Parser Nat Nat :=
  ⟨1, [⟨2, 2, ⟨1, 5⟩⟩, ⟨3, 0, ⟨1, 3⟩⟩, ⟨1, 1, ⟨1, 1⟩⟩], ⟨1, 5⟩⟩

/-- The same before another sign, as soon as the second number is reduced. -/
def tied : Parser Nat Nat :=
  ⟨2, [⟨5, 2, ⟨1, 5⟩⟩, ⟨3, 0, ⟨1, 3⟩⟩, ⟨1, 1, ⟨1, 1⟩⟩], ⟨1, 5⟩⟩

theorem push_taken : ({ context := 0 } : Parser Nat Nat).push machine
    [⟨"n", 1, ⟨1, 1⟩⟩, ⟨"<", 0, ⟨1, 3⟩⟩, ⟨"n", 2, ⟨1, 5⟩⟩] = some (.ok (), taken) := by
  obtain ⟨hnumber, hless, -⟩ := terminals
  obtain ⟨hfirst, hreduce, hshift, hsecond, -, -⟩ := lookups
  have hone : ({ context := 0 } : Parser Nat Nat).addToken machine ⟨"n", 1, ⟨1, 1⟩⟩ =
      some (.ok (), ⟨0, [⟨2, 1, ⟨1, 1⟩⟩], ⟨1, 1⟩⟩) :=
    Parser.addToken_of_lookup_shift _ hnumber one_ne_zero hfirst
  have hreduces : machine.Reduces (.token 2 0) ⟨1, 3⟩ ([⟨2, 1, ⟨1, 1⟩⟩], 0)
      ([⟨1, 1, ⟨1, 1⟩⟩], 1) := reduces (k := 1) hreduce rules.2 goTos.1 rfl rfl
  have hsign : (⟨0, [⟨2, 1, ⟨1, 1⟩⟩], ⟨1, 1⟩⟩ : Parser Nat Nat).addToken machine
      ⟨"<", 0, ⟨1, 3⟩⟩ = some (.ok (), ⟨1, [⟨3, 0, ⟨1, 3⟩⟩, ⟨1, 1, ⟨1, 1⟩⟩], ⟨1, 3⟩⟩) := by
    exact Eq.trans (Parser.addToken_of_reduces _ hless two_ne_zero hreduces)
      (Parser.addToken_of_lookup_shift _ hless two_ne_zero hshift)
  have htwo : (⟨1, [⟨3, 0, ⟨1, 3⟩⟩, ⟨1, 1, ⟨1, 1⟩⟩], ⟨1, 3⟩⟩ : Parser Nat Nat).addToken machine
      ⟨"n", 2, ⟨1, 5⟩⟩ = some (.ok (), taken) :=
    Parser.addToken_of_lookup_shift _ hnumber one_ne_zero hsecond
  rw [Parser.push_cons_of_ok hone, Parser.push_cons_of_ok hsign, Parser.push_cons_of_ok htwo,
    Parser.push_nil]

theorem reduces_taken : machine.Reduces (.token 2 0) ⟨1, 7⟩ (taken.stack, taken.context)
    (tied.stack, tied.context) :=
  reduces (k := 1) lookups.2.1 rules.2 goTos.2 rfl rfl

/-- The tie is passed over, and `1 < 2` has become a comparison when the sign is looked at again. -/
theorem addToken_tied :
    table.grammar.Ties tied.stack.state 2 ∧ table.grammar.fallback? 2 = some 3 ∧
      tied.addToken machine ⟨"<", 0, ⟨1, 7⟩⟩ =
        (⟨3, [⟨1, 3, ⟨1, 1⟩⟩], ⟨1, 5⟩⟩ : Parser Nat Nat).addToken machine ⟨"<", 0, ⟨1, 7⟩⟩ := by
  obtain ⟨-, hless, hfallback⟩ := terminals
  obtain ⟨-, -, -, -, -, hmove⟩ := lookups
  have hreduce : (machine.reduce tied.stack 1 ⟨1, 7⟩).run.run tied.context =
      (.ok [⟨1, 3, ⟨1, 1⟩⟩], 3) :=
    reduce_run (k := 3) rules.1 goTos.1 rfl
  obtain ⟨-, hlends⟩ := Parser.addToken_of_ties (m := machine) (t := ⟨"<", 0, ⟨1, 7⟩⟩) isBuilt tied
    hless two_ne_zero ties
  obtain ⟨-, hreduced, -⟩ := hlends 3 hfallback
  refine ⟨ties, hfallback, (hreduced 1 hmove).trans ?_⟩
  rw [hreduce]
  rfl

/-- The second sign of `1 < 2 < 3` is taken, although the parser that takes it ties on it. -/
theorem takes_second_sign :
    ∃ p p' p'' : Parser Nat Nat,
      ({ context := 0 } : Parser Nat Nat).push machine
        [⟨"n", 1, ⟨1, 1⟩⟩, ⟨"<", 0, ⟨1, 3⟩⟩, ⟨"n", 2, ⟨1, 5⟩⟩] = some (.ok (), p) ∧
      machine.Reduces (.token 2 0) ⟨1, 7⟩ (p.stack, p.context) (p'.stack, p'.context) ∧
      table.grammar.Ties p'.stack.state 2 ∧
      p.addToken machine ⟨"<", 0, ⟨1, 7⟩⟩ = some (.ok (), p'') := by
  obtain ⟨-, hless, -⟩ := terminals
  obtain ⟨-, -, hshift, -, hjoin, -⟩ := lookups
  have hadd : taken.addToken machine ⟨"<", 0, ⟨1, 7⟩⟩ =
      some (.ok (), ⟨3, [⟨3, 0, ⟨1, 7⟩⟩, ⟨1, 3, ⟨1, 1⟩⟩], ⟨1, 7⟩⟩) := by
    have hreduces : machine.Reduces (.token 2 0) ⟨1, 7⟩ (tied.stack, tied.context)
        ([⟨1, 3, ⟨1, 1⟩⟩], 3) := reduces (k := 3) hjoin rules.1 goTos.1 rfl rfl
    calc taken.addToken machine ⟨"<", 0, ⟨1, 7⟩⟩
        = tied.addToken machine ⟨"<", 0, ⟨1, 7⟩⟩ :=
          Parser.addToken_of_reduces (x := (tied.stack, tied.context)) _ hless two_ne_zero
            reduces_taken
      _ = (⟨3, [⟨1, 3, ⟨1, 1⟩⟩], ⟨1, 5⟩⟩ : Parser Nat Nat).addToken machine ⟨"<", 0, ⟨1, 7⟩⟩ :=
          Parser.addToken_of_reduces (x := ([⟨1, 3, ⟨1, 1⟩⟩], 3)) _ hless two_ne_zero hreduces
      _ = some (.ok (), ⟨3, [⟨3, 0, ⟨1, 7⟩⟩, ⟨1, 3, ⟨1, 1⟩⟩], ⟨1, 7⟩⟩) :=
          Parser.addToken_of_lookup_shift _ hless two_ne_zero hshift
  exact ⟨taken, tied, _, push_taken, reduces_taken, ties, hadd⟩

end Chains
end Lalr
