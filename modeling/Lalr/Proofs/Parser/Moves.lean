import Lalr.Proofs.Parser.Calls

/-!
What the moves for a lookahead come to: some reductions, and a last move that shifts the lookahead,
accepts the input or fails.
-/

namespace Lalr

variable {ν σ V : Type}

open Relation (ReflTransGen)

/-- Only the end of input is accepted, and it is for its own cell. -/
theorem Table.IsBuilt.of_lookup_accept {t : Table ν} (h : t.IsBuilt) {q a : Nat}
    (hlookup : t.lookup q a = .accept) : a = 0 ∧ t.move q 0 = .accept := by
  obtain ⟨u, hu, hmove⟩ := t.exists_move_of_lookup q a
  rw [hlookup] at hmove
  obtain ⟨rfl, -⟩ := h.of_move_accept hmove
  rcases hu with rfl | hu
  · exact ⟨rfl, hmove⟩
  · exact absurd (h.wellFormed.fallback hu).1 (Nat.lt_irrefl 0)

namespace Machine

variable {m : Machine ν σ V} {ahead : Lookahead V} {here : Location} {stack : Stack V} {c c' : σ}
  {x y : Stack V × σ} {result : Except ParseError (Ending V)}

/-- The move is the last one for the lookahead. -/
def Ends (m : Machine ν σ V) (ahead : Lookahead V) (here : Location) (x : Stack V × σ)
    (result : Except ParseError (Ending V)) (c : σ) : Prop :=
  (m.step x.1 ahead here).run.run x.2 = (result.map .ended, c)

theorem advance_of_ends (h : m.Ends ahead here x result c) :
    m.advance ahead here x.1 x.2 = some (result, c) := by
  rw [advance_eq, h]
  cases result <;> rfl

/-- To take a lookahead is to reduce for a while and then to make a last move. -/
theorem advance_eq_some_iff : m.advance ahead here stack c = some (result, c') ↔
    ∃ x, ReflTransGen (m.Reduces ahead here) (stack, c) x ∧ m.Ends ahead here x result c' := by
  constructor
  · intro h
    refine Turn.advance.partial_correctness m
      (fun turn c result => ∃ x, ReflTransGen (m.Reduces turn.ahead turn.here) (turn.stack, c) x ∧
        m.Ends turn.ahead turn.here x result.1 result.2)
      (fun advance ih turn c result hstep => ?_) ⟨stack, ahead, here⟩ c (result, c') h
    rcases heq : (m.step turn.stack turn.ahead turn.here).run.run c with ⟨_ | ⟨stack' | _⟩, c''⟩
    · rw [heq] at hstep
      cases hstep
      exact ⟨_, .refl, heq⟩
    · rw [heq] at hstep
      obtain ⟨x, hx, hends⟩ := ih _ c'' result hstep
      have hreduces : m.Reduces turn.ahead turn.here (turn.stack, c) (stack', c'') := heq
      exact ⟨x, .head hreduces hx, hends⟩
    · rw [heq] at hstep
      cases hstep
      exact ⟨_, .refl, heq⟩
  · rintro ⟨x, hx, hends⟩
    generalize hy : (stack, c) = y at hx
    induction hx using ReflTransGen.head_induction_on generalizing stack c with
    | refl =>
      cases hy
      exact advance_of_ends hends
    | @head y z hstep _ ih =>
      cases hy
      rw [advance_eq, show (m.step stack ahead here).run.run c = _ from hstep]
      exact ih rfl

/-- The action that a reduction would run, and where. -/
structure Attempts (m : Machine ν σ V) (ahead : Lookahead V) (here : Location) (stack : Stack V)
    (r : Nat) (p : Production ν) (place : Location) : Prop where
  lookup : m.table.lookup stack.state ahead.terminal = .reduce r
  production : m.table.production? r = some p
  place : place = ((stack.take p.rule.rhs.length).getLast?.map Frame.location).getD here

/-- The ways a move can go. -/
inductive Stepped (m : Machine ν σ V) (ahead : Lookahead V) (here : Location) (x : Stack V × σ) :
    Except ParseError (Step V) → σ → Prop
  | shifted {q a v} (hlookup : m.table.lookup x.1.state ahead.terminal = .shift q)
      (hahead : ahead = .token a v) :
      Stepped m ahead here x (.ok (.ended (.shifted (⟨q, v, here⟩ :: x.1)))) x.2
  | accepted {frame below} (hlookup : m.table.lookup x.1.state ahead.terminal = .accept)
      (hstack : x.1 = frame :: below) :
      Stepped m ahead here x (.ok (.ended (.accepted frame.value below))) x.2
  | reduced {r p place v q c} (hr : m.Attempts ahead here x.1 r p place)
      (hact : (m.act r ((x.1.take p.rule.rhs.length).reverse.map Frame.value)).run.run x.2 =
        (.ok v, c))
      (hq : m.table.goto? (Stack.state (x.1.drop p.rule.rhs.length)) p.rule.lhs = some q) :
      Stepped m ahead here x (.ok (.reduced (⟨q, v, place⟩ :: x.1.drop p.rule.rhs.length))) c
  | failed {r p place cause c} (hr : m.Attempts ahead here x.1 r p place)
      (hact : (m.act r ((x.1.take p.rule.rhs.length).reverse.map Frame.value)).run.run x.2 =
        (.error cause, c)) :
      Stepped m ahead here x (.error (.action p.text place cause)) c
  | unexpected (hlookup : m.table.lookup x.1.state ahead.terminal = .error) :
      Stepped m ahead here x (.error (.unexpected here
        (m.table.grammar.terminalName ahead.terminal) (m.table.expectedNames x.1.state))) x.2
  | broken {e} (c : σ) (he : e.IsInternal) : Stepped m ahead here x (.error e) c

theorem reduce_of_production (m : Machine ν σ V) {r : Nat} {p : Production ν}
    (hp : m.table.production? r = some p) (stack : Stack V) (here : Location) :
    m.reduce stack r here = (do
      let place := ((stack.take p.rule.rhs.length).getLast?.map Frame.location).getD here
      let value ← m.perform r ((stack.take p.rule.rhs.length).reverse.map Frame.value) place
      match m.table.goto? (Stack.state (stack.drop p.rule.rhs.length)) p.rule.lhs with
      | some q => return ⟨q, value, place⟩ :: stack.drop p.rule.rhs.length
      | none => throw (.missingGoto (Stack.state (stack.drop p.rule.rhs.length)) p.lhs)) := by
  unfold reduce
  split
  · next hnone => exact absurd (hp.symm.trans hnone) (Option.some_ne_none p)
  · next p' hp' =>
    obtain rfl : p = p' := Option.some.inj (hp.symm.trans hp')
    rfl

theorem stepped (m : Machine ν σ V) (ahead : Lookahead V) (here : Location) (x : Stack V × σ) :
    m.Stepped ahead here x ((m.step x.1 ahead here).run.run x.2).1
      ((m.step x.1 ahead here).run.run x.2).2 := by
  unfold step
  split
  · next q hlookup =>
    cases ahead with
    | token a v => exact .shifted hlookup rfl
    | endOfInput => exact .broken _ trivial
  · next r hlookup =>
    rw [map_eq_pure_bind, Parsing.run_bind]
    cases hp : m.table.production? r with
    | none =>
      simp only [reduce, hp]
      exact .broken _ trivial
    | some p =>
      have hattempts : m.Attempts ahead here x.1 r p _ := ⟨hlookup, hp, rfl⟩
      rw [m.reduce_of_production hp, Parsing.run_bind, perform_run, Table.ruleText, hp]
      rcases hact : (m.act r ((x.1.take p.rule.rhs.length).reverse.map Frame.value)).run.run x.2
        with ⟨cause | v, c⟩
      · exact .failed hattempts hact
      · dsimp only
        cases hq : m.table.goto? (Stack.state (x.1.drop p.rule.rhs.length)) p.rule.lhs with
        | some q => exact .reduced hattempts hact hq
        | none => exact .broken _ trivial
  · next hlookup =>
    split
    · next frame below hstack => exact .accepted hlookup hstack
    · exact .broken _ trivial
  · next hlookup => exact .unexpected hlookup

theorem Reduces.stepped (h : m.Reduces ahead here x y) :
    m.Stepped ahead here x (.ok (.reduced y.1)) y.2 := by
  have hstepped := m.stepped ahead here x
  rwa [show (m.step x.1 ahead here).run.run x.2 = _ from h] at hstepped

theorem Ends.stepped (h : m.Ends ahead here x result c) :
    m.Stepped ahead here x (result.map .ended) c := by
  have hstepped := m.stepped ahead here x
  rwa [show (m.step x.1 ahead here).run.run x.2 = _ from h] at hstepped

end Machine

namespace Parser

variable {m : Machine ν σ V} {p p' : Parser σ V}

/-- A token that is taken was shifted, and not for the end of input. -/
theorem addToken_shifts (hm : m.table.IsBuilt) {t : Token V}
    (hadd : p.addToken m t = some (.ok (), p')) : ∃ a x q,
      m.table.grammar.terminal? t.terminal = some a ∧
      ReflTransGen (m.Reduces (.token a t.value) t.location) (p.stack, p.context) x ∧
      m.table.lookup x.1.state a = .shift q ∧ p'.stack = ⟨q, t.value, t.location⟩ :: x.1 := by
  cases added hadd with
  | @taken a ending _ ha hne hfeed =>
    obtain ⟨⟨stack, c'⟩, hx, hends⟩ := Machine.advance_eq_some_iff.1 hfeed
    cases ending with
    | shifted stack' =>
      cases hends.stepped with
      | shifted hlookup hahead =>
        cases hahead
        exact ⟨a, _, _, ha, hx, hlookup, rfl⟩
    | accepted v stack' =>
      cases hends.stepped with
      | accepted hlookup _ => exact absurd (hm.of_lookup_accept hlookup).1 hne

/-- The value of the input is on top of the stack where the end is accepted. -/
theorem finish_accepts (hm : m.table.IsBuilt) {here : Location} {v : V}
    (hfinish : p.finish m here = some (.ok v, p')) : ∃ frame below,
      ReflTransGen (m.Reduces .endOfInput here) (p.stack, p.context) (frame :: below, p'.context) ∧
      m.table.move frame.state 0 = .accept ∧ frame.value = v := by
  cases finished hfinish with
  | @accepted _ below _ hfeed =>
    obtain ⟨⟨stack, c'⟩, hx, hends⟩ := Machine.advance_eq_some_iff.1 hfeed
    cases hends.stepped with
    | @accepted frame _ hlookup hstack =>
      obtain rfl : stack = frame :: below := hstack
      exact ⟨frame, below, hx, (hm.of_lookup_accept hlookup).2, rfl⟩

end Parser
end Lalr
