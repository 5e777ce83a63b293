import Lalr.Proofs.Parser.Calls

/-!
Two machines over one table, of which the first has values and contexts that carry more than those
of the second. Where the actions agree on what the second has, all calls do, so that what is to be
known of a run can be noted down along with it.
-/

namespace Lalr

variable {ν σ σ' V V' : Type}

open Relation (ReflTransGen)

/-! Values exchanged for others. -/

def Frame.map (f : V' → V) (frame : Frame V') : Frame V :=
  ⟨frame.state, f frame.value, frame.location⟩

def Stack.mapValues (f : V' → V) (stack : Stack V') : Stack V := List.map (Frame.map f) stack

def Token.map (f : V' → V) (t : Token V') : Token V := ⟨t.terminal, f t.value, t.location⟩

def Lookahead.map (f : V' → V) : Lookahead V' → Lookahead V
  | .token a v => .token a (f v)
  | .endOfInput => .endOfInput

def Ending.map (f : V' → V) : Ending V' → Ending V
  | .shifted stack => .shifted (stack.mapValues f)
  | .accepted v stack => .accepted (f v) (stack.mapValues f)

def Step.map (f : V' → V) : Step V' → Step V
  | .reduced stack => .reduced (stack.mapValues f)
  | .ended ending => .ended (ending.map f)

def Call.map (f : V' → V) : Call V' → Call V
  | .addToken t => .addToken (t.map f)
  | .finish here => .finish here
  | .parse ts => .parse (ts.map (Token.map f))
  | .reset => .reset

def Parser.map (g : σ' → σ) (f : V' → V) (p : Parser σ' V') : Parser σ V :=
  ⟨g p.context, p.stack.mapValues f, p.location⟩

@[simp] theorem Stack.state_mapValues (f : V' → V) (stack : Stack V') :
    (stack.mapValues f).state = stack.state := by cases stack <;> rfl

@[simp] theorem Lookahead.terminal_map (f : V' → V) (ahead : Lookahead V') :
    (ahead.map f).terminal = ahead.terminal := by cases ahead <;> rfl

@[simp] theorem Ending.stack_map (f : V' → V) (ending : Ending V') :
    (ending.map f).stack = ending.stack.mapValues f := by cases ending <;> rfl

/-! Where nothing is exchanged. -/

@[simp] theorem Frame.map_id : Frame.map (id : V → V) = id := rfl

@[simp] theorem Stack.mapValues_id : Stack.mapValues (id : V → V) = id := by
  funext stack
  simp [mapValues]

@[simp] theorem Token.map_id : Token.map (id : V → V) = id := rfl

@[simp] theorem Lookahead.map_id : Lookahead.map (id : V → V) = id := by
  funext ahead
  cases ahead <;> rfl

@[simp] theorem Call.map_id : Call.map (id : V → V) = id := by
  funext call
  cases call <;> simp [map]

/-- What the first machine does with values and contexts is what the second does with the parts
that `f` and `g` leave of them. -/
structure Machine.Mirrors (m' : Machine ν σ' V') (m : Machine ν σ V) (g : σ' → σ) (f : V' → V) :
    Prop where
  table : m'.table = m.table
  act (r : Nat) (values : List V') (c : σ') : (m.act r (values.map f)).run.run (g c) =
    Prod.map (Except.map f) g ((m'.act r values).run.run c)

namespace Machine.Mirrors

variable {m' : Machine ν σ' V'} {m : Machine ν σ V} {g : σ' → σ} {f : V' → V}

theorem perform (h : m'.Mirrors m g f) (r : Nat) (values : List V') (here : Location) (c : σ') :
    (m.perform r (values.map f) here).run.run (g c) =
      Prod.map (Except.map f) g ((m'.perform r values here).run.run c) := by
  rw [perform_run, perform_run, h.act, h.table]
  rcases (m'.act r values).run.run c with ⟨_ | _, _⟩ <;> rfl

theorem reduce (h : m'.Mirrors m g f) (stack : Stack V') (r : Nat) (here : Location) (c : σ') :
    (m.reduce (stack.mapValues f) r here).run.run (g c) =
      Prod.map (Except.map (Stack.mapValues f)) g ((m'.reduce stack r here).run.run c) := by
  unfold Machine.reduce
  rw [h.table]
  cases m.table.production? r with
  | none =>
    rw [Stack.state_mapValues]
    rfl
  | some p =>
    have htake : (stack.mapValues f).take p.rule.rhs.length =
        (stack.take p.rule.rhs.length).map (Frame.map f) := List.map_take.symm
    have hdrop : (stack.mapValues f).drop p.rule.rhs.length =
        Stack.mapValues f (stack.drop p.rule.rhs.length) := List.map_drop.symm
    have hvalues : (((stack.take p.rule.rhs.length).map (Frame.map f)).reverse).map Frame.value =
        ((stack.take p.rule.rhs.length).reverse.map Frame.value).map f := by
      simp [Frame.map, Function.comp_def]
    have hplace : (((stack.take p.rule.rhs.length).map (Frame.map f)).getLast?).map Frame.location =
        ((stack.take p.rule.rhs.length).getLast?).map Frame.location := by
      rw [List.getLast?_map, Option.map_map]
      rfl
    simp only [htake, hdrop, hvalues, hplace, Parsing.run_bind, h.perform, Stack.state_mapValues]
    rcases (m'.perform r ((stack.take p.rule.rhs.length).reverse.map Frame.value)
      (((stack.take p.rule.rhs.length).getLast?.map Frame.location).getD here)).run.run c with
      ⟨_ | v, c'⟩
    · rfl
    · simp only [Prod.map, Except.map]
      cases m.table.goto? (Stack.state (stack.drop p.rule.rhs.length)) p.rule.lhs <;> rfl

theorem step (h : m'.Mirrors m g f) (stack : Stack V') (ahead : Lookahead V') (here : Location)
    (c : σ') :
    (m.step (stack.mapValues f) (ahead.map f) here).run.run (g c) =
      Prod.map (Except.map (Step.map f)) g ((m'.step stack ahead here).run.run c) := by
  unfold Machine.step
  rw [h.table, Stack.state_mapValues, Lookahead.terminal_map]
  cases m.table.lookup stack.state ahead.terminal with
  | shift q => cases ahead <;> rfl
  | reduce r =>
    simp only [map_eq_pure_bind, Parsing.run_bind, h.reduce]
    rcases (m'.reduce stack r here).run.run c with ⟨_ | _, _⟩ <;> rfl
  | accept => cases stack <;> rfl
  | error => rfl

theorem reduces (h : m'.Mirrors m g f) {ahead : Lookahead V'} {here : Location}
    {x y : Stack V' × σ'} (hxy : m'.Reduces ahead here x y) :
    m.Reduces (ahead.map f) here (Prod.map (Stack.mapValues f) g x)
      (Prod.map (Stack.mapValues f) g y) :=
  (h.step x.1 ahead here x.2).trans (congrArg _ hxy)

/-- A move of the second machine is one that the first makes too. -/
theorem exists_reduces (h : m'.Mirrors m g f) {ahead : Lookahead V'} {here : Location}
    {x : Stack V' × σ'} {z : Stack V × σ}
    (hxz : m.Reduces (ahead.map f) here (Prod.map (Stack.mapValues f) g x) z) :
    ∃ y, m'.Reduces ahead here x y ∧ Prod.map (Stack.mapValues f) g y = z := by
  have hstep := (h.step x.1 ahead here x.2).symm.trans hxz
  rcases heq : (m'.step x.1 ahead here).run.run x.2 with ⟨_ | ⟨stack | ending⟩, c⟩
  · rw [heq] at hstep
    cases hstep
  · rw [heq] at hstep
    obtain ⟨hok, hc⟩ := Prod.mk.inj hstep
    exact ⟨(stack, c), heq, Prod.ext (Step.reduced.inj (Except.ok.inj hok)) hc⟩
  · rw [heq] at hstep
    cases hstep

theorem exists_reflTransGen (h : m'.Mirrors m g f) {ahead : Lookahead V'} {here : Location}
    {x : Stack V' × σ'} {z : Stack V × σ}
    (hxz : ReflTransGen (m.Reduces (ahead.map f) here) (Prod.map (Stack.mapValues f) g x) z) :
    ∃ y, ReflTransGen (m'.Reduces ahead here) x y ∧ Prod.map (Stack.mapValues f) g y = z := by
  induction hxz with
  | refl => exact ⟨x, .refl, rfl⟩
  | tail _ hstep ih =>
    obtain ⟨y, hy, rfl⟩ := ih
    obtain ⟨z, hz, rfl⟩ := h.exists_reduces hstep
    exact ⟨z, hy.tail hz, rfl⟩

/-- Neither comes to an end where the other does not. -/
theorem advance (h : m'.Mirrors m g f) (ahead : Lookahead V') (here : Location)
    (stack : Stack V') (c : σ') :
    m.advance (ahead.map f) here (stack.mapValues f) (g c) =
      (m'.advance ahead here stack c).map (Prod.map (Except.map (Ending.map f)) g) := by
  cases hadvance : m'.advance ahead here stack c with
  | some result =>
    refine Turn.advance.partial_correctness m'
      (fun turn c result => m.advance (turn.ahead.map f) turn.here (turn.stack.mapValues f) (g c) =
        some (Prod.map (Except.map (Ending.map f)) g result))
      (fun advance ih turn c result hstep => ?_) ⟨stack, ahead, here⟩ c result hadvance
    rw [advance_eq, h.step]
    rcases heq : (m'.step turn.stack turn.ahead turn.here).run.run c with ⟨_ | ⟨_ | _⟩, c'⟩
    · rw [heq] at hstep
      cases hstep
      rfl
    · rw [heq] at hstep
      exact ih _ c' result hstep
    · rw [heq] at hstep
      cases hstep
      rfl
  | none =>
    rw [Option.map_none, Option.eq_none_iff_forall_ne_some]
    intro result hresult
    refine Turn.advance.partial_correctness m
      (fun turn c _ => ∀ stack ahead c', turn.stack = Stack.mapValues f stack →
        turn.ahead = ahead.map f → c = g c' → m'.advance ahead turn.here stack c' ≠ none)
      (fun advance ih turn c result hstep stack ahead c' hstack hahead hc => ?_)
      ⟨stack.mapValues f, ahead.map f, here⟩ (g c) result hresult stack ahead c rfl rfl rfl hadvance
    rw [hstack, hahead, hc, h.step] at hstep
    rw [advance_eq]
    rcases heq : (m'.step stack ahead turn.here).run.run c' with ⟨_ | ⟨stack₁ | _⟩, c''⟩
    · exact Option.some_ne_none _
    · rw [heq] at hstep
      exact ih ⟨stack₁.mapValues f, ahead.map f, turn.here⟩ (g c'') result hstep stack₁ ahead c''
        rfl rfl rfl
    · exact Option.some_ne_none _

/-! The calls of a parser. -/

theorem addToken (h : m'.Mirrors m g f) (p : Parser σ' V') (t : Token V') :
    (p.map g f).addToken m (t.map f) =
      (p.addToken m' t).map (Prod.map id (Parser.map g f)) := by
  have hfeed : ∀ a, (p.map g f).feed m (.token a (f t.value)) t.location =
      (p.feed m' (.token a t.value) t.location).map (Prod.map (Except.map (Ending.map f)) g) :=
    fun a => h.advance (.token a t.value) t.location p.stack p.context
  unfold Parser.addToken
  rw [h.table]
  simp only [Token.map]
  split
  · rfl
  · rfl
  · next a _ _ =>
    rw [hfeed a]
    rcases p.feed m' (.token a t.value) t.location with _ | ⟨_ | _, _⟩
    · rfl
    · rfl
    · simp [Except.map, Parser.map]

theorem finish (h : m'.Mirrors m g f) (p : Parser σ' V') (here : Location) :
    (p.map g f).finish m here =
      (p.finish m' here).map (Prod.map (Except.map f) (Parser.map g f)) := by
  have hfeed : (p.map g f).feed m .endOfInput here =
      (p.feed m' .endOfInput here).map (Prod.map (Except.map (Ending.map f)) g) :=
    h.advance .endOfInput here p.stack p.context
  unfold Parser.finish
  rw [hfeed]
  rcases p.feed m' .endOfInput here with _ | ⟨_ | _ | _, _⟩ <;> rfl

theorem addTokens (h : m'.Mirrors m g f) (p : Parser σ' V') (ts : List (Token V')) :
    (p.map g f).addTokens m (ts.map (Token.map f)) =
      (p.addTokens m' ts).map (Prod.map (Except.map f) (Parser.map g f)) := by
  induction ts generalizing p with
  | nil => exact h.finish p p.location
  | cons t ts ih =>
    have hname : (t.map f).terminal = t.terminal := rfl
    simp only [List.map_cons, Parser.addTokens, hname]
    by_cases hend : t.terminal = Grammar.endName
    · rw [if_pos hend, if_pos hend]
      exact h.finish p t.location
    · rw [if_neg hend, if_neg hend, h.addToken]
      rcases p.addToken m' t with _ | ⟨_ | _, q⟩
      · rfl
      · rfl
      · exact ih q

theorem call (h : m'.Mirrors m g f) (p : Parser σ' V') (call : Call V') :
    (p.map g f).call m (call.map f) =
      (p.call m' call).map (Prod.map (Except.map (Option.map f)) (Parser.map g f)) := by
  have hvalue : ∀ result : Except ParseError V', Except.map some (result.map f) =
      Except.map (Option.map f) (result.map some) := by rintro (_ | _) <;> rfl
  cases call with
  | addToken t =>
    simp only [Parser.call, Call.map, h.addToken, Option.map_map]
    refine congrArg (Option.map · _) (funext fun answer => ?_)
    rcases answer with ⟨_ | _, _⟩ <;> rfl
  | finish here =>
    simp only [Parser.call, Call.map, h.finish, Option.map_map]
    exact congrArg (Option.map · _) (funext fun answer => Prod.ext (hvalue answer.1) rfl)
  | parse ts =>
    have hparse := h.addTokens p.reset ts
    simp only [Parser.call, Call.map, Parser.parse, Option.map_map]
    rw [show (p.map g f).reset = p.reset.map g f from rfl, hparse, Option.map_map]
    exact congrArg (Option.map · _) (funext fun answer => Prod.ext (hvalue answer.1) rfl)
  | reset => rfl

/-- Calls on the second machine are answered with what is left of the answers of the first, and have
no answers where these have none. -/
theorem calls (h : m'.Mirrors m g f) (p : Parser σ' V') (calls : List (Call V')) :
    (p.map g f).calls m (calls.map (Call.map f)) =
      (p.calls m' calls).map
        (Prod.map (List.map (Except.map (Option.map f))) (Parser.map g f)) := by
  induction calls generalizing p with
  | nil => rfl
  | cons call calls ih =>
    simp only [List.map_cons, Parser.calls, h.call]
    rcases p.call m' call with _ | ⟨answer, q⟩
    · rfl
    · simp only [Option.map_some, Option.bind_eq_bind, Option.bind_some, Prod.map, ih]
      rcases q.calls m' calls with _ | ⟨answers, p'⟩ <;> rfl

end Machine.Mirrors
end Lalr
