import Lalr.Proofs.Parser.Prefix

/-!
Any number of calls on one parser, in any order. The stack is a path of the automaton at all times,
so that the right-hand side of a rule is there when the rule is reduced, and no call fails for a
reason of the parser's own. Where no cell has more than one candidate and there are no fallbacks,
every call comes to an end.
-/

namespace Lalr

variable {ν σ V : Type}

open Relation (ReflTransGen)

inductive Call (V : Type)
  | addToken (token : Token V)
  | finish (here : Location)
  | parse (tokens : List (Token V))
  | reset

namespace Parser

/-- The value, where the call is for one, and the parser as the call leaves it. -/
def call (m : Machine ν σ V) (p : Parser σ V) :
    Call V → Option (Except ParseError (Option V) × Parser σ V)
  | .addToken t => (p.addToken m t).map (Prod.map (Except.map fun _ => none) id)
  | .finish here => (p.finish m here).map (Prod.map (Except.map some) id)
  | .parse ts => (p.parse m ts).map (Prod.map (Except.map some) id)
  | .reset => some (.ok none, p.reset)

/-- Makes the calls one after another, whatever the answers are. -/
def calls (m : Machine ν σ V) (p : Parser σ V) :
    List (Call V) → Option (List (Except ParseError (Option V)) × Parser σ V)
  | [] => some ([], p)
  | call :: rest => do
    let (answer, p) ← p.call m call
    let (answers, p) ← p.calls m rest
    return (answer :: answers, p)

end Parser

/-- Neither the tokens nor the actions are the reason. -/
def ParseError.IsInternal : ParseError → Prop
  | .missingGoto _ _ | .noValue => True
  | .unexpected _ _ _ | .unknownTerminal _ _ | .action _ _ _ => False

/-- From the state, each symbol leads to the state of the next frame. -/
def Table.Spells (t : Table ν) : Nat → List (Frame V) → List Sym → Prop
  | _, [], [] => True
  | q, f :: fs, x :: xs => t.cfg.goTo q x = some f.state ∧ t.Spells f.state fs xs
  | _, _, _ => False

/-- On top of the stack are frames for the right-hand side of the rule. Their values, from left to
right, are what the action is run on, and its value takes their place. -/
def Machine.ReducesBy (m : Machine ν σ V) (stack : Stack V) (r : Nat) : Prop :=
  ∃ (p : Production ν) (frames below : Stack V) (q : Nat), m.table.production? r = some p ∧
    stack = frames ++ below ∧ frames.length = p.rule.rhs.length ∧
    m.table.Spells below.state frames.reverse p.rule.rhs ∧
    m.table.goto? below.state p.rule.lhs = some q ∧
    ∀ here, m.reduce stack r here = do
      let place := (frames.getLast?.map Frame.location).getD here
      let value ← m.perform r (frames.reverse.map Frame.value) place
      return ⟨q, value, place⟩ :: below

/-- A move after which the same lookahead is still to be taken. -/
def Machine.Reduces (m : Machine ν σ V) (ahead : Lookahead V) (here : Location) :
    Stack V × σ → Stack V × σ → Prop := fun x y =>
  (m.step x.1 ahead here).run.run x.2 = (.ok (.reduced y.1), y.2)

namespace Table.Spells

variable {t : Table ν} {q : Nat} {fs gs : List (Frame V)} {xs ys : List Sym}

theorem append (h : t.Spells q fs xs)
    (h' : t.Spells ((fs.getLast?.map Frame.state).getD q) gs ys) :
    t.Spells q (fs ++ gs) (xs ++ ys) := by
  induction fs generalizing q xs with
  | nil =>
    cases xs with
    | nil => exact h'
    | cons x xs => cases h
  | cons f fs ih =>
    cases xs with
    | nil => cases h
    | cons x xs =>
      refine ⟨h.1, ih h.2 ?_⟩
      rw [List.getLast?_cons] at h'
      cases hlast : fs.getLast? with
      | none => simpa [hlast] using h'
      | some g => simpa [hlast] using h'

/-- Frames for symbols at the end are above frames for the symbols before them. -/
theorem split (h : t.Spells q fs (xs ++ ys)) :
    ∃ gs hs, fs = gs ++ hs ∧ t.Spells q gs xs ∧
      t.Spells ((gs.getLast?.map Frame.state).getD q) hs ys := by
  induction xs generalizing q fs with
  | nil => exact ⟨[], fs, rfl, trivial, h⟩
  | cons x xs ih =>
    cases fs with
    | nil => cases h
    | cons f fs =>
      obtain ⟨gs, hs, rfl, hgs, hhs⟩ := ih h.2
      refine ⟨f :: gs, hs, rfl, ⟨h.1, hgs⟩, ?_⟩
      rw [List.getLast?_cons]
      cases hlast : gs.getLast? with
      | none => simpa [hlast] using hhs
      | some g => simpa [hlast] using hhs

theorem length_eq (h : t.Spells q fs xs) : fs.length = xs.length := by
  induction fs generalizing q xs with
  | nil =>
    cases xs with
    | nil => rfl
    | cons x xs => cases h
  | cons f fs ih =>
    cases xs with
    | nil => cases h
    | cons x xs => simpa using ih h.2

end Table.Spells

theorem Stack.state_eq (stack : Stack V) :
    ((stack.reverse.getLast?).map Frame.state).getD 0 = stack.state := by
  rw [List.getLast?_reverse]
  cases stack <;> rfl

theorem Stack.Grown.spells {m : Machine ν σ V} {first c : σ} {here : Location} {stack : Stack V}
    {γ : List Sym} {f : Forest V} (h : Stack.Grown m first here stack γ f c) :
    m.table.Spells 0 stack.reverse γ := by
  induction h with
  | nil => exact trivial
  | @push _ stack _ _ _ _ frame x _ h hx _ _ _ ih =>
    rw [List.reverse_cons]
    refine ih.append ?_
    rw [Stack.state_eq]
    exact ⟨hx, trivial⟩

namespace Machine

variable {m : Machine ν σ V} {first c c' : σ} {ahead : Lookahead V} {here : Location}
  {stack stack' : Stack V} {γ : List Sym} {f : Forest V}

theorem reducesBy_of_lookup (hm : m.table.IsBuilt) (h : Stack.Grown m first here stack γ f c)
    {a r : Nat} (hr : m.table.lookup stack.state a = .reduce r) : m.ReducesBy stack r := by
  obtain ⟨u, -, hmove⟩ := m.table.exists_move_of_lookup stack.state a
  obtain ⟨hne, hlt, hi, -⟩ := hm.of_move_reduce (hmove.trans hr)
  have hsize := hm.wellFormed.cfg.size_pos
  obtain ⟨p, hp, hprule⟩ := Table.IsBuilt.production?_eq_some hlt
  have hrhs := Cfg.rhs_eq hprule
  obtain ⟨γ', i, n, rfl, hwaits, hn, hrule⟩ :=
    (Cfg.itemAfter_of_mem hsize h.path hi).of_finished hne
  obtain ⟨gs, hs, hstack, hgs, hhs⟩ := h.spells.split
  have hlength := hhs.length_eq
  obtain ⟨f', trees, c₁, -, hbelow, -⟩ := h.split
  -- The frames of the right-hand side are those that reducing takes off the stack.
  obtain rfl : stack = hs.reverse ++ gs.reverse := by
    rw [← List.reverse_append, ← hstack, List.reverse_reverse]
  have hlength' : hs.reverse.length = p.rule.rhs.length := by
    rw [List.length_reverse, hlength, hrhs]
  have hstate : (gs.getLast?.map Frame.state).getD 0 = Stack.state gs.reverse := by
    rw [← Stack.state_eq, List.reverse_reverse]
  have hdrop : (hs.reverse ++ gs.reverse).drop p.rule.rhs.length = gs.reverse := by
    rw [← hlength', List.drop_left]
  have htake : (hs.reverse ++ gs.reverse).take p.rule.rhs.length = hs.reverse := by
    rw [← hlength', List.take_left]
  rw [hrhs, hdrop] at hbelow
  obtain ⟨q, hq⟩ := Cfg.exists_goTo (hwaits.mem_items hsize hbelow.path) hn
  obtain ⟨rule, hrule', hlhs⟩ := Cfg.mem_rulesOf_iff.1 hrule
  rw [hprule, Option.some.injEq] at hrule'
  subst hrule' hlhs
  have hgoto : m.table.goto? (Stack.state gs.reverse) p.rule.lhs = some q := by
    rw [hm.goto?_eq, hq]
  refine ⟨p, hs.reverse, gs.reverse, q, hp, rfl, hlength', ?_, hgoto, fun here' => ?_⟩
  · rw [List.reverse_reverse, ← hstate, ← hrhs]
    exact hhs
  · simp only [reduce, hp]
    rw [hdrop, htake]
    simp only [hgoto]

/-- What a lookahead leads to when nothing is wrong with the table. -/
inductive Regular : Except ParseError (Ending V) → Prop
  | shifted (stack : Stack V) : Regular (.ok (.shifted stack))
  | accepted (value : V) (stack : Stack V) : Regular (.ok (.accepted value stack))
  | unexpected (here : Location) (found : String) (expected : List String) :
      Regular (.error (.unexpected here found expected))
  | failed (production : String) (place : Location) (cause : ActionError) :
      Regular (.error (.action production place cause))

theorem Advanced.regular {tokens : List (Nat × Token V)} {result : Except ParseError (Ending V)}
    (h : m.Advanced first ahead here tokens result c) : Regular result := by
  cases h with
  | shifted => exact .shifted _
  | accepted => exact .accepted _ _
  | unexpected => exact .unexpected _ _ _
  | failed => exact .failed _ _ _

theorem Regular.not_isInternal {e : ParseError}
    (h : Regular (.error e : Except ParseError (Ending V))) : ¬ e.IsInternal := by
  cases h <;> exact id

theorem exists_grown_of_reduces (hm : m.table.IsBuilt) (h : Stack.Grown m first here stack γ f c)
    (hred : ReflTransGen (m.Reduces ahead here) (stack, c) (stack', c')) :
    ∃ γ' f', Stack.Grown m first here stack' γ' f' c' := by
  generalize hx : (stack, c) = x at hred
  generalize hy : (stack', c') = y at hred
  induction hred generalizing stack' c' with
  | refl =>
    subst hx
    cases hy
    exact ⟨γ, f, h⟩
  | @tail y z _ hstep ih =>
    subst hy
    obtain ⟨γ₁, f₁, h₁⟩ := ih rfl
    rcases step_sound ahead hm h₁ with ⟨stack₂, γ₂, f₂, c₂, u, heq, h₂, -⟩ |
      ⟨ending, c₂, heq, -⟩ | ⟨e, c₂, heq, -⟩
    · cases hstep.symm.trans heq
      exact ⟨γ₂, f₂, h₂⟩
    · cases hstep.symm.trans heq
    · cases hstep.symm.trans heq

end Machine

namespace Parser

variable {m : Machine ν σ V} {p p' : Parser σ V}

/-- The stack holds a forest that some context grew. -/
def Sound (m : Machine ν σ V) (p : Parser σ V) : Prop := ∃ first γ f, p.Holds m first γ f

theorem Sound.of_stack (m : Machine ν σ V) (h : p.stack = []) : p.Sound m :=
  ⟨p.context, [], .nil, .nil m p h⟩

/-! One call. -/

theorem addToken_of_error {t : Token V} {e : ParseError} (hm : m.table.IsBuilt) (h : p.Sound m)
    (hadd : p.addToken m t = some (.error e, p')) : p'.stack = [] ∧ ¬ e.IsInternal := by
  obtain ⟨first, γ, f, h⟩ := h
  cases added hadd with
  | unknown => exact ⟨rfl, id⟩
  | failed _ hfeed =>
    exact ⟨rfl, (Machine.advance_sound hm (h t.location) hfeed).regular.not_isInternal⟩

theorem addToken_keeps_sound (hm : m.table.IsBuilt) (h : p.Sound m) {t : Token V}
    {result : Except ParseError Unit} (hadd : p.addToken m t = some (result, p')) :
    p'.Sound m := by
  cases result with
  | error e => exact .of_stack m (addToken_of_error hm h hadd).1
  | ok u =>
    obtain ⟨first, γ, f, h⟩ := h
    obtain ⟨γ', f', u, h', -⟩ := addToken_sound hm h hadd
    exact ⟨first, _, f', h'⟩

theorem push_keeps_sound (hm : m.table.IsBuilt) (h : p.Sound m) {ts : List (Token V)}
    {result : Except ParseError Unit} (hpush : p.push m ts = some (result, p')) :
    p'.Sound m ∧ ∀ e, result = .error e → p'.stack = [] ∧ ¬ e.IsInternal := by
  induction ts generalizing p with
  | nil =>
    cases hpush
    exact ⟨h, nofun⟩
  | cons t ts ih =>
    rcases of_push_cons hpush with ⟨e, rfl, hadd⟩ | ⟨q, hadd, hpush⟩
    · have hfailed := addToken_of_error hm h hadd
      exact ⟨.of_stack m hfailed.1, fun _ heq => by cases heq; exact hfailed⟩
    · exact ih (addToken_keeps_sound hm h hadd) hpush

theorem finish_of_sound (hm : m.table.IsBuilt) (h : p.Sound m) {here : Location}
    {result : Except ParseError V} (hfinish : p.finish m here = some (result, p')) :
    p'.stack = [] ∧ ∀ e, result = .error e → ¬ e.IsInternal := by
  obtain ⟨first, γ, f, h⟩ := h
  cases finished hfinish with
  | accepted => exact ⟨rfl, nofun⟩
  | shifted hfeed =>
    cases Machine.advance_sound hm (h here) hfeed with
    | shifted _ _ hahead =>
      obtain ⟨a, ha, -⟩ := hahead
      cases ha
  | failed hfeed =>
    have hregular := (Machine.advance_sound hm (h here) hfeed).regular
    exact ⟨rfl, fun e he => by cases he; exact hregular.not_isInternal⟩

theorem parse_of_isBuilt (hm : m.table.IsBuilt) {ts : List (Token V)}
    {result : Except ParseError V} (hparse : p.parse m ts = some (result, p')) :
    p'.stack = [] ∧ ∀ e, result = .error e → ¬ e.IsInternal := by
  rw [parse, addTokens_eq] at hparse
  obtain ⟨⟨pushed, q⟩, hpush, hfinish⟩ := Option.bind_eq_some_iff.1 hparse
  obtain ⟨hq, hfailed⟩ := push_keeps_sound hm (.of_stack m (p := p.reset) rfl) hpush
  cases pushed with
  | ok u => exact finish_of_sound hm hq hfinish
  | error e =>
    cases hfinish
    obtain ⟨hstack, he⟩ := hfailed e rfl
    exact ⟨hstack, fun _ heq => by cases heq; exact he⟩

/-- What is called for each kind of call. -/
inductive Called (m : Machine ν σ V) (p : Parser σ V) :
    Call V → Except ParseError (Option V) → Parser σ V → Prop
  | addToken {t result p'} (h : p.addToken m t = some (result, p')) :
      Called m p (.addToken t) (result.map fun _ => none) p'
  | finish {here result p'} (h : p.finish m here = some (result, p')) :
      Called m p (.finish here) (result.map some) p'
  | parse {ts result p'} (h : p.parse m ts = some (result, p')) :
      Called m p (.parse ts) (result.map some) p'
  | reset : Called m p .reset (.ok none) p.reset

theorem called {call : Call V} {answer : Except ParseError (Option V)}
    (hcall : p.call m call = some (answer, p')) : p.Called m call answer p' := by
  cases call with
  | addToken t =>
    obtain ⟨⟨result, q⟩, hadd, heq⟩ := Option.map_eq_some_iff.1 hcall
    cases heq
    exact .addToken hadd
  | finish here =>
    obtain ⟨⟨result, q⟩, hfinish, heq⟩ := Option.map_eq_some_iff.1 hcall
    cases heq
    exact .finish hfinish
  | parse ts =>
    obtain ⟨⟨result, q⟩, hparse, heq⟩ := Option.map_eq_some_iff.1 hcall
    cases heq
    exact .parse hparse
  | reset =>
    cases hcall
    exact .reset

theorem call_keeps_sound (hm : m.table.IsBuilt) (h : p.Sound m) {call : Call V}
    {answer : Except ParseError (Option V)} (hcall : p.call m call = some (answer, p')) :
    p'.Sound m ∧ ∀ e, answer = .error e → ¬ e.IsInternal := by
  cases called hcall with
  | addToken hadd =>
    refine ⟨addToken_keeps_sound hm h hadd, fun e he => ?_⟩
    rw [Except.map_eq_error.1 he] at hadd
    exact (addToken_of_error hm h hadd).2
  | finish hfinish =>
    obtain ⟨hstack, hresult⟩ := finish_of_sound hm h hfinish
    exact ⟨.of_stack m hstack, fun e he => hresult e (Except.map_eq_error.1 he)⟩
  | parse hparse =>
    obtain ⟨hstack, hresult⟩ := parse_of_isBuilt hm hparse
    exact ⟨.of_stack m hstack, fun e he => hresult e (Except.map_eq_error.1 he)⟩
  | reset => exact ⟨.of_stack m rfl, nofun⟩

/-! Any number of calls. -/

theorem calls_cons_eq_some {call : Call V} {calls : List (Call V)}
    {answers : List (Except ParseError (Option V))} :
    p.calls m (call :: calls) = some (answers, p') ↔ ∃ answer rest q,
      answers = answer :: rest ∧ p.call m call = some (answer, q) ∧
        q.calls m calls = some (rest, p') := by
  constructor
  · intro h
    obtain ⟨⟨answer, q⟩, hcall, h⟩ := Option.bind_eq_some_iff.1 h
    obtain ⟨⟨rest, r⟩, hcalls, h⟩ := Option.bind_eq_some_iff.1 h
    cases h
    exact ⟨answer, rest, q, rfl, hcall, hcalls⟩
  · rintro ⟨answer, rest, q, rfl, hcall, hcalls⟩
    simp [Parser.calls, hcall, hcalls]

theorem calls_keep_sound (hm : m.table.IsBuilt) (h : p.Sound m) {calls : List (Call V)}
    {answers : List (Except ParseError (Option V))}
    (hcalls : p.calls m calls = some (answers, p')) :
    p'.Sound m ∧ ∀ e, .error e ∈ answers → ¬ e.IsInternal := by
  induction calls generalizing p answers with
  | nil =>
    cases hcalls
    exact ⟨h, nofun⟩
  | cons call calls ih =>
    obtain ⟨answer, rest, q, rfl, hcall, hrest⟩ := calls_cons_eq_some.1 hcalls
    obtain ⟨hq, hanswer⟩ := call_keeps_sound hm h hcall
    obtain ⟨hp', hanswers⟩ := ih hq hrest
    refine ⟨hp', fun e he => ?_⟩
    rcases List.mem_cons.1 he with he | he
    · exact hanswer e he.symm
    · exact hanswers e he

/-- Whatever is asked of a parser, it is never for a missing value or state that a call fails.
Between the calls and between the moves of a call, the frames of the stack are a path of the
automaton from state 0, and a rule is reduced only where its right-hand side is on the stack. -/
theorem calls_keep_stack (hm : m.table.IsBuilt) (hp : p.stack = []) {calls : List (Call V)}
    {answers : List (Except ParseError (Option V))}
    (hcalls : p.calls m calls = some (answers, p')) :
    (∀ e, .error e ∈ answers → ¬ e.IsInternal) ∧
      ∀ ahead here stack c, ReflTransGen (m.Reduces ahead here) (p'.stack, p'.context) (stack, c) →
        (∃ γ, m.table.Spells 0 stack.reverse γ) ∧
          ∀ a r, m.table.lookup stack.state a = .reduce r → m.ReducesBy stack r := by
  obtain ⟨⟨first, γ, f, h⟩, hanswers⟩ := calls_keep_sound hm (.of_stack m hp) hcalls
  refine ⟨hanswers, fun ahead here stack c hred => ?_⟩
  obtain ⟨γ', f', h'⟩ := Machine.exists_grown_of_reduces hm (h here) hred
  exact ⟨⟨γ', h'.spells⟩, fun a r hr => Machine.reducesBy_of_lookup hm h' hr⟩

/-! Every call comes to an end. -/

section Ends

variable (hm : m.table.IsBuilt) (hone : m.table.Unambiguous)
  (hfallback : ∀ a, m.table.grammar.fallback? a = none)

include hm hone hfallback

theorem Sound.exists_feed (h : p.Sound m) (ahead : Lookahead V) (here : Location) :
    ∃ result, p.feed m ahead here = some result := by
  obtain ⟨first, γ, f, h⟩ := h
  exact Machine.exists_advance ahead hm hone hfallback (h here)

theorem Sound.exists_addToken (h : p.Sound m) (t : Token V) :
    ∃ result, p.addToken m t = some result := by
  unfold addToken
  split
  · exact ⟨_, rfl⟩
  · exact ⟨_, rfl⟩
  · next a _ _ =>
    obtain ⟨⟨_ | _, c⟩, hfeed⟩ := h.exists_feed hm hone hfallback (.token a t.value) t.location
    · rw [hfeed]
      exact ⟨_, rfl⟩
    · rw [hfeed]
      exact ⟨_, rfl⟩

theorem Sound.exists_finish (h : p.Sound m) (here : Location) :
    ∃ result, p.finish m here = some result := by
  obtain ⟨result, hfeed⟩ := h.exists_feed hm hone hfallback .endOfInput here
  exact ⟨outcome result, by rw [finish_eq, ← feed, hfeed, Option.map_some]⟩

theorem Sound.exists_push (h : p.Sound m) (ts : List (Token V)) :
    ∃ result, p.push m ts = some result := by
  induction ts generalizing p with
  | nil => exact ⟨_, rfl⟩
  | cons t ts ih =>
    obtain ⟨⟨e | u, q⟩, hadd⟩ := h.exists_addToken hm hone hfallback t
    · exact ⟨_, push_cons_of_error hadd⟩
    · rw [push_cons_of_ok hadd]
      exact ih (addToken_keeps_sound hm h hadd)

theorem exists_parse (p : Parser σ V) (ts : List (Token V)) :
    ∃ result, p.parse m ts = some result := by
  have hreset : p.reset.Sound m := .of_stack m rfl
  rw [parse, addTokens_eq]
  obtain ⟨⟨e | u, q⟩, hpush⟩ := hreset.exists_push hm hone hfallback (inputOf ts)
  · rw [hpush]
    exact ⟨_, rfl⟩
  · rw [hpush]
    exact (push_keeps_sound hm hreset hpush).1.exists_finish hm hone hfallback _

theorem Sound.exists_call (h : p.Sound m) (call : Call V) :
    ∃ answer p', p.call m call = some (answer, p') := by
  cases call with
  | addToken t =>
    obtain ⟨result, hadd⟩ := h.exists_addToken hm hone hfallback t
    exact ⟨_, _, Option.map_eq_some_iff.2 ⟨result, hadd, rfl⟩⟩
  | finish here =>
    obtain ⟨result, hfinish⟩ := h.exists_finish hm hone hfallback here
    exact ⟨_, _, Option.map_eq_some_iff.2 ⟨result, hfinish, rfl⟩⟩
  | parse ts =>
    obtain ⟨result, hparse⟩ := exists_parse hm hone hfallback p ts
    exact ⟨_, _, Option.map_eq_some_iff.2 ⟨result, hparse, rfl⟩⟩
  | reset => exact ⟨_, _, rfl⟩

theorem Sound.exists_calls (h : p.Sound m) (calls : List (Call V)) :
    ∃ answers p', p.calls m calls = some (answers, p') ∧ p'.Sound m := by
  induction calls generalizing p with
  | nil => exact ⟨[], p, rfl, h⟩
  | cons call calls ih =>
    obtain ⟨answer, q, hcall⟩ := h.exists_call hm hone hfallback call
    obtain ⟨answers, p', hcalls, hp'⟩ := ih (call_keeps_sound hm h hcall).1
    exact ⟨_, p', calls_cons_eq_some.2 ⟨answer, answers, q, rfl, hcall, hcalls⟩, hp'⟩

end Ends

/-- Where no cell has more than one candidate and there are no fallbacks, all calls come to an end:
with the stack that any calls have left, every lookahead leads to a shift, to acceptance, to an
error at the lookahead or to an action that fails, in finitely many moves. -/
theorem calls_end (hm : m.table.IsBuilt) (hone : m.table.Unambiguous)
    (hfallback : ∀ a, m.table.grammar.fallback? a = none) (hp : p.stack = [])
    (calls : List (Call V)) :
    ∃ answers p', p.calls m calls = some (answers, p') ∧ ∀ ahead here, ∃ n result c,
      m.EndsAfter ahead here n p'.stack p'.context result c ∧ Machine.Regular result ∧
        m.advance ahead here p'.stack p'.context = some (result, c) := by
  obtain ⟨answers, p', hcalls, first, γ, f, h⟩ :=
    (Sound.of_stack m hp).exists_calls hm hone hfallback calls
  refine ⟨answers, p', hcalls, fun ahead here => ?_⟩
  obtain ⟨n, result, c, hend⟩ := Machine.exists_endsAfter ahead hm hone hfallback (h here)
  have hadvance := hend.advance_eq_some
  exact ⟨n, result, c, hend, (Machine.advance_sound hm (h here) hadvance).regular, hadvance⟩

end Parser

namespace Sums

/-- A sign that is not expected, a sum that is broken off, and a sum. -/
def asked : List (Call Nat) :=
  [.addToken ⟨"+", 0, ⟨1, 1⟩⟩, .addToken ⟨"n", 5, ⟨1, 2⟩⟩, .addToken ⟨"+", 0, ⟨1, 3⟩⟩,
    .finish ⟨1, 4⟩, .addToken ⟨"n", 5, ⟨2, 1⟩⟩, .parse ((tree 1 2).leaves.map (·.2)),
    .addToken ⟨"n", 7, ⟨3, 1⟩⟩]

/-- After these calls the sum can go on in finitely many moves. -/
theorem calls_end_of_asked :
    ∃ answers p', ({ context := 0 } : Parser Nat Nat).calls machine asked = some (answers, p') ∧
      ∃ n result c, machine.EndsAfter (.token 2 0) ⟨3, 2⟩ n p'.stack p'.context result c ∧
        Machine.Regular result := by
  obtain ⟨answers, p', hcalls, hends⟩ := Parser.calls_end (m := machine)
    (p := ({ context := 0 } : Parser Nat Nat)) isBuilt unambiguous fallback?_eq_none rfl asked
  obtain ⟨n, result, c, hend, hregular, -⟩ := hends (.token 2 0) ⟨3, 2⟩
  exact ⟨answers, p', hcalls, n, result, c, hend, hregular⟩

/-- None of these calls fails for a reason of the parser's own. -/
theorem calls_keep_stack_of_asked :
    ∃ answers p', ({ context := 0 } : Parser Nat Nat).calls machine asked = some (answers, p') ∧
      (∀ e, .error e ∈ answers → ¬ e.IsInternal) ∧ ∃ γ, table.Spells 0 p'.stack.reverse γ := by
  obtain ⟨answers, p', hcalls, -⟩ :=
    (Parser.Sound.of_stack machine (p := ({ context := 0 } : Parser Nat Nat)) rfl).exists_calls
      isBuilt unambiguous fallback?_eq_none asked
  obtain ⟨hanswers, hstack⟩ := Parser.calls_keep_stack (m := machine) isBuilt rfl hcalls
  exact ⟨answers, p', hcalls, hanswers, (hstack .endOfInput {} p'.stack p'.context .refl).1⟩

end Sums
end Lalr
