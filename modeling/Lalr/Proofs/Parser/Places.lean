import Lalr.Proofs.Parser.Isolation
import Lalr.Proofs.Parser.Mirror
import Lalr.Proofs.Parser.Moves

/-!
Where the entries of the stack stand. The tokens that an entry was made of are kept with its value,
which changes no call. The entry then stands where the first token stands that is not part of an
entry below it, or where the lookahead does if there is no such token, also if it was made of no
tokens; and an action that fails is reported for that place.
-/

namespace Lalr

variable {ν σ V W : Type}

open Relation (ReflTransGen)

/-- A value, and the tokens that it was made of. -/
abbrev Traced (V : Type) := V × List (Token V)

def Token.traced (t : Token V) : Token (Traced V) := ⟨t.terminal, (t.value, [t]), t.location⟩

def Call.traced : Call V → Call (Traced V)
  | .addToken t => .addToken t.traced
  | .finish here => .finish here
  | .parse ts => .parse (ts.map Token.traced)
  | .reset => .reset

/-- The value of a rule was made of all that the values of its right-hand side were made of. -/
def Machine.traced (m : Machine ν σ V) : Machine ν σ (Traced V) where
  table := m.table
  act r values := do
    let v ← m.act r (values.map Prod.fst)
    return (v, values.flatMap Prod.snd)

/-- The lookahead that a call gives to the machine, and where it stands. -/
inductive Call.Feeds (t : Table ν) : Call V → Lookahead V → Location → Prop
  | token {token : Token V} {a : Nat} (ha : t.grammar.terminal? token.terminal = some a) :
      Feeds t (.addToken token) (.token a token.value) token.location
  | finish (here : Location) : Feeds t (.finish here) .endOfInput here

@[simp] theorem Token.map_traced (t : Token V) : t.traced.map Prod.fst = t := rfl

@[simp] theorem Call.map_traced (call : Call V) : call.traced.map Prod.fst = call := by
  cases call with
  | parse ts => simp [traced, map, Function.comp_def]
  | addToken t => rfl
  | finish here => rfl
  | reset => rfl

theorem Machine.traced_act (m : Machine ν σ V) (r : Nat) (values : List (Traced V)) (c : σ) :
    (m.traced.act r values).run.run c =
      Prod.map (Except.map fun v => (v, values.flatMap Prod.snd)) id
        ((m.act r (values.map Prod.fst)).run.run c) := by
  simp only [traced, ExceptT.run_bind, StateT.run_bind]
  rcases (m.act r (values.map Prod.fst)).run.run c with ⟨_ | _, _⟩ <;> rfl

theorem Machine.mirrors_traced (m : Machine ν σ V) : m.traced.Mirrors m id Prod.fst where
  table := rfl
  act r values c := by
    rw [traced_act, id_eq]
    rcases (m.act r (values.map Prod.fst)).run.run c with ⟨_ | _, _⟩ <;> rfl

/-- The tokens that the entries were made of, from the bottom to the top. -/
def Stack.tokens (stack : Stack (Traced V)) : List (Token V) := stack.reverse.flatMap (·.value.2)

/-- The tokens since the last start, once one more call was answered. -/
def sinceStart (given : List (Token V)) : Call V × Answer W → List (Token V)
  | (.addToken t, .ok _) => given ++ [t]
  | _ => []

/-- The entries were made of the tokens that were given. Each of them stands at the token that comes
next after those of the entries below, where the lookahead comes after all tokens. -/
structure Stack.Covers (stack : Stack (Traced V)) (given : List (Token V)) (next : Location) :
    Prop where
  tokens : stack.tokens = given
  place (above : Stack (Traced V)) (frame : Frame (Traced V)) (below : Stack (Traced V)) :
    stack = above ++ frame :: below →
      (given.map Token.location ++ [next])[(Stack.tokens below).length]? = some frame.location

namespace Stack

variable {stack : Stack (Traced V)} {given : List (Token V)} {t : Token V} {next : Location}

@[simp] theorem tokens_nil : tokens ([] : Stack (Traced V)) = [] := rfl

@[simp] theorem tokens_cons (frame : Frame (Traced V)) (stack : Stack (Traced V)) :
    tokens (frame :: stack) = stack.tokens ++ frame.value.2 := by
  simp [tokens]

theorem flatMap_values (stack : Stack (Traced V)) :
    (stack.reverse.map Frame.value).flatMap Prod.snd = stack.tokens := by
  rw [List.flatMap_map]
  rfl

@[simp] theorem tokens_append (above below : Stack (Traced V)) :
    tokens (above ++ below) = below.tokens ++ above.tokens := by
  simp [tokens]

namespace Covers

theorem nil (next : Location) : Covers ([] : Stack (Traced V)) [] next where
  tokens := rfl
  place above frame below h := by simp at h

theorem shift (h : stack.Covers given t.location) (q : Nat) (next : Location) :
    Covers (⟨q, t.traced.value, t.location⟩ :: stack) (given ++ [t]) next where
  tokens := by simp [h.tokens, Token.traced]
  place above frame below heq := by
    rw [List.map_append, List.map_singleton, List.append_assoc]
    cases above with
    | nil =>
      obtain ⟨rfl, rfl⟩ := List.cons.inj heq
      rw [h.tokens, List.getElem?_append_right (by simp)]
      simp
    | cons top above =>
      have hplace := h.place above frame below (List.cons.inj heq).2
      rw [← List.append_assoc]
      exact List.getElem?_append_left (List.getElem?_eq_some_iff.1 hplace).1 ▸ hplace

/-- Where the frames on top are taken off, the place of the first of them, or else that of the
lookahead, is the one that comes next after the tokens below. -/
theorem place_of_popped {popped below : Stack (Traced V)}
    (h : Covers (popped ++ below) given next) :
    (given.map Token.location ++ [next])[below.tokens.length]? =
      some ((popped.getLast?.map Frame.location).getD next) := by
  cases popped using List.reverseRecOn with
  | nil =>
    rw [← h.tokens, List.nil_append, List.getElem?_append_right (by simp)]
    simp
  | append_singleton above frame =>
    rw [h.place above frame below (by simp)]
    simp

theorem reduce {popped below : Stack (Traced V)} (h : Covers (popped ++ below) given next)
    (q : Nat) (v : V) :
    Covers (⟨q, (v, popped.tokens), (popped.getLast?.map Frame.location).getD next⟩ :: below)
      given next where
  tokens := by rw [← h.tokens, tokens_cons, tokens_append]
  place above frame below' heq := by
    cases above with
    | cons top above =>
      obtain ⟨-, rfl⟩ := List.cons.inj heq
      exact h.place (popped ++ above) frame below' (List.append_assoc ..).symm
    | nil =>
      obtain ⟨rfl, rfl⟩ := List.cons.inj heq
      exact h.place_of_popped

end Covers
end Stack

namespace Machine

variable {m : Machine ν σ V} {ahead : Lookahead (Traced V)} {here place : Location}
  {given : List (Token V)} {x y : Stack (Traced V) × σ} {c : σ}

/-- The action of a rule fails. Below the frames of its right-hand side are those of some of the
tokens, and the place is where the next token stands. -/
def FailsAt (m : Machine ν σ V) (given : List (Token V)) (ahead : Lookahead (Traced V))
    (here : Location) (x : Stack (Traced V) × σ) (text : String) (place : Location)
    (cause : ActionError) (c : σ) : Prop :=
  ∃ r p, m.table.lookup x.1.state ahead.terminal = .reduce r ∧ m.table.production? r = some p ∧
    text = p.text ∧
    (m.act r ((x.1.take p.rule.rhs.length).reverse.map (·.value.1))).run.run x.2 =
      (.error cause, c) ∧
    (given.map Token.location ++ [here])[(Stack.tokens (x.1.drop p.rule.rhs.length)).length]? =
      some place

/-- An action on traced values has the value of the action, made of all their tokens. -/
theorem of_traced_act {r : Nat} {values : List (Traced V)} {v : Traced V} {c' : σ}
    (h : (m.traced.act r values).run.run c = (.ok v, c')) : v.2 = values.flatMap Prod.snd := by
  rw [traced_act] at h
  rcases hact : (m.act r (values.map Prod.fst)).run.run c with ⟨_ | _, _⟩
  · rw [hact] at h
    cases h
  · rw [hact] at h
    cases h
    rfl

/-- Reducing keeps the tokens, and no entry moves. -/
theorem Reduces.covers (hred : m.traced.Reduces ahead here x y) (h : x.1.Covers given here) :
    y.1.Covers given here := by
  obtain ⟨stack, c⟩ := x
  obtain ⟨stack', c'⟩ := y
  cases hred.stepped with
  | @reduced _ p _ v q _ hr hact =>
    obtain ⟨v, tokens⟩ := v
    obtain rfl : tokens = _ := of_traced_act hact
    rw [← List.take_append_drop p.rule.rhs.length stack] at h
    rw [hr.place, Stack.flatMap_values]
    exact h.reduce q v

theorem covers_of_reduces (hred : ReflTransGen (m.traced.Reduces ahead here) x y)
    (h : x.1.Covers given here) : y.1.Covers given here := by
  induction hred with
  | refl => exact h
  | tail _ hstep ih => exact hstep.covers ih

theorem failsAt_of_ends {text : String} {cause : ActionError} (h : x.1.Covers given here)
    (hends : m.traced.Ends ahead here x (.error (.action text place cause)) c) :
    m.FailsAt given ahead here x text place cause c := by
  obtain ⟨stack, c₀⟩ := x
  cases hends.stepped with
  | broken _ he => exact he.elim
  | @failed r p _ _ _ hr hact =>
    rw [← List.take_append_drop p.rule.rhs.length stack] at h
    refine ⟨r, p, hr.lookup, hr.production, rfl, ?_, hr.place ▸ h.place_of_popped⟩
    have herror := m.mirrors_traced.act r
      ((stack.take p.rule.rhs.length).reverse.map Frame.value) c₀
    rwa [hact, List.map_map] at herror

end Machine

namespace Parser

variable {m : Machine ν σ V} {p p' : Parser σ (Traced V)} {given : List (Token V)}

/-- The stack covers the tokens that were given, wherever the next one stands. -/
def Covers (p : Parser σ (Traced V)) (given : List (Token V)) : Prop :=
  ∀ next, p.stack.Covers given next

theorem addToken_covers (hm : m.table.IsBuilt) (h : p.Covers given) {t : Token V}
    (hadd : p.addToken m.traced t.traced = some (.ok (), p')) : p'.Covers (given ++ [t]) := by
  obtain ⟨a, x, q, -, hx, -, hstack⟩ := addToken_shifts (m := m.traced) hm hadd
  intro next
  rw [hstack]
  exact (Machine.covers_of_reduces hx (h _)).shift q next

theorem call_covers (hm : m.table.IsBuilt) (h : p.Covers given) {call : Call V}
    {answer : Answer (Traced V)} (hcall : p.call m.traced call.traced = some (answer, p')) :
    p'.Covers (sinceStart given (call, answer)) := by
  have hnew : goesOn (call.traced, answer) = false → p'.Covers [] := by
    intro hends next
    rw [call_new hcall hends]
    exact .nil next
  cases call with
  | addToken t =>
    cases answer with
    | error e => exact hnew rfl
    | ok v =>
      generalize hanswer : Except.ok v = answer at hcall
      cases called hcall with
      | @addToken _ result _ hadd =>
        cases result with
        | error e => cases hanswer
        | ok u => exact addToken_covers hm h hadd
  | finish here => exact hnew rfl
  | parse ts => exact hnew rfl
  | reset => exact hnew rfl

theorem calls_cover (hm : m.table.IsBuilt) (h : p.Covers given) {calls : List (Call V)}
    {answers : List (Answer (Traced V))}
    (hcalls : p.calls m.traced (calls.map Call.traced) = some (answers, p')) :
    p'.Covers ((calls.zip answers).foldl sinceStart given) := by
  induction calls generalizing p given answers with
  | nil =>
    cases hcalls
    exact h
  | cons call calls ih =>
    obtain ⟨answer, rest, q, rfl, hcall, hrest⟩ := calls_cons_eq_some.1 hcalls
    exact ih (call_covers hm h hcall) hrest

/-! The lookaheads that calls give to the machine. -/

variable {m' : Machine ν σ W} {q q' : Parser σ W}

theorem exists_feed_of_call {call : Call W} {ahead : Lookahead W} {here : Location}
    (hfeeds : call.Feeds m'.table ahead here) {text : String} {place : Location}
    {cause : ActionError} (hcall : q.call m' call = some (.error (.action text place cause), q')) :
    q.feed m' ahead here = some (.error (.action text place cause), q'.context) := by
  generalize hanswer : (.error (.action text place cause) : Answer W) = answer at hcall
  cases hfeeds with
  | token ha =>
    cases called hcall with
    | addToken hadd =>
      rw [Except.map_eq_error.1 hanswer.symm] at hadd
      cases added hadd with
      | failed ha' hfeed =>
        obtain rfl := Option.some.inj (ha.symm.trans ha')
        exact hfeed
  | finish here =>
    cases called hcall with
    | finish hfinish =>
      rw [Except.map_eq_error.1 hanswer.symm] at hfinish
      cases finished hfinish with
      | failed hfeed => exact hfeed

/-- Pushing comes to an end with all tokens taken, or with the first that is not. -/
theorem exists_calls_of_push {ts : List (Token W)} {result : Except ParseError Unit}
    (hpush : q.push m' ts = some (result, q')) :
    ∃ ts₁ q₁, q.calls m' (ts₁.map .addToken) = some (List.replicate ts₁.length (.ok none), q₁) ∧
      ((ts₁ = ts ∧ result = .ok () ∧ q₁ = q') ∨
        ∃ t ts₂ e, ts = ts₁ ++ t :: ts₂ ∧ result = .error e ∧
          q₁.addToken m' t = some (.error e, q')) := by
  induction ts generalizing q with
  | nil =>
    cases hpush
    exact ⟨[], _, rfl, .inl ⟨rfl, rfl, rfl⟩⟩
  | cons t ts ih =>
    rcases of_push_cons hpush with ⟨e, rfl, hadd⟩ | ⟨q₁, hadd, hpush⟩
    · exact ⟨[], q, rfl, .inr ⟨t, ts, e, rfl, rfl, hadd⟩⟩
    · obtain ⟨ts₁, q₂, hcalls, hlast⟩ := ih hpush
      refine ⟨t :: ts₁, q₂, ?_, ?_⟩
      · simp [Parser.calls, call, hadd, hcalls, List.replicate_succ, Except.map]
      · rcases hlast with ⟨rfl, hlast⟩ | ⟨t', ts₂, e, rfl, hlast⟩
        · exact .inl ⟨rfl, hlast⟩
        · exact .inr ⟨t', ts₂, e, rfl, hlast⟩

/-- A parse is a reset, calls for the tokens that are taken, and a last call, for the first token
that is not taken or for the end of input. -/
theorem exists_calls_of_parse {ts : List (Token W)} {result : Except ParseError W}
    (hparse : q.parse m' ts = some (result, q')) :
    ∃ ts₁ q₁ last,
      q.calls m' (.reset :: ts₁.map .addToken) =
        some (List.replicate (ts₁.length + 1) (.ok none), q₁) ∧
      q₁.call m' last = some (result.map some, q') ∧
      ((ts₁ = inputOf ts ∧ last = .finish (endOf {} ts)) ∨
        ∃ t ts₂, inputOf ts = ts₁ ++ t :: ts₂ ∧ last = .addToken t) := by
  rw [parse, addTokens_eq] at hparse
  obtain ⟨⟨pushed, q₂⟩, hpush, hfinish⟩ := Option.bind_eq_some_iff.1 hparse
  obtain ⟨ts₁, q₁, hcalls, ⟨rfl, rfl, rfl⟩ | ⟨t, ts₂, e, hinput, rfl, hadd⟩⟩ :=
    exists_calls_of_push hpush
  · refine ⟨inputOf ts, q₁, .finish (endOf {} ts), ?_, ?_, .inl ⟨rfl, rfl⟩⟩
    · simp [Parser.calls, call, hcalls, List.replicate_succ]
    · exact Option.map_eq_some_iff.2 ⟨_, hfinish, rfl⟩
  · cases hfinish
    refine ⟨ts₁, q₁, .addToken t, ?_, ?_, .inr ⟨t, ts₂, hinput, rfl⟩⟩
    · simp [Parser.calls, call, hcalls, List.replicate_succ]
    · exact Option.map_eq_some_iff.2 ⟨_, hadd, rfl⟩

/-- Calls on a parser that keeps with each value the tokens that it was made of are answered as
those on one that does not, and whatever moves the one makes, the other does too. In every stack
that comes up, the entries were made of the tokens since the last start, and each stands at the
token that is the first after those of the entries below it, or at the lookahead if there is none.
The error of an action that fails names its rule, and the token that comes first after those below
the right-hand side. And to parse a list is to make these calls one by one, the last of them at the
token that ends the input, or at the last token, or at no place if there are no tokens. -/
theorem calls_places {m : Machine ν σ V} (hm : m.table.IsBuilt) (c : σ) (calls : List (Call V)) :
    ({ context := c } : Parser σ V).calls m calls =
      (({ context := c } : Parser σ (Traced V)).calls m.traced (calls.map Call.traced)).map
        (Prod.map (List.map (Except.map (Option.map Prod.fst))) (Parser.map id Prod.fst)) ∧
    (∀ answers q, ({ context := c } : Parser σ (Traced V)).calls m.traced (calls.map Call.traced) =
        some (answers, q) → ∀ ahead here,
      (∀ x, ReflTransGen (m.traced.Reduces ahead here) (q.stack, q.context) x →
        x.1.Covers ((calls.zip answers).foldl sinceStart []) here) ∧
      (∀ y, ReflTransGen (m.Reduces (ahead.map Prod.fst) here)
          (q.stack.mapValues Prod.fst, q.context) y →
        ∃ x, ReflTransGen (m.traced.Reduces ahead here) (q.stack, q.context) x ∧
          Prod.map (Stack.mapValues Prod.fst) id x = y) ∧
      ∀ call : Call V, call.traced.Feeds m.table ahead here → ∀ text place cause q',
        q.call m.traced call.traced = some (.error (.action text place cause), q') →
          ∃ x, ReflTransGen (m.traced.Reduces ahead here) (q.stack, q.context) x ∧
            m.FailsAt ((calls.zip answers).foldl sinceStart []) ahead here x text place cause
              q'.context) ∧
    ∀ (p p' : Parser σ V) ts result, p.parse m ts = some (result, p') → ∃ ts₁ q last,
      p.calls m (.reset :: ts₁.map .addToken) =
        some (List.replicate (ts₁.length + 1) (.ok none), q) ∧
      q.call m last = some (result.map some, p') ∧
      ((ts₁ = inputOf ts ∧ last = .finish ((((ts.find? (·.terminal = Grammar.endName)).or
          ts.getLast?).map Token.location).getD {})) ∨
        ∃ t ts₂, inputOf ts = ts₁ ++ t :: ts₂ ∧ last = .addToken t) := by
  refine ⟨?_, fun answers q hcalls ahead here => ?_, fun p p' ts result hparse => ?_⟩
  · have hmirror := m.mirrors_traced.calls { context := c } (calls.map Call.traced)
    rw [List.map_map, show Call.map Prod.fst ∘ Call.traced = id (α := Call V) from
      funext Call.map_traced, List.map_id] at hmirror
    exact hmirror
  · have hcovers := calls_cover hm (fun next => .nil next) hcalls
    refine ⟨fun x hx => Machine.covers_of_reduces hx (hcovers here),
      fun y hy => m.mirrors_traced.exists_reflTransGen hy,
      fun call hfeeds text place cause q' hcall => ?_⟩
    obtain ⟨x, hx, hends⟩ := Machine.advance_eq_some_iff.1 (exists_feed_of_call hfeeds hcall)
    exact ⟨x, hx, Machine.failsAt_of_ends (Machine.covers_of_reduces hx (hcovers here)) hends⟩
  · obtain ⟨ts₁, q, last, hcalls, hlast, hinput⟩ := exists_calls_of_parse hparse
    rw [endOf_eq] at hinput
    exact ⟨ts₁, q, last, hcalls, hlast, hinput⟩

end Parser

/-- In every stack on the way to the end of a sum, the entries stand where their tokens begin. -/
theorem Sums.calls_places_of_asked :
    ∃ answers q, ({ context := 0 } : Parser Nat (Traced Nat)).calls machine.traced
        (asked.map Call.traced) = some (answers, q) ∧
      ∀ x, ReflTransGen (machine.traced.Reduces .endOfInput ⟨3, 2⟩) (q.stack, q.context) x →
        x.1.Covers ((asked.zip answers).foldl sinceStart []) ⟨3, 2⟩ := by
  obtain ⟨answers, q, hcalls, -⟩ :=
    (Parser.Sound.of_stack machine.traced (p := { context := 0 }) rfl).exists_calls
      isBuilt unambiguous fallback?_eq_none (asked.map Call.traced)
  obtain ⟨-, htraced, -⟩ := Parser.calls_places (m := machine) isBuilt 0 asked
  exact ⟨answers, q, hcalls, (htraced answers q hcalls .endOfInput ⟨3, 2⟩).1⟩

end Lalr
