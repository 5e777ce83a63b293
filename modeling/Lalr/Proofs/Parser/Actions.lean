import Lalr.Proofs.Parser.Moves

/-!
What parsing does to the context. It is changed by the actions of rules alone, and each of them is
run on as many values as its rule has symbols.
-/

namespace Lalr

variable {ν σ V : Type}

open Relation (ReflTransGen)

namespace Machine

variable {m : Machine ν σ V} {first c c' : σ} {ahead : Lookahead V} {here place : Location}
  {stack : Stack V} {γ : List Sym} {f : Forest V} {x y : Stack V × σ}
  {result : Except ParseError (Ending V)}

/-- The action of the rule is run, on a value for each of its symbols. -/
def Acts (m : Machine ν σ V) (r : Nat) (c : σ) (result : Except ActionError V) (c' : σ) : Prop :=
  ∃ p values, m.table.production? r = some p ∧ values.length = p.rule.rhs.length ∧
    (m.act r values).run.run c = (result, c')

def ActsOn (m : Machine ν σ V) (c c' : σ) : Prop := ∃ r result, m.Acts r c result c'

/-- The error of an action that leaves the context. -/
def FailsWith (m : Machine ν σ V) (text : String) (cause : ActionError) (c : σ) : Prop :=
  ∃ r c₀, text = m.table.ruleText r ∧ m.Acts r c₀ (.error cause) c

theorem Attempts.acts (hm : m.table.IsBuilt) (h : Stack.Grown m first here stack γ f c) {r : Nat}
    {p : Production ν} (hr : m.Attempts ahead here stack r p place) {result : Except ActionError V}
    (hact : (m.act r ((stack.take p.rule.rhs.length).reverse.map Frame.value)).run.run c =
      (result, c')) : m.Acts r c result c' := by
  refine ⟨p, _, hr.production, ?_, hact⟩
  obtain ⟨p', frames, below, q, hp', rfl, hlength, -⟩ := reducesBy_of_lookup hm h hr.lookup
  obtain rfl : p = p' := Option.some.inj (hr.production.symm.trans hp')
  rw [List.length_map, List.length_reverse, ← hlength, List.take_left]

theorem actsOn_of_reduces (hm : m.table.IsBuilt)
    (h : Stack.Grown m first here x.1 γ f x.2) (hred : ReflTransGen (m.Reduces ahead here) x y) :
    ReflTransGen m.ActsOn x.2 y.2 := by
  induction hred with
  | refl => exact .refl
  | @tail y z hy hstep ih =>
    obtain ⟨γ', f', h'⟩ := exists_grown_of_reduces hm h hy
    obtain ⟨stack', c'⟩ := z
    cases hstep.stepped with
    | reduced hr hact => exact ih.tail ⟨_, _, hr.acts hm h' hact⟩

/-- To take a lookahead is to run actions, and where one of them fails it is the last. -/
theorem actsOn_of_advance (hm : m.table.IsBuilt) (h : Stack.Grown m first here stack γ f c)
    (hadvance : m.advance ahead here stack c = some (result, c')) :
    ReflTransGen m.ActsOn c c' ∧ ∀ text place cause, result = .error (.action text place cause) →
      m.FailsWith text cause c' := by
  have hregular := (advance_sound hm h hadvance).regular
  obtain ⟨⟨stack', c₁⟩, hx, hends⟩ := advance_eq_some_iff.1 hadvance
  have hacts : ReflTransGen m.ActsOn c c₁ := actsOn_of_reduces hm h hx
  obtain ⟨γ', f', h'⟩ := exists_grown_of_reduces hm h hx
  cases result with
  | ok ending =>
    cases hends.stepped with
    | shifted => exact ⟨hacts, by simp⟩
    | accepted => exact ⟨hacts, by simp⟩
  | error e =>
    cases hends.stepped with
    | @failed r p _ _ _ hr hact =>
      have hfails := hr.acts hm h' hact
      refine ⟨hacts.tail ⟨_, _, hfails⟩, fun text place' cause' heq => ?_⟩
      cases heq
      exact ⟨r, c₁, by rw [Table.ruleText, hr.production]; rfl, hfails⟩
    | unexpected => exact ⟨hacts, by simp⟩
    | broken _ he => exact absurd he hregular.not_isInternal

end Machine

namespace Parser

variable {m : Machine ν σ V} {p p' : Parser σ V}

/-- Actions were run from one parser to the other, the last of which is the reason if there is an
error of an action. -/
structure Ran {α : Type} (m : Machine ν σ V) (p : Parser σ V) (result : Except ParseError α)
    (p' : Parser σ V) : Prop where
  acts : ReflTransGen m.ActsOn p.context p'.context
  fails (text : String) (place : Location) (cause : ActionError) :
    result = .error (.action text place cause) → m.FailsWith text cause p'.context

variable {α β : Type} {result : Except ParseError α}

theorem Ran.map (h : p.Ran m result p') (f : α → β) : p.Ran m (result.map f) p' where
  acts := h.acts
  fails text place cause heq := h.fails text place cause (Except.map_eq_error.1 heq)

theorem Ran.of_feed (hm : m.table.IsBuilt) (h : p.Sound m) {ahead : Lookahead V} {here : Location}
    {ending : Except ParseError (Ending V)} {c : σ} (hfeed : p.feed m ahead here = some (ending, c))
    (hc : p'.context = c)
    (hresult : ∀ text place cause, result = .error (.action text place cause) →
      ending = .error (.action text place cause)) : p.Ran m result p' := by
  subst hc
  obtain ⟨first, γ, f, h⟩ := h
  obtain ⟨hacts, hfails⟩ := Machine.actsOn_of_advance hm (h here) hfeed
  exact ⟨hacts, fun text place cause heq =>
    hfails text place cause (hresult text place cause heq)⟩

theorem ran_of_addToken (hm : m.table.IsBuilt) (h : p.Sound m) {t : Token V}
    {result : Except ParseError Unit} (hadd : p.addToken m t = some (result, p')) :
    p.Ran m result p' := by
  cases added hadd with
  | unknown => exact ⟨.refl, nofun⟩
  | taken _ _ hfeed => exact .of_feed hm h hfeed rfl nofun
  | failed _ hfeed => exact .of_feed hm h hfeed rfl fun _ _ _ heq => by cases heq; rfl

theorem ran_of_push (hm : m.table.IsBuilt) (h : p.Sound m) {ts : List (Token V)}
    {result : Except ParseError Unit} (hpush : p.push m ts = some (result, p')) :
    p.Ran m result p' := by
  induction ts generalizing p with
  | nil =>
    cases hpush
    exact ⟨.refl, nofun⟩
  | cons t ts ih =>
    rcases of_push_cons hpush with ⟨e, rfl, hadd⟩ | ⟨q, hadd, hpush⟩
    · exact ran_of_addToken hm h hadd
    · have hrest := ih (addToken_keeps_sound hm h hadd) hpush
      exact ⟨(ran_of_addToken hm h hadd).acts.trans hrest.acts, hrest.fails⟩

theorem ran_of_finish (hm : m.table.IsBuilt) (h : p.Sound m) {here : Location}
    {result : Except ParseError V} (hfinish : p.finish m here = some (result, p')) :
    p.Ran m result p' := by
  cases finished hfinish with
  | accepted hfeed => exact .of_feed hm h hfeed rfl nofun
  | shifted hfeed => exact .of_feed hm h hfeed rfl nofun
  | failed hfeed => exact .of_feed hm h hfeed rfl fun _ _ _ heq => by cases heq; rfl

theorem ran_of_parse (hm : m.table.IsBuilt) {ts : List (Token V)}
    {result : Except ParseError V} (hparse : p.parse m ts = some (result, p')) :
    p.Ran m result p' := by
  have hsound : p.reset.Sound m := .of_stack m rfl
  rw [parse, addTokens_eq] at hparse
  obtain ⟨⟨pushed, q⟩, hpush, hfinish⟩ := Option.bind_eq_some_iff.1 hparse
  have hpushed : p.Ran m pushed q :=
    ⟨(ran_of_push hm hsound hpush).acts, (ran_of_push hm hsound hpush).fails⟩
  cases pushed with
  | ok u =>
    have hfinished := ran_of_finish hm (push_keeps_sound hm hsound hpush).1 hfinish
    exact ⟨hpushed.acts.trans hfinished.acts, hfinished.fails⟩
  | error e =>
    cases hfinish
    exact ⟨hpushed.acts, fun text place cause heq =>
      hpushed.fails text place cause (by cases heq; rfl)⟩

theorem ran_of_call (hm : m.table.IsBuilt) (h : p.Sound m) {call : Call V}
    {answer : Except ParseError (Option V)} (hcall : p.call m call = some (answer, p')) :
    p.Ran m answer p' := by
  cases called hcall with
  | addToken hadd => exact (ran_of_addToken hm h hadd).map _
  | finish hfinish => exact (ran_of_finish hm h hfinish).map _
  | parse hparse => exact (ran_of_parse hm hparse).map _
  | reset => exact ⟨.refl, nofun⟩

/-- Calls on a parser run actions on the context, and do nothing else with it. -/
theorem ran_of_calls (hm : m.table.IsBuilt) (h : p.Sound m) {calls : List (Call V)}
    {answers : List (Except ParseError (Option V))}
    (hcalls : p.calls m calls = some (answers, p')) :
    ReflTransGen m.ActsOn p.context p'.context ∧ ∀ answer ∈ answers, ∀ text place cause,
      answer = .error (.action text place cause) →
        ∃ c, m.FailsWith text cause c ∧ ReflTransGen m.ActsOn c p'.context := by
  induction calls generalizing p answers with
  | nil =>
    cases hcalls
    exact ⟨.refl, nofun⟩
  | cons call calls ih =>
    obtain ⟨answer, rest, q, rfl, hcall, hrest⟩ := calls_cons_eq_some.1 hcalls
    have hran := ran_of_call hm h hcall
    obtain ⟨hacts, hfails⟩ := ih (call_keeps_sound hm h hcall).1 hrest
    exact ⟨hran.acts.trans hacts, List.forall_mem_cons.2
      ⟨fun text place cause heq => ⟨_, hran.fails text place cause heq, hacts⟩, hfails⟩⟩

end Parser
end Lalr
