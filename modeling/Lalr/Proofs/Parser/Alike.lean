import Lalr.Proofs.Parser.Requests
import Lalr.Proofs.Table.Alike

/-!
Parsers over tables that are alike. Where both tables have the same move for a lookahead, both
parsers do the same, action by action; so the one does what the other does as long as its tables are
asked only where they agree.
-/

namespace Lalr

variable {ν σ V : Type}

open Relation (ReflTransGen)

theorem Production.text_of_bare {p p' : Production ν} (h : p'.bare = p.bare) : p'.text = p.text :=
  congrArg (fun b : BareProduction ν => " ".intercalate (b.lhs :: "::=" :: b.rhs)) h

/-- The same value or the end, with related numbers. -/
inductive Lookahead.Rel (R : Nat → Nat → Prop) : Lookahead V → Lookahead V → Prop
  | token {a a'} (h : R a a') (v : V) : Rel R (.token a v) (.token a' v)
  | endOfInput : Rel R .endOfInput .endOfInput

/-- Reductions do the same. -/
structure Machine.Agrees (m m' : Machine ν σ V) : Prop where
  production?_bare (r : Nat) : (m'.table.production? r).map Production.bare =
    (m.table.production? r).map Production.bare
  goto? (q n : Nat) : m'.table.goto? q n = m.table.goto? q n
  act (r : Nat) (values : List V) : m'.act r values = m.act r values

namespace Machine.Agrees

variable {m m' : Machine ν σ V} {R : Nat → Nat → Prop}

theorem ruleText (h : m.Agrees m') (r : Nat) : m'.table.ruleText r = m.table.ruleText r := by
  have hbare := h.production?_bare r
  rw [Table.ruleText, Table.ruleText]
  cases hp : m.table.production? r <;> cases hp' : m'.table.production? r <;>
    rw [hp, hp'] at hbare
  · cases hbare
  · cases hbare
  · exact Production.text_of_bare (Option.some.inj hbare)

theorem reduce (h : m.Agrees m') (stack : Stack V) (r : Nat) (here : Location) :
    m'.reduce stack r here = m.reduce stack r here := by
  have hbare := h.production?_bare r
  have hperform : m'.perform r = m.perform r := by
    funext values here
    rw [perform, perform, h.act, h.ruleText]
  cases hp : m.table.production? r <;> cases hp' : m'.table.production? r <;>
    rw [hp, hp'] at hbare
  · simp only [Machine.reduce, hp, hp']
  · cases hbare
  · cases hbare
  · next p p' =>
    have hbare := Option.some.inj hbare
    have hrule : p'.rule = p.rule := congrArg BareProduction.rule hbare
    have hlhs : p'.lhs = p.lhs := congrArg (BareRule.lhs ∘ BareProduction.toBareRule) hbare
    rw [m'.reduce_of_production hp', m.reduce_of_production hp, hrule, hlhs, hperform]
    simp only [h.goto?]

/-- A move that both tables have is the same move. -/
theorem step (h : m.Agrees m') {stack : Stack V} {ahead ahead' : Lookahead V} (here : Location)
    (hahead : Lookahead.Rel R ahead ahead')
    (hlookup : m'.table.lookup stack.state ahead'.terminal =
      m.table.lookup stack.state ahead.terminal)
    (herror : m.table.lookup stack.state ahead.terminal = .error →
      m'.table.grammar.terminalName ahead'.terminal =
          m.table.grammar.terminalName ahead.terminal ∧
        m'.table.expectedNames stack.state = m.table.expectedNames stack.state) :
    m'.step stack ahead' here = m.step stack ahead here := by
  unfold Machine.step
  rw [hlookup]
  cases hmove : m.table.lookup stack.state ahead.terminal with
  | shift q => cases hahead <;> rfl
  | reduce r => simp only [h.reduce]
  | accept => rfl
  | error =>
    obtain ⟨hname, hexpected⟩ := herror hmove
    simp only [hname, hexpected]

end Machine.Agrees

namespace Machine

variable {m m' : Machine ν σ V} {ahead ahead' : Lookahead V} {here : Location} {stack : Stack V}
  {c c' : σ}

theorem advance_of_reduces {result : Except ParseError (Ending V)}
    (hreduces : ∀ x y, m.Reduces ahead here x y → m'.Reduces ahead' here x y)
    (hends : ∀ x c, m.Ends ahead here x result c → m'.Ends ahead' here x result c)
    (h : m.advance ahead here stack c = some (result, c')) :
    m'.advance ahead' here stack c = some (result, c') := by
  obtain ⟨x, hx, hx'⟩ := advance_eq_some_iff.1 h
  exact advance_eq_some_iff.2 ⟨x, ReflTransGen.mono hreduces _ _ hx, hends x c' hx'⟩

/-! One machine does all that another does without failing. -/

/-- Moves that do not fail are made, and terminals keep their numbers. -/
structure Extends (m m' : Machine ν σ V) : Prop where
  terminal? {name : String} {a : Nat} : m.table.grammar.terminal? name = some a →
    m'.table.grammar.terminal? name = some a
  step {stack : Stack V} {ahead : Lookahead V} {here : Location} {c c' : σ} {s : Step V} :
    (m.step stack ahead here).run.run c = (.ok s, c') →
      (m'.step stack ahead here).run.run c = (.ok s, c')

/-- A table without fallbacks is extended by one that has its moves. -/
theorem Agrees.extends_of_moves (h : m.Agrees m')
    (hterminal : ∀ {name a}, m.table.grammar.terminal? name = some a →
      m'.table.grammar.terminal? name = some a)
    (hfallback : ∀ a, m.table.grammar.fallback? a = none)
    (hmove : ∀ q a, m.table.move q a ≠ .error → m'.table.move q a = m.table.move q a) :
    m.Extends m' where
  terminal? := hterminal
  step {stack ahead here c c' s} hstep := by
    have hne : m.table.lookup stack.state ahead.terminal ≠ .error := by
      intro herror
      rw [step_error herror] at hstep
      cases hstep
    have hmoves : m.table.move stack.state ahead.terminal ≠ .error := by
      rwa [← Table.lookup_of_fallback?_none (hfallback _)]
    have hlookup : m'.table.lookup stack.state ahead.terminal =
        m.table.lookup stack.state ahead.terminal := by
      have hmoves' := hmove _ _ hmoves
      rw [Table.lookup_of_move hmoves, Table.lookup_of_move (hmoves'.symm ▸ hmoves), hmoves']
    have hrel : Lookahead.Rel Eq ahead ahead := by
      cases ahead with
      | token a v => exact .token rfl v
      | endOfInput => exact .endOfInput
    rw [h.step here hrel hlookup fun herror => absurd herror hne]
    exact hstep

theorem Extends.advance (h : m.Extends m') {ending : Ending V}
    (hadvance : m.advance ahead here stack c = some (.ok ending, c')) :
    m'.advance ahead here stack c = some (.ok ending, c') :=
  advance_of_reduces (fun _ _ => h.step) (fun _ _ => h.step) hadvance

end Machine

namespace Parser

variable {m m' : Machine ν σ V} {p p' : Parser σ V} {v : V}

theorem addToken_of_extends (h : m.Extends m') {t : Token V}
    (hadd : p.addToken m t = some (.ok (), p')) : p.addToken m' t = some (.ok (), p') := by
  cases added hadd with
  | taken ha hne hfeed =>
    rw [addToken_eq p (h.terminal? ha) hne, h.advance hfeed]
    rfl

theorem finish_of_extends (h : m.Extends m') {here : Location}
    (hfinish : p.finish m here = some (.ok v, p')) : p.finish m' here = some (.ok v, p') := by
  cases finished hfinish with
  | accepted hfeed =>
    rw [finish_eq, h.advance hfeed]
    rfl

theorem addTokens_of_extends (h : m.Extends m') {ts : List (Token V)}
    (hadd : p.addTokens m ts = some (.ok v, p')) : p.addTokens m' ts = some (.ok v, p') := by
  induction ts generalizing p with
  | nil => exact finish_of_extends h hadd
  | cons t ts ih =>
    rw [addTokens] at hadd ⊢
    by_cases hend : t.terminal = Grammar.endName
    · rw [if_pos hend] at hadd ⊢
      exact finish_of_extends h hadd
    · rw [if_neg hend] at hadd ⊢
      obtain ⟨⟨result, q⟩, htoken, hadd⟩ := Option.bind_eq_some_iff.1 hadd
      cases result with
      | error e => cases hadd
      | ok u => exact Option.bind_eq_some_iff.2 ⟨_, addToken_of_extends h htoken, ih hadd⟩

/-- An input that has a value keeps it, and the context is left the same. -/
theorem parse_of_extends (h : m.Extends m') {ts : List (Token V)}
    (hparse : p.parse m ts = some (.ok v, p')) : p.parse m' ts = some (.ok v, p') :=
  addTokens_of_extends h hparse

end Parser

/-! Two machines do the same with all terminals that both have. -/

theorem Lookahead.Rel.terminal {R : Nat → Nat → Prop} (hzero : R 0 0) {ahead ahead' : Lookahead V}
    (h : Lookahead.Rel R ahead ahead') : R ahead.terminal ahead'.terminal := by
  cases h with
  | token h => exact h
  | endOfInput => exact hzero

theorem Grammar.WellFormed.eq_endName {g : Grammar ν} (h : g.WellFormed) {name : String}
    (hname : g.terminal? name = some 0) : name = Grammar.endName := by
  rw [← terminalName_of_terminal? hname, terminalName_of_terminal? h.terminal?_endName]

theorem Grammar.WellFormed.shares_zero {g g' : Grammar ν} (h : g.WellFormed) (h' : g'.WellFormed) :
    g.Shares g' 0 0 := ⟨endName, h.terminal?_endName, h'.terminal?_endName⟩

def Call.tokens : Call V → List (Token V)
  | .addToken t => [t]
  | .parse ts => ts
  | .finish _ | .reset => []

/-- Each token is of a terminal that both grammars have. -/
def Grammar.BothKnow (g g' : Grammar ν) (ts : List (Token V)) : Prop :=
  ∀ t ∈ ts, g.isTerminal t.terminal = true ∧ g'.isTerminal t.terminal = true

structure Machine.Matches (m m' : Machine ν σ V) : Prop where
  wellFormed : m.table.grammar.WellFormed
  wellFormed' : m'.table.grammar.WellFormed
  advance {ahead ahead' : Lookahead V} (here : Location) (stack : Stack V) (c : σ) :
    Lookahead.Rel (m.table.grammar.Shares m'.table.grammar) ahead ahead' →
      m'.advance ahead' here stack c = m.advance ahead here stack c

theorem Machine.Agrees.matches_of_lookups {m m' : Machine ν σ V} (h : m.Agrees m')
    (hwf : m.table.grammar.WellFormed) (hwf' : m'.table.grammar.WellFormed)
    (hlookup : ∀ q a a', m.table.grammar.Shares m'.table.grammar a a' →
      m'.table.lookup q a' = m.table.lookup q a)
    (hexpected : ∀ q, m'.table.expectedNames q = m.table.expectedNames q) : m.Matches m' where
  wellFormed := hwf
  wellFormed' := hwf'
  advance {ahead ahead'} here stack c hahead := by
    have hshares := hahead.terminal (hwf.shares_zero hwf')
    have hstep : ∀ stack : Stack V, m'.step stack ahead' here = m.step stack ahead here :=
      fun stack => h.step here hahead (hlookup _ _ _ hshares) fun _ =>
        ⟨hshares.terminalName_eq, hexpected _⟩
    apply Option.ext
    rintro ⟨result, c'⟩
    constructor
    · refine advance_of_reduces (fun x y hxy => ?_) (fun x c hx => ?_)
      · rwa [Reduces, ← hstep]
      · rwa [Ends, ← hstep]
    · refine advance_of_reduces (fun x y hxy => ?_) (fun x c hx => ?_)
      · rwa [Reduces, hstep]
      · rwa [Ends, hstep]

namespace Parser

variable {m m' : Machine ν σ V} (h : m.Matches m')

include h

theorem addToken_of_matches (p : Parser σ V) {t : Token V}
    (ht : m.table.grammar.isTerminal t.terminal = true)
    (ht' : m'.table.grammar.isTerminal t.terminal = true) :
    p.addToken m' t = p.addToken m t := by
  have ha := Grammar.terminal?_eq_some_iff.2 ⟨List.contains_iff_mem.1 ht, rfl⟩
  have ha' := Grammar.terminal?_eq_some_iff.2 ⟨List.contains_iff_mem.1 ht', rfl⟩
  by_cases hend : t.terminal = Grammar.endName
  · unfold addToken
    rw [hend, h.wellFormed.terminal?_endName, h.wellFormed'.terminal?_endName]
    rfl
  · rw [addToken_eq p ha fun hzero => hend (h.wellFormed.eq_endName (hzero ▸ ha)),
      addToken_eq p ha' fun hzero => hend (h.wellFormed'.eq_endName (hzero ▸ ha')),
      h.advance t.location p.stack p.context (.token ⟨t.terminal, ha, ha'⟩ t.value)]

theorem finish_of_matches (p : Parser σ V) (here : Location) :
    p.finish m' here = p.finish m here := by
  rw [finish_eq, finish_eq, h.advance here p.stack p.context .endOfInput]

theorem addTokens_of_matches (p : Parser σ V) {ts : List (Token V)}
    (hts : m.table.grammar.BothKnow m'.table.grammar ts) :
    p.addTokens m' ts = p.addTokens m ts := by
  induction ts generalizing p with
  | nil => exact finish_of_matches h p p.location
  | cons t ts ih =>
    obtain ⟨ht, hrest⟩ := List.forall_mem_cons.1 hts
    simp only [addTokens, finish_of_matches h, addToken_of_matches h p ht.1 ht.2, ih _ hrest]

theorem call_of_matches (p : Parser σ V) {call : Call V}
    (hcall : m.table.grammar.BothKnow m'.table.grammar call.tokens) :
    p.call m' call = p.call m call := by
  cases call with
  | addToken t =>
    obtain ⟨ht, ht'⟩ := hcall t (List.mem_singleton_self t)
    simp only [Parser.call, addToken_of_matches h p ht ht']
  | finish here => simp only [Parser.call, finish_of_matches h]
  | parse ts =>
    have hts : m.table.grammar.BothKnow m'.table.grammar ts := hcall
    simp only [Parser.call, parse, addTokens_of_matches h p.reset hts]
  | reset => rfl

theorem calls_of_matches (p : Parser σ V) {calls : List (Call V)}
    (hcalls : ∀ call ∈ calls, m.table.grammar.BothKnow m'.table.grammar call.tokens) :
    p.calls m' calls = p.calls m calls := by
  induction calls generalizing p with
  | nil => rfl
  | cons call calls ih =>
    obtain ⟨hcall, hrest⟩ := List.forall_mem_cons.1 hcalls
    simp only [Parser.calls, call_of_matches h p hcall, ih _ hrest]

end Parser

/-! The machines of tables that are alike. -/

section Tables

variable {t t' : Table ν} {names : List String} (hm : t.IsBuilt) (hm' : t'.IsBuilt)
  (h : Grammar.Alike names t.grammar t'.grammar)

include hm hm' h

theorem Machine.agrees_ofSemantics (sem : Semantics ν σ V) :
    (Machine.ofSemantics t sem).Agrees (.ofSemantics t' sem) where
  production?_bare := h.production?_bare
  goto? := Table.goto?_eq_of_alike hm hm' h
  act r values := by
    have hbare : (t'.production? r).map Production.bare = (t.production? r).map Production.bare :=
      h.production?_bare r
    simp only [ofSemantics]
    cases hp : t.production? r <;> cases hp' : t'.production? r <;> rw [hp, hp'] at hbare
    · cases hbare
    · cases hbare
    · next p p' =>
      have hroutine : p'.routine = p.routine :=
        congrArg BareProduction.routine (Option.some.inj hbare)
      simp only [Production.run, hroutine]

theorem Machine.agrees_recording (sem : Semantics ν σ V) :
    (Machine.recording t sem).Agrees (.recording t' sem) where
  production?_bare := h.production?_bare
  goto? := Table.goto?_eq_of_alike hm hm' h
  act r values := by
    have hact := (Machine.agrees_ofSemantics hm hm' h sem.noting).act r values
    simp only [recording, hact]

end Tables

end Lalr
