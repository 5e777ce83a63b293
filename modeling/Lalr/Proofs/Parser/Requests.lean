import Lalr.Proofs.Grammar.Templates
import Lalr.Proofs.Operators.RoundTrip
import Lalr.Proofs.Parser.Actions
import Lalr.Proofs.Parser.Mirror
import Lalr.Proofs.Template.Compile
import Lalr.Proofs.Template.Requests

/-!
What actions ask for while a parser runs. Each action that is run is noted down in the context with
all that it asks for, which changes no call. Where the action is a template, it then never fails for
a reason of its own, and it calls helpers that were declared.
-/

namespace Lalr

variable {ν σ V : Type}

open Relation (ReflTransGen)

/-- An action that was run, and what it asked for. -/
structure Run (V : Type) where
  rule : Nat
  values : List V
  asked : Requests V
  result : Except ActionError V

/-- Keeps all runs of actions, the earliest first. -/
def Machine.recording (t : Table ν) (sem : Semantics ν σ V) : Machine ν (σ × List (Run V)) V where
  table := t
  act r values := fun (c, runs) =>
    let (result, c', asked) := ((ofSemantics t sem.noting).act r values).run.run (c, [])
    (result, c', runs ++ [⟨r, values, asked, result⟩])

/-- The rule has a symbol for each of the values. If the action is a template, it came to a value
unless the last of its requests was refused, and it called only helpers that were declared. -/
def Run.InScope (t : Table ν) (declarations : List (Site × Declaration ν)) (run : Run V) : Prop :=
  ∃ p, t.production? run.rule = some p ∧ run.values.length = p.rule.rhs.length ∧
    ∀ template, p.body = .template template → Answered (fun _ => True) run.asked run.result ∧
      ∀ helper args answer, (.call helper args, answer) ∈ run.asked →
        ∃ site names, (site, .helpers names) ∈ declarations ∧ helper ∈ Text.words names

variable {declarations : List (Site × Declaration ν)} {spec : Spec ν} {t : Table ν}
  {sem : Semantics ν σ V}

theorem Spec.assemble_of_build (h : spec.build = .ok t) : spec.assemble = .ok t.grammar := by
  obtain ⟨g, hg, hbuild⟩ := build_eq_ok_iff.1 h
  unfold Grammar.build Analysis.build at hbuild
  split at hbuild
  · cases hbuild
    exact hg
  · cases hbuild
  · cases hbuild

/-- What a production does is prepared from what its author wants done. -/
theorem Spec.routine_of_build (h : spec.build = .ok t) {r : Nat} {p : Production ν}
    (hp : t.production? r = some p) : p.routine = p.body.prepare := by
  obtain ⟨rule, -, rfl⟩ := Spec.mem_allRules_of_production (Spec.assemble_of_build h) hp
  rfl

namespace Machine

theorem act_of_template (h : spec.build = .ok t) {r : Nat} {p : Production ν}
    (hp : t.production? r = some p) {template : Template} (hbody : p.body = .template template)
    (values : List V) : (ofSemantics t sem).act r values = template.eval sem values := by
  simp only [ofSemantics, hp, Production.run, Spec.routine_of_build h hp, hbody]
  exact Template.run_compile sem values template

theorem act_noting (h : spec.build = .ok t) (r : Nat) (values : List V) :
    Follows Prod.fst ((ofSemantics t sem.noting).act r values)
      ((ofSemantics t sem).act r values) := by
  cases hp : t.production? r with
  | none =>
    simp only [ofSemantics, hp]
    exact .throw _
  | some p =>
    cases hbody : p.body with
    | template template =>
      rw [act_of_template h hp hbody, act_of_template h hp hbody]
      exact template.eval_noting sem values
    | native f =>
      simp only [ofSemantics, hp, Production.run, Spec.routine_of_build h hp, hbody]
      exact fun _ => rfl

theorem recording_act (r : Nat) (values : List V) (c : σ) (runs : List (Run V)) :
    ((recording t sem).act r values).run.run (c, runs) =
      match ((ofSemantics t sem.noting).act r values).run.run (c, []) with
      | (result, c', asked) => (result, c', runs ++ [⟨r, values, asked, result⟩]) := rfl

/-- Recording makes no difference. -/
theorem mirrors_recording (h : spec.build = .ok t) (sem : Semantics ν σ V) :
    (recording t sem).Mirrors (ofSemantics t sem) Prod.fst id where
  table := rfl
  act r values := by
    rintro ⟨c, runs⟩
    rw [List.map_id, act_noting h r values (c, []), recording_act]
    rcases ((ofSemantics t sem.noting).act r values).run.run (c, []) with ⟨_ | _, _⟩ <;> rfl

/-- Each action that is run is recorded, and those that are templates are in scope. -/
theorem exists_run_of_acts (hspec : Spec.declareAll {} declarations = .ok spec)
    (hbuild : spec.build = .ok t) {r : Nat} {c c' : σ × List (Run V)}
    {result : Except ActionError V} (h : (recording t sem).Acts r c result c') :
    ∃ run, c'.2 = c.2 ++ [run] ∧ run.rule = r ∧ run.result = result ∧
      run.InScope t declarations := by
  obtain ⟨c, runs⟩ := c
  obtain ⟨p, values, hp, hlength, hact⟩ := h
  rw [recording_act] at hact
  rcases hrun : ((ofSemantics t sem.noting).act r values).run.run (c, []) with ⟨result', c₁, asked⟩
  rw [hrun] at hact
  cases hact
  refine ⟨⟨r, values, asked, result⟩, rfl, rfl, rfl, p, hp, hlength, fun template hbody => ?_⟩
  have hscope := Spec.inScope_of_assemble hspec (Spec.assemble_of_build hbuild) hp hbody
  rw [← hlength] at hscope
  obtain ⟨result', c₂, asked', heval, hanswered, hhelpers⟩ := hscope.asks_eval sem c []
  rw [act_of_template hbuild hp hbody, heval, List.nil_append] at hrun
  cases hrun
  exact ⟨hanswered, fun helper args answer hmem =>
    (Spec.declaredBy_of_declareAll hspec).helper (hhelpers helper args answer hmem)⟩

/-- What is recorded stays, and all that is added is in scope. -/
theorem exists_runs_of_actsOn (hspec : Spec.declareAll {} declarations = .ok spec)
    (hbuild : spec.build = .ok t) {c c' : σ × List (Run V)}
    (h : ReflTransGen (recording t sem).ActsOn c c') :
    ∃ runs, c'.2 = c.2 ++ runs ∧ ∀ run ∈ runs, run.InScope t declarations := by
  induction h with
  | refl => exact ⟨[], (List.append_nil _).symm, nofun⟩
  | tail _ hstep ih =>
    obtain ⟨runs, hruns, hscope⟩ := ih
    obtain ⟨r, result, hacts⟩ := hstep
    obtain ⟨run, hrun, -, -, hrunScope⟩ := exists_run_of_acts hspec hbuild hacts
    refine ⟨runs ++ [run], by rw [hrun, hruns, List.append_assoc], ?_⟩
    rw [List.forall_mem_append, List.forall_mem_singleton]
    exact ⟨hscope, hrunScope⟩

end Machine

namespace Parser

/-- Calls on a parser that records the actions it runs are answered as those on one that does not,
and whatever moves the one makes, the other does too. Every error of an action is the result of a
run that was recorded. And all runs that ever come up are in scope: a template gets a value for each
symbol of its rule, it fails only where a request is refused, and it calls only helpers that were
declared. -/
theorem calls_ask (hspec : Spec.declareAll {} declarations = .ok spec) (hbuild : spec.build = .ok t)
    (sem : Semantics ν σ V) (c : σ) (calls : List (Call V)) :
    ({ context := c } : Parser σ V).calls (.ofSemantics t sem) calls =
      (({ context := (c, []) } : Parser (σ × List (Run V)) V).calls (.recording t sem) calls).map
        (Prod.map id (Parser.map Prod.fst id)) ∧
    ∀ answers q, ({ context := (c, []) } : Parser (σ × List (Run V)) V).calls (.recording t sem)
        calls = some (answers, q) →
      (∀ text place cause, .error (.action text place cause) ∈ answers →
        ∃ run ∈ q.context.2, t.ruleText run.rule = text ∧ run.result = .error cause) ∧
      ∀ ahead here,
        (∀ y, ReflTransGen ((Machine.ofSemantics t sem).Reduces ahead here)
            (q.stack, q.context.1) y →
          ∃ x, ReflTransGen ((Machine.recording t sem).Reduces ahead here) (q.stack, q.context) x ∧
            Prod.map id Prod.fst x = y) ∧
        ∀ x, ReflTransGen ((Machine.recording t sem).Reduces ahead here) (q.stack, q.context) x →
          ∀ run ∈ x.2.2, run.InScope t declarations := by
  have hm : t.IsBuilt := ⟨declarations, spec, hspec, hbuild⟩
  have hmirrors := Machine.mirrors_recording hbuild sem
  refine ⟨?_, fun answers q hcalls => ?_⟩
  · have hcalls := hmirrors.calls { context := (c, []) } calls
    simp only [Call.map_id, Option.map_id, Except.map_id, List.map_id_fun, id_eq] at hcalls
    exact hcalls
  have hsound : ({ context := (c, []) } : Parser (σ × List (Run V)) V).Sound (.recording t sem) :=
    .of_stack _ rfl
  obtain ⟨hacts, hfails⟩ := ran_of_calls hm hsound hcalls
  refine ⟨fun text place cause hmem => ?_, fun ahead here => ⟨fun y hy => ?_, fun x hx => ?_⟩⟩
  · obtain ⟨c', ⟨r, c₀, rfl, hfails⟩, hrest⟩ := hfails _ hmem text place cause rfl
    obtain ⟨run, hrun, rfl, hresult, -⟩ := Machine.exists_run_of_acts hspec hbuild hfails
    obtain ⟨runs, hruns, -⟩ := Machine.exists_runs_of_actsOn hspec hbuild hrest
    exact ⟨run, by simp [hruns, hrun], rfl, hresult⟩
  · have hy' : ReflTransGen ((Machine.ofSemantics t sem).Reduces (ahead.map id) here)
        (Prod.map (Stack.mapValues id) Prod.fst (q.stack, q.context)) y := by simpa using hy
    obtain ⟨x, hx, rfl⟩ := hmirrors.exists_reflTransGen hy'
    exact ⟨x, hx, by rw [Stack.mapValues_id]⟩
  · obtain ⟨first, γ, f, hgrown⟩ := (calls_keep_sound hm hsound hcalls).1
    have hsteps := Machine.actsOn_of_reduces hm (hgrown here) hx
    obtain ⟨runs, hruns, hscope⟩ := Machine.exists_runs_of_actsOn hspec hbuild (hacts.trans hsteps)
    rw [hruns, List.nil_append]
    exact hscope

end Parser

/-- `(1 - (2 - 3)) ^ 4` is parsed with every action in scope. -/
theorem Operators.Comparisons.calls_ask_of_parse :
    ∃ q, ({ context := (#[], []) } : Parser (Tree.Journal × List (Run Tree.Value)) Tree.Value).calls
        (.recording wording.table Tree.full) [.parse tokens] =
          some ([.ok (some (.node "Op" [.str "^", .node "Op" [.str "-", .int 1,
            .node "Op" [.str "-", .int 2, .int 3]], .int 4]))], q) ∧
      ∀ run ∈ q.context.2, run.InScope wording.table wording.declarations := by
  obtain ⟨hcalls, hrecorded⟩ :=
    Parser.calls_ask wording.declareAll_eq wording.build_eq Tree.full #[] [.parse tokens]
  obtain ⟨c, hparse⟩ := Layout.parse_print builds.makes expression spells_tokens
    ({ context := #[] } : Parser Tree.Journal Tree.Value)
  simp only [Parser.calls, Parser.call, hparse] at hcalls
  obtain ⟨⟨answers, q⟩, hq, heq⟩ := Option.map_eq_some_iff.1 hcalls.symm
  obtain rfl : answers = _ := congrArg Prod.fst heq
  exact ⟨q, hq, ((hrecorded _ q hq).2 .endOfInput {}).2 _ .refl⟩

end Lalr
