import Lalr.Proofs.Parser.Alike
import Lalr.Proofs.Table.Fallbacks

/-!
Fallbacks are added to declarations, and nothing is lost: a table is still built, with the states
and the moves that there were, and inputs that had a value have the same one.
-/

namespace Lalr

variable {ν σ V : Type}

/-- Inputs that have a value keep it, and leave the context as they did. -/
def Machine.Keeps (m m' : Machine ν σ V) : Prop :=
  ∀ (p q : Parser σ V) (ts : List (Token V)) (v : V),
    p.parse m ts = some (.ok v, q) → p.parse m' ts = some (.ok v, q)

theorem Machine.Extends.keeps {m m' : Machine ν σ V} (h : m.Extends m') : m.Keeps m' :=
  fun _ _ _ _ => Parser.parse_of_extends h

/-- A grammar without fallbacks, and one with the same rules and ranks. -/
theorem Machine.Agrees.extends_of_alike {m m' : Machine ν σ V} (hagrees : m.Agrees m')
    {g g' : Grammar ν} (h : Grammar.Alike g.terminalNames g g') (hrank : g'.ranking = g.ranking)
    (hm : (Analysis.ofGrammar g).table.IsBuilt) (hfallback : ∀ a, g.fallback? a = none)
    (htable : m.table = (Analysis.ofGrammar g).table)
    (htable' : m'.table = (Analysis.ofGrammar g').table) : m.Extends m' := by
  refine hagrees.extends_of_moves (fun {name a} ha => ?_) (fun a => ?_) fun q a hmove => ?_
  · rw [htable] at ha
    rw [htable']
    exact Grammar.terminal?_of_isPrefix h.isPrefix' ha
  · rw [htable]
    exact hfallback a
  · rw [htable] at hmove
    rw [htable, htable']
    exact Grammar.move_of_alike h hrank hm hmove

namespace Spec

variable {declarations : List (Site × Declaration ν)} {spec spec' : Spec ν} {t : Table ν}

theorem fallback?_withoutFallbacks (spec : Spec ν) (a : Nat) :
    spec.withoutFallbacks.grammar.fallback? a = none := by
  rw [Option.eq_none_iff_forall_ne_some]
  intro u hu
  obtain ⟨f, hf, -⟩ := fallback?_grammar hu
  exact List.not_mem_nil hf

/-- Where declarations without their fallbacks build a table and assemble with them as well, they
build a table with them, too. It has the same rules, states, items with lookaheads and gotos, and
the same cells for the terminals that there were; the columns of terminals that only fallbacks
speak of are blank. Whatever input had a value has that value, and the actions that are run on the
way are the same, with the same values, and ask the same of the context and are answered alike. -/
theorem build_of_fallbacks
    (hspec : Spec.declareAll {} (dropFallbacks declarations) = .ok spec)
    (hbuild : spec.build = .ok t)
    (hspec' : Spec.declareAll {} declarations = .ok spec') {g' : Grammar ν}
    (hassemble : spec'.assemble = .ok g') :
    ∃ t', spec'.build = .ok t' ∧ t.Extends t' ∧ ∀ {σ V : Type} (sem : Semantics ν σ V),
      (Machine.ofSemantics t sem).Keeps (.ofSemantics t' sem) ∧
      (Machine.recording t sem).Keeps (.recording t' sem) := by
  have hm : t.IsBuilt := ⟨_, _, hspec, hbuild⟩
  have hdropped : Spec.declareAll {} (dropFallbacks declarations) = .ok spec'.withoutFallbacks :=
    declareAll_dropFallbacks hspec'
  obtain rfl : spec'.withoutFallbacks = spec := Except.ok.inj (hdropped.symm.trans hspec)
  obtain ⟨hstart, rfl⟩ := assemble_eq_ok hassemble
  obtain ⟨g, hg, hgbuild⟩ := build_eq_ok_iff.1 hbuild
  obtain rfl := (assemble_eq_ok hg).2
  have halike := alike_grammar_withoutFallbacks (Unreserved.declareAll hspec) hstart
  have hrank := ranking_withoutFallbacks hstart
  have hbuild' := build_eq_ok_iff.2 ⟨_, hassemble, Grammar.build_of_alike halike hrank hgbuild⟩
  have hm' : (Analysis.ofGrammar spec'.grammar).table.IsBuilt := ⟨_, _, hspec', hbuild'⟩
  obtain ⟨-, -, rfl⟩ := Grammar.of_build hgbuild
  refine ⟨_, hbuild', Table.extends_of_alike hm hm' rfl rfl halike hrank, fun sem => ⟨?_, ?_⟩⟩
  · exact ((Machine.agrees_ofSemantics hm hm' halike sem).extends_of_alike halike hrank hm
      spec'.fallback?_withoutFallbacks rfl rfl).keeps
  · exact ((Machine.agrees_recording hm hm' halike sem).extends_of_alike halike hrank hm
      spec'.fallback?_withoutFallbacks rfl rfl).keeps

end Spec

namespace Operators.Comparisons

/-- Numbers can also be spelled out. -/
def withNumerals : List (Site × Declaration String) :=
  wording.declarations ++ [(⟨"calc", 3⟩, .fallback "NUM" "zero one")]

def specWithNumerals : Spec String :=
  (Spec.declareAll {} withNumerals).toOption.get (by decide +kernel)

theorem dropFallbacks_withNumerals : dropFallbacks withNumerals = wording.declarations := rfl

/-- `(1 - (2 - 3)) ^ 4` is parsed as before. -/
theorem build_withNumerals :
    ∃ t', specWithNumerals.build = .ok t' ∧ wording.table.Extends t' ∧ t'.IsBlankOn "zero" ∧
      ∃ q, ({ context := #[] } : Parser Tree.Journal Tree.Value).parse
          (.ofSemantics t' Tree.full) tokens =
        some (.ok (.node "Op" [.str "^", .node "Op" [.str "-", .int 1,
          .node "Op" [.str "-", .int 2, .int 3]], .int 4]), q) := by
  have hspec : Spec.declareAll {} (dropFallbacks withNumerals) = .ok wording.spec :=
    dropFallbacks_withNumerals ▸ wording.declareAll_eq
  obtain ⟨t', hbuild, hextends, hkeeps⟩ := Spec.build_of_fallbacks hspec wording.build_eq
    (Except.eq_ok_get _ _) (Except.eq_ok_get specWithNumerals.assemble (by decide +kernel))
  obtain ⟨c, hparse⟩ := Layout.parse_print builds.makes expression spells_tokens
    ({ context := #[] } : Parser Tree.Journal Tree.Value)
  have hgrammar : t'.grammar = specWithNumerals.grammar :=
    (Spec.assemble_eq_ok (Spec.assemble_of_build hbuild)).2
  have hold : wording.spec.grammar.isTerminal "zero" = false := by decide +kernel
  have hnew : specWithNumerals.grammar.isTerminal "zero" = true := by decide +kernel
  have hblank := hextends.isBlankOn_new hold (hgrammar ▸ hnew)
  exact ⟨t', hbuild, hextends, hblank, _, (hkeeps Tree.full).1 _ _ _ _ hparse⟩

end Operators.Comparisons
end Lalr
