import Lalr.Proofs.Parser.Alike
import Lalr.Proofs.Table.Precedence

/-!
Where no cell has more than one candidate, precedence makes no difference to what a parser does.
-/

namespace Lalr

variable {ν σ V : Type}

/-- The same candidates, and the same fallbacks. -/
theorem Table.lookup_of_shares {t t' : Table ν} {names : List String} (hm : t.IsBuilt)
    (hm' : t'.IsBuilt) (h : Grammar.Alike names t.grammar t'.grammar) (hone : t.Unambiguous)
    (hfallback : ∀ a a', t.grammar.Shares t'.grammar a a' →
      Option.Rel (t.grammar.Shares t'.grammar) (t.grammar.fallback? a) (t'.grammar.fallback? a'))
    {q a a' : Nat} (ha : t.grammar.Shares t'.grammar a a') : t'.lookup q a' = t.lookup q a := by
  have hmove := @move_of_shares _ _ _ _ hm hm' h hone q
  have hfallbacks : (t'.grammar.fallback? a').map (t'.move q) =
      (t.grammar.fallback? a).map (t.move q) := by
    have hrel := hfallback a a' ha
    revert hrel
    generalize t.grammar.fallback? a = u, t'.grammar.fallback? a' = u'
    rintro (hu | _)
    · exact congrArg some (hmove hu)
    · rfl
  rw [lookup_eq, lookup_eq, hmove ha, hfallbacks]

/-- All calls are answered alike, and leave the same parser, as long as both tables have the
terminals. -/
def Machine.AnswersAlike (m m' : Machine ν σ V) : Prop :=
  ∀ (p : Parser σ V) (calls : List (Call V)),
    (∀ call ∈ calls, m.table.grammar.BothKnow m'.table.grammar call.tokens) →
      p.calls m' calls = p.calls m calls

theorem Machine.Matches.answersAlike {m m' : Machine ν σ V} (h : m.Matches m') :
    m.AnswersAlike m' :=
  fun p _ => Parser.calls_of_matches h p

namespace Spec

variable {declarations declarations' : List (Site × Declaration ν)} {spec spec' : Spec ν}
  {t t' : Table ν}

theorem grammar_of_build (h : spec.build = .ok t) :
    spec.startName ∈ spec.lhsNames ∧ t.grammar = spec.grammar :=
  assemble_eq_ok (assemble_of_build h)

/-- Where tokens, rules, start and fallbacks are the same, precedence is all that tells two tables
apart. They have the same rules, states, items with lookaheads, transitions and gotos, and the same
candidates for each cell, and a cell is the same where there is no more than one. Terminals that
neither tokens nor rules speak of have no moves. And if no cell has more than one candidate, calls
with terminals of both tables are answered alike, in all that actions are run with, ask of the
context and are answered. -/
theorem Alike.ranks_decide_conflicts (h : spec.Alike spec')
    (hfallbacks : spec'.fallbackNames = spec.fallbackNames)
    (hspec : Spec.declareAll {} declarations = .ok spec) (hbuild : spec.build = .ok t)
    (hspec' : Spec.declareAll {} declarations' = .ok spec') (hbuild' : spec'.build = .ok t') :
    t.DiffersInRanks t' ∧
    (∀ name, ¬ spec.Mentions name →
      (t.grammar.isTerminal name = true → t.IsBlankOn name) ∧
      (t'.grammar.isTerminal name = true → t'.IsBlankOn name)) ∧
    (t.Unambiguous → ∀ {σ V : Type} (sem : Semantics ν σ V),
      (Machine.ofSemantics t sem).AnswersAlike (.ofSemantics t' sem) ∧
      (Machine.recording t sem).AnswersAlike (.recording t' sem)) := by
  have hm : t.IsBuilt := ⟨_, _, hspec, hbuild⟩
  have hm' : t'.IsBuilt := ⟨_, _, hspec', hbuild'⟩
  obtain ⟨hstart, hgrammar⟩ := grammar_of_build hbuild
  obtain ⟨-, hgrammar'⟩ := grammar_of_build hbuild'
  have halike : Grammar.Alike spec.basis t.grammar t'.grammar := by
    rw [hgrammar, hgrammar']
    exact h.grammar (Unreserved.declareAll hspec) hstart
  refine ⟨Table.differsInRanks_of_alike hm hm' halike, fun name hname =>
    Table.isBlankOn_of_not_mem hm hm' halike (mt mentions_of_mem_basis hname),
    fun hone {σ V} sem => ?_⟩
  have hlookup : ∀ q a a', t.grammar.Shares t'.grammar a a' → t'.lookup q a' = t.lookup q a := by
    refine fun q a a' => Table.lookup_of_shares hm hm' halike hone fun a a' ha => ?_
    rw [hgrammar, hgrammar'] at ha ⊢
    exact rel_fallback? hfallbacks ha
  have hexpected := Table.expectedNames_of_alike hm hm' halike hone
  constructor
  · exact ((Machine.agrees_ofSemantics hm hm' halike sem).matches_of_lookups hm.wellFormed
      hm'.wellFormed hlookup hexpected).answersAlike
  · exact ((Machine.agrees_recording hm hm' halike sem).matches_of_lookups hm.wellFormed
      hm'.wellFormed hlookup hexpected).answersAlike

end Spec

namespace Sums

/-- Everything about precedence, which sums can do without. -/
def ranked : List (Site × Declaration Unit) :=
  [(default, .tokens "n"), (default, .bands [(.left, "+ LOW")]),
    (default, .rule "sum" "sum + n" (.native ()) (some "LOW")),
    (default, .rule "sum" "n" (.native ()) none), (default, .policy .reject)]

def rankedSpec : Spec Unit := (Spec.declareAll {} ranked).toOption.get (by decide +kernel)

def rankedTable : Table Unit := rankedSpec.build.toOption.get (by decide +kernel)

theorem alike_rankedSpec : spec.Alike rankedSpec where
  tokenNames := rfl
  rules := rfl
  startName := rfl

/-- Adds up, and counts how often. -/
def adding : Semantics Unit Nat Nat where
  literal _ := pure 0
  call _ _ := pure 0
  native _ values := do
    modify (· + 1)
    pure (values.foldl (· + ·) 0)

/-- Calls are answered alike, also those that fail. -/
theorem ranks_decide_nothing :
    table.DiffersInRanks rankedTable ∧ rankedTable.IsBlankOn "LOW" ∧
    ∃ answers q,
      ({ context := 0 } : Parser Nat Nat).calls (.ofSemantics table adding) asked =
        some (answers, q) ∧
      ({ context := 0 } : Parser Nat Nat).calls (.ofSemantics rankedTable adding) asked =
        some (answers, q) := by
  obtain ⟨hranks, hblank, hanswers⟩ := alike_rankedSpec.ranks_decide_conflicts rfl declareAll_eq
    (Except.eq_ok_get spec.build _) (Except.eq_ok_get (Spec.declareAll {} ranked) _)
    (Except.eq_ok_get rankedSpec.build _)
  have hlow : ¬ spec.Mentions "LOW" := by
    unfold Spec.Mentions
    decide +kernel
  have hterminal : rankedTable.grammar.isTerminal "LOW" = true := by decide +kernel
  refine ⟨hranks, (hblank "LOW" hlow).2 hterminal, ?_⟩
  obtain ⟨answers, q, hcalls, -⟩ := (Parser.Sound.of_stack (.ofSemantics table adding)
    (p := ({ context := 0 } : Parser Nat Nat)) rfl).exists_calls isBuilt unambiguous
      fallback?_eq_none asked
  refine ⟨answers, q, hcalls, ?_⟩
  rw [← hcalls]
  refine (hanswers unambiguous adding).1 _ _ ?_
  unfold Grammar.BothKnow
  decide +kernel

end Sums
end Lalr
