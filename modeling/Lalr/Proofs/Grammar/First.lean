import Lalr.Proofs.Cfg.First
import Lalr.Proofs.Grammar.Assembly

/-!
What is computed of the nonterminals of an assembled grammar is what its derivations say of them,
also where rules lead back to themselves or never come to an end.
-/

namespace Lalr

variable {ν : Type}

/-- The sets say of nonterminals, and of symbols in a row, what the grammar derives from them. -/
structure FirstSets.Describe (f : FirstSets) (g : Cfg) : Prop where
  size_first : f.first.size = g.nonterminals
  mem_nullable_iff {n : Nat} : n ∈ f.nullable ↔ g.Derives [.nonterminal n] []
  mem_first_iff {n t : Nat} :
    t ∈ f.first.getD n ∅ ↔ ∃ w, g.Derives [.nonterminal n] (.terminal t :: w)
  vanish_iff {xs : List Sym} : f.vanish xs = true ↔ g.Derives xs []
  mem_ofSyms_iff {xs : List Sym} {t : Nat} :
    t ∈ f.ofSyms xs ↔ ∃ w, g.Derives xs (.terminal t :: w)

theorem FirstSets.mem_ofSyms_nonterminal {f : FirstSets} {n t : Nat} :
    t ∈ f.ofSyms [.nonterminal n] ↔ t ∈ f.first.getD n ∅ := by
  simp [Cfg.mem_ofSyms_iff_fronts, fronts, FirstSets.ofSym]

/-- All that is asked of the rules is that they are for nonterminals of the grammar. -/
theorem Cfg.firstSets_describe {g : Cfg} (hlhs : ∀ {n r}, r ∈ g.rulesOf n → n < g.nonterminals) :
    g.firstSets.Describe g where
  size_first := g.firstFlow.size_solve
  mem_nullable_iff := mem_nullable_iff_yields.trans derives_iff_yields.symm
  mem_first_iff := FirstSets.mem_ofSyms_nonterminal.symm.trans (mem_ofSyms_iff_begins hlhs)
  vanish_iff := vanish_iff_derives
  mem_ofSyms_iff := mem_ofSyms_iff_begins hlhs

/-- First terminals and vanishing symbols are those of the derivations of the grammar. -/
theorem Grammar.IsAssembled.describe_firstSets {g : Grammar ν} (h : g.IsAssembled) :
    g.cfg.firstSets.Describe g.cfg := Cfg.firstSets_describe h.wellFormed.cfg.lt_nonterminals

/-! A list that begins with a list, two nonterminals that are each other, and one without end. -/

namespace Circles

def declarations : List (Site × Declaration Unit) :=
  [(default, .tokens "x y"), (default, .rule "list" "" (.native ()) none),
    (default, .rule "list" "list item" (.native ()) none),
    (default, .rule "list" "endless y" (.native ()) none),
    (default, .rule "item" "thing" (.native ()) none),
    (default, .rule "item" "list x" (.native ()) none),
    (default, .rule "thing" "item" (.native ()) none),
    (default, .rule "endless" "item endless" (.native ()) none)]

def spec : Spec Unit := (Spec.declareAll {} declarations).toOption.get (by decide +kernel)

def grammar : Grammar Unit := spec.assemble.toOption.get (by decide +kernel)

end Circles

/-- What is endless begins with items all the same, and they with an x. -/
theorem Circles.describe_endless :
    grammar.IsAssembled ∧ grammar.cfg.Derives [.nonterminal 1] [] ∧
      ¬ grammar.cfg.Derives [.nonterminal 4] [] ∧
      (∃ w, grammar.cfg.Derives [.nonterminal 4] (.terminal 1 :: w)) ∧
      ¬ ∃ w, grammar.cfg.Derives [.nonterminal 3, .nonterminal 1] (.terminal 2 :: w) := by
  have hassembled : grammar.IsAssembled :=
    ⟨declarations, spec, Except.eq_ok_get _ _, Except.eq_ok_get _ _⟩
  have hdescribe := Grammar.IsAssembled.describe_firstSets hassembled
  refine ⟨hassembled, ?_, ?_, ?_, ?_⟩
  · exact hdescribe.mem_nullable_iff.1 (by decide +kernel)
  · exact fun h => absurd (hdescribe.mem_nullable_iff.2 h) (by decide +kernel)
  · exact hdescribe.mem_first_iff.1 (by decide +kernel)
  · exact fun h => absurd (hdescribe.mem_ofSyms_iff.2 h) (by decide +kernel)

end Lalr
