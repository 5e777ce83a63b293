import Lalr.Proofs.Parser.Sentences

/-!
Where no cell has more than one candidate, whatever is derived is parsed, and it is derived in one
way only.
-/

namespace Lalr

variable {ν σ V : Type}

/-! The tree of a sentence, as a parser would build it. -/

namespace Forest

def trees : Forest V → List (Forest V)
  | nil => []
  | leaf a token rest => leaf a token nil :: rest.trees
  | node r children rest => node r children nil :: rest.trees

def join (trees : List (Forest V)) : Forest V := trees.foldr (· ++ ·) nil

@[simp] theorem join_trees (f : Forest V) : join f.trees = f := by
  induction f with
  | nil => rfl
  | leaf a token rest ih => simpa [join, trees] using ih
  | node r c rest _ ih => simpa [join, trees] using ih

/-- The same forest over tokens whose values are leaves. -/
def carry : Forest V → Forest (Forest V)
  | nil => nil
  | leaf a token rest => leaf a ⟨token.terminal, leaf a token nil, token.location⟩ rest.carry
  | node r children rest => node r children.carry rest.carry

@[simp] theorem leaves_carry (f : Forest V) : f.carry.leaves = f.leaves.map fun x =>
    (x.1, ⟨x.2.terminal, leaf x.1 x.2 nil, x.2.location⟩) := by
  induction f with
  | nil => rfl
  | leaf a token rest ih => simp [carry, ih]
  | node r c rest ihc ih => simp [carry, ihc, ih]

def grower (t : Table ν) : Machine ν Unit (Forest V) :=
  ⟨t, fun r trees => pure (node r (join trees) nil)⟩

theorem run_carry (t : Table ν) (f : Forest V) (next : Location) :
    (f.carry.run (grower t) next).run.run () = (.ok f.trees, ()) := by
  induction f generalizing next with
  | nil => rfl
  | leaf a token rest ih =>
    rw [carry, run, Parsing.run_bind_of_ok (ih next)]
    rfl
  | node r c rest ihc ih =>
    have hperform :
        ((grower t).perform r c.trees (c.carry.start (rest.carry.start next))).run.run () =
          (.ok (node r c nil), ()) := by
      rw [Machine.perform_run]
      simp only [grower, join_trees]
      rfl
    rw [carry, run, Parsing.run_bind_of_ok (ihc _), Parsing.run_bind_of_ok hperform,
      Parsing.run_bind_of_ok (ih next)]
    rfl

end Forest

theorem Cfg.Derivation.carry {g : Cfg} {xs : List Sym} {f : Forest V}
    (h : g.Derivation xs f) : g.Derivation xs f.carry := by
  induction h with
  | nil => exact .nil
  | leaf a _ _ ih => exact .leaf a _ ih
  | node hr _ _ ihc ih => exact .node hr ihc ih

theorem Machine.drive_grower {t : Table ν} (h : t.IsBuilt) (hone : t.Unambiguous) {f : Forest V}
    (hf : t.cfg.Derivation [.nonterminal t.grammar.start] f) :
    (Forest.grower t).drive (.shifted []) ()
      (f.carry.leaves.map ahead ++ [(.endOfInput, ({} : Location))]) =
      some (.ok (.accepted f []), ()) := by
  have hrun := f.run_carry t {}
  rcases drive_sentence (m := Forest.grower t) h hone hf.carry () {} with
    ⟨v, c, hrun', hdrive⟩ | ⟨e, c, hrun', -⟩
  · rw [hrun] at hrun'
    have htrees : f.trees = [v] := by simpa using congrArg Prod.fst hrun'
    have hv : v = f := by simpa [htrees, Forest.join] using f.join_trees
    rw [hdrive, hv]
  · rw [hrun] at hrun'
    cases hrun'

theorem Cfg.Derivation.unique {t : Table ν} (h : t.IsBuilt) (hone : t.Unambiguous)
    {f f' : Forest V} (hf : t.cfg.Derivation [.nonterminal t.grammar.start] f)
    (hf' : t.cfg.Derivation [.nonterminal t.grammar.start] f')
    (hleaves : f'.leaves = f.leaves) : f' = f := by
  have hdrive := Machine.drive_grower h hone hf
  have hdrive' := Machine.drive_grower h hone hf'
  rw [Forest.leaves_carry] at hdrive hdrive'
  rw [hleaves, hdrive] at hdrive'
  cases hdrive'
  rfl

namespace Parser

variable {m : Machine ν σ V}

/-- A sentence is parsed with the value of its tree, unless an action fails, and it has no other
tree. -/
theorem parse_of_derivation (hm : m.table.IsBuilt) (hone : m.table.Unambiguous) {f : Forest V}
    (hf : m.table.cfg.Derivation [.nonterminal m.table.grammar.start] f)
    (hnames : ∀ x ∈ f.leaves, m.table.grammar.terminal? x.2.terminal = some x.1) :
    (∀ p : Parser σ V,
      (∃ v c, (f.run m (endOf {} (f.leaves.map (·.2)))).run.run p.context = (.ok [v], c) ∧
        p.parse m (f.leaves.map (·.2)) = some (.ok v, { context := c })) ∨
      ∃ r place cause c, (f.run m (endOf {} (f.leaves.map (·.2)))).run.run p.context =
          (.error (.action (m.table.ruleText r) place cause), c) ∧
        p.parse m (f.leaves.map (·.2)) =
          some (.error (.action (m.table.ruleText r) place cause), { context := c })) ∧
    ∀ f' : Forest V, m.table.cfg.Derivation [.nonterminal m.table.grammar.start] f' →
      f'.leaves = f.leaves → f' = f := by
  exact ⟨parse_sentence hm hone hf hnames, fun f' hf' => Cfg.Derivation.unique hm hone hf hf'⟩

end Parser

/-- A sum is parsed, and it has no other tree. -/
theorem Sums.parse_eq_of_sum :
    ({ context := 0 } : Parser Nat Nat).parse machine ((tree 1 2).leaves.map (·.2)) =
        some (.ok 3, { context := 2 }) ∧
      ∀ f, table.cfg.Derivation [.nonterminal table.grammar.start] f →
        f.leaves = (tree 1 2).leaves → f = tree 1 2 := by
  obtain ⟨hparses, hunique⟩ := Parser.parse_of_derivation (m := machine) isBuilt unambiguous
    (derivation_tree 1 2) (terminal?_tree 1 2)
  refine ⟨?_, hunique⟩
  rcases hparses { context := 0 } with ⟨v, c, hrun, hparse⟩ | ⟨r, place, cause, c, hrun, -⟩
  · rw [run_tree] at hrun
    cases hrun
    exact hparse
  · rw [run_tree] at hrun
    cases hrun

end Lalr
