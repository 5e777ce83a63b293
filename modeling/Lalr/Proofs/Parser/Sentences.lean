import Lalr.Proofs.Parser.Driving
import Lalr.Proofs.Parser.Push
import Mathlib.Data.List.TakeWhile

/-!
Parsing tokens that have the names of terminals: to push them is to drive the machine over them, and
to parse the leaves of a derivation is to run it.
-/

namespace Lalr

variable {ν σ V : Type}

namespace Cfg

variable {g : Cfg}

theorem WellFormed.ordinary_start {terminals start : Nat} (h : g.WellFormed terminals start) :
    (Sym.nonterminal start).Ordinary terminals g.nonterminals := by
  apply h.ordinary (r := 0)
  rw [h.rhs_zero]
  exact List.mem_singleton_self _

theorem WellFormed.ordinary_of_leaf {terminals start : Nat} (h : g.WellFormed terminals start)
    {f : Forest V} (hf : g.Derivation [.nonterminal start] f) {x : Nat × Token V}
    (hx : x ∈ f.leaves) : 0 < x.1 ∧ x.1 < terminals :=
  h.ordinary_of_yields hf.yields (by simpa using h.ordinary_start) (.terminal x.1)
    (List.mem_map_of_mem hx)

end Cfg

namespace Parser

variable {m : Machine ν σ V}

def taken (here : Location) :
    Except ParseError (Ending V) × σ → Except ParseError Unit × Parser σ V
  | (.ok e, context) => (.ok (), { context, stack := e.stack, location := here })
  | (.error e, context) => (.error e, { context })

def outcome : Except ParseError (Ending V) × σ → Except ParseError V × Parser σ V
  | (.ok (.accepted v _), context) => (.ok v, { context })
  | (.ok (.shifted _), context) => (.error .noValue, { context })
  | (.error e, context) => (.error e, { context })

theorem addToken_eq (p : Parser σ V) {t : Token V} {a : Nat}
    (ha : m.table.grammar.terminal? t.terminal = some a) (hne : a ≠ 0) :
    p.addToken m t =
      (m.advance (.token a t.value) t.location p.stack p.context).map (taken t.location) := by
  unfold addToken feed
  split
  · next h => simp [ha] at h
  · next h => simp_all
  · next b _ h =>
    obtain rfl : a = b := by simpa [ha] using h
    rcases m.advance (.token a t.value) t.location p.stack p.context with _ | ⟨_ | _, _⟩ <;> rfl

theorem finish_eq (p : Parser σ V) (here : Location) :
    p.finish m here = (m.advance .endOfInput here p.stack p.context).map outcome := by
  unfold finish feed
  rcases m.advance .endOfInput here p.stack p.context with _ | ⟨_ | _ | _, _⟩ <;> rfl

/-- The names of the tokens are those of the terminals, none of which is the end. -/
def Named (m : Machine ν σ V) (leaves : List (Nat × Token V)) : Prop :=
  ∀ x ∈ leaves, m.table.grammar.terminal? x.2.terminal = some x.1 ∧ x.1 ≠ 0

theorem Named.ne_endName (hm : m.table.IsBuilt) {leaves : List (Nat × Token V)}
    (h : Named m leaves) {x : Nat × Token V} (hx : x ∈ leaves) :
    x.2.terminal ≠ Grammar.endName := by
  intro heq
  obtain ⟨hname, hne⟩ := h x hx
  rw [heq, hm.wellFormed.terminal?_endName, Option.some.injEq] at hname
  exact hne hname.symm

theorem push_eq_drive (hm : m.table.IsBuilt) {leaves : List (Nat × Token V)}
    (h : Named m leaves) (e : Ending V) (c : σ) (here : Location) :
    ({ context := c, stack := e.stack, location := here } : Parser σ V).push m
        (leaves.map (·.2)) =
      (m.drive e c (leaves.map ahead)).map (taken (endOf here (leaves.map (·.2)))) := by
  induction leaves generalizing e c here with
  | nil => rfl
  | cons x leaves ih =>
    have hend := h.ne_endName hm (List.mem_cons_self ..)
    have hx := h x (List.mem_cons_self ..)
    have hleaves : Named m leaves := fun y hy => h y (List.mem_cons_of_mem _ hy)
    simp only [List.map_cons, push, addToken_eq _ hx.1 hx.2, Machine.drive, ahead, endOf,
      if_neg hend]
    rcases m.advance (.token x.1 x.2.value) x.2.location e.stack c with _ | ⟨e' | e', c'⟩
    · rfl
    · rfl
    · exact ih hleaves e' c' x.2.location

theorem parse_eq_drive (hm : m.table.IsBuilt) {leaves : List (Nat × Token V)}
    (h : Named m leaves) (p : Parser σ V) :
    p.parse m (leaves.map (·.2)) =
      (m.drive (.shifted []) p.context (leaves.map ahead ++
        [(.endOfInput, endOf {} (leaves.map (·.2)))])).map outcome := by
  have hinput : inputOf (leaves.map (·.2)) = leaves.map (·.2) := by
    refine List.takeWhile_eq_self_iff.2 fun t ht => ?_
    obtain ⟨x, hx, rfl⟩ := List.mem_map.1 ht
    simpa using h.ne_endName hm hx
  have hpush : p.reset.push m (leaves.map (·.2)) =
      (m.drive (.shifted []) p.context (leaves.map ahead)).map
        (taken (endOf {} (leaves.map (·.2)))) :=
    push_eq_drive hm h (.shifted []) p.context {}
  rw [parse, addTokens_eq, hinput, hpush, Machine.drive_append]
  rcases m.drive (.shifted []) p.context (leaves.map ahead) with _ | ⟨e | e, c⟩
  · rfl
  · rfl
  · simp [taken, finish_eq, Machine.drive_singleton, reset]

/-- To parse the leaves of a derivation is to run it. -/
theorem parse_sentence (hm : m.table.IsBuilt) (hone : m.table.Unambiguous) {f : Forest V}
    (hf : m.table.cfg.Derivation [.nonterminal m.table.grammar.start] f)
    (hnames : ∀ x ∈ f.leaves, m.table.grammar.terminal? x.2.terminal = some x.1)
    (p : Parser σ V) :
    (∃ v c, (f.run m (endOf {} (f.leaves.map (·.2)))).run.run p.context = (.ok [v], c) ∧
      p.parse m (f.leaves.map (·.2)) = some (.ok v, { context := c })) ∨
    ∃ r place cause c, (f.run m (endOf {} (f.leaves.map (·.2)))).run.run p.context =
        (.error (.action (m.table.ruleText r) place cause), c) ∧
      p.parse m (f.leaves.map (·.2)) =
        some (.error (.action (m.table.ruleText r) place cause), { context := c }) := by
  have hnamed : Named m f.leaves := fun x hx =>
    ⟨hnames x hx, Nat.ne_of_gt (hm.wellFormed.cfg.ordinary_of_leaf hf hx).1⟩
  have hparse := parse_eq_drive hm hnamed p
  rcases Machine.drive_sentence hm hone hf p.context (endOf {} (f.leaves.map (·.2))) with
    ⟨v, c, hrun, hdrive⟩ | ⟨e, c, hrun, hdrive⟩
  · rw [hdrive] at hparse
    exact .inl ⟨v, c, hrun, hparse⟩
  · rw [hdrive] at hparse
    obtain ⟨r, place, cause, rfl⟩ := Forest.run_error hrun
    exact .inr ⟨r, place, cause, c, hrun, hparse⟩

end Parser

namespace Sums

/-- The actions add what is on the right, and count how often they do. -/
def machine : Machine Unit Nat Nat :=
  ⟨table, fun _ values context => (.ok (values.foldl (· + ·) 0), context + 1)⟩

def tree (a b : Nat) : Forest Nat :=
  .node 1 (.node 2 (.leaf 1 ⟨"n", a, ⟨1, 1⟩⟩ .nil)
    (.leaf 2 ⟨"+", 0, ⟨1, 3⟩⟩ (.leaf 1 ⟨"n", b, ⟨1, 5⟩⟩ .nil))) .nil

theorem rhs_sum : table.cfg.rhs 1 = [.nonterminal 1, .terminal 2, .terminal 1] := by
  decide +kernel

theorem rhs_number : table.cfg.rhs 2 = [.terminal 1] := by decide +kernel

theorem derivation_tree (a b : Nat) :
    table.cfg.Derivation [.nonterminal table.grammar.start] (tree a b) := by
  have hnumber : table.cfg.Derivation (table.cfg.rhs 2)
      (.leaf 1 ⟨"n", a, ⟨1, 1⟩⟩ .nil) := by
    rw [rhs_number]
    exact .leaf 1 _ .nil
  have hstart : table.grammar.start = 1 := by decide +kernel
  rw [hstart]
  refine .node (by decide +kernel) ?_ .nil
  rw [rhs_sum]
  exact .node (by decide +kernel) hnumber (.leaf 2 _ (.leaf 1 _ .nil))

theorem terminal?_tree (a b : Nat) :
    ∀ x ∈ (tree a b).leaves, table.grammar.terminal? x.2.terminal = some x.1 := by
  have hn : table.grammar.terminal? "n" = some 1 := by decide +kernel
  have hplus : table.grammar.terminal? "+" = some 2 := by decide +kernel
  simp [tree, hn, hplus]

theorem run_tree (a b c : Nat) (here : Location) :
    ((tree a b).run machine here).run.run c = (.ok [a + b], c + 2) := by
  have hsum : 0 + (0 + a) + 0 + b = a + b := by omega
  rw [← hsum]
  rfl

theorem parse_tree (a b : Nat) (p : Parser Nat Nat) :
    p.parse machine ((tree a b).leaves.map (·.2)) =
      some (.ok (a + b), { context := p.context + 2 }) := by
  rcases Parser.parse_sentence (m := machine) isBuilt unambiguous (derivation_tree a b)
    (terminal?_tree a b) p with ⟨v, c, hrun, hparse⟩ | ⟨r, place, cause, c, hrun, -⟩
  · rw [run_tree] at hrun
    cases hrun
    exact hparse
  · rw [run_tree] at hrun
    cases hrun

end Sums
end Lalr
