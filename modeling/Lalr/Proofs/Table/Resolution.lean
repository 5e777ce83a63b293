import Lalr.Proofs.Table.Cells
import Mathlib.Order.Bounds.Basic

/-!
What precedence, associativity and the order of the rules make of a cell, said without a procedure,
and what the build comes to: its conflicts are the clashes of the cells, and without them there is a
table unless a rule is of no use.
-/

namespace Lalr

variable {ν : Type}

theorem head?_eq_some_iff_isLeast {xs : List Nat} (h : xs.Pairwise (· < ·)) {x : Nat} :
    xs.head? = some x ↔ IsLeast {y | y ∈ xs} x := by
  cases xs with
  | nil => simp [IsLeast]
  | cons y ys =>
    have hy : IsLeast {z | z ∈ y :: ys} y := by
      refine ⟨List.mem_cons_self, fun z hz => ?_⟩
      rcases List.mem_cons.1 hz with rfl | hz
      · exact Nat.le_refl z
      · exact Nat.le_of_lt (List.rel_of_pairwise_cons h hz)
    rw [List.head?_cons, Option.some.injEq]
    exact ⟨fun heq => heq ▸ hy, fun hx => hy.unique hx⟩

namespace Ranking

/-- Among several rules, those on the highest explicit level are favoured, or all of them where none
has such a level. -/
inductive Favours (rank : Ranking) (rules : Set Nat) (r : Nat) : Prop
  | highest {level : Nat} (mem : r ∈ rules) (eq : rank.explicitLevel r = some level)
    (le : ∀ s ∈ rules, ∀ l, rank.explicitLevel s = some l → l ≤ level) : Favours rank rules r
  | unranked (mem : r ∈ rules) (none : ∀ s ∈ rules, rank.explicitLevel s = none) :
    Favours rank rules r

/-- An earlier rule is as good. -/
def Displaces (rank : Ranking) (rules : Set Nat) (r : Nat) : Prop :=
  rank.Favours rules r ∧ ∃ s < r, rank.Favours rules s

variable {rank : Ranking} {terminal : Nat} {shift? : Option Nat} {rules : List Nat}

theorem mem_favoured_iff {r : Nat} :
    r ∈ rank.favoured rules ↔ rank.Favours {s | s ∈ rules} r := by
  unfold favoured
  split
  · next level hlevel =>
    obtain ⟨hmem, hle⟩ := List.max?_eq_some_iff.1 hlevel
    simp only [List.mem_filterMap] at hmem hle
    simp only [List.mem_filter, decide_eq_true_eq]
    constructor
    · rintro ⟨hr, heq⟩
      exact .highest hr heq fun s hs l hl => hle l ⟨s, hs, hl⟩
    · intro h
      obtain ⟨s, hs, hsl⟩ := hmem
      cases h with
      | @highest l hr heq hmax =>
        have hl : l = level := Nat.le_antisymm (hle l ⟨r, hr, heq⟩) (hmax s hs level hsl)
        exact ⟨hr, hl ▸ heq⟩
      | unranked hr hnone => simp [hnone s hs] at hsl
  · next hnone =>
    have hall : ∀ s ∈ rules, rank.explicitLevel s = none :=
      List.filterMap_eq_nil_iff.1 (List.max?_eq_none_iff.1 hnone)
    constructor
    · exact fun hr => .unranked hr hall
    · intro h
      cases h with
      | highest hr => exact hr
      | unranked hr => exact hr

theorem ascending_favoured (h : rules.Pairwise (· < ·)) :
    (rank.favoured rules).Pairwise (· < ·) :=
  h.sublist (rank.favoured_sublist rules)

theorem head?_favoured_iff (h : rules.Pairwise (· < ·)) {w : Nat} :
    (rank.favoured rules).head? = some w ↔ IsLeast {r | rank.Favours {s | s ∈ rules} r} w := by
  rw [head?_eq_some_iff_isLeast (ascending_favoured h)]
  simp only [mem_favoured_iff]

theorem dropped_against_ne_order {rule : Nat} {d : Dropped}
    (h : d ∈ (rank.against terminal shift? rule).1.dropped) : d.reason ≠ .order := by
  unfold against at h
  split at h
  · simp at h
  · split at h
    · next hsettle =>
      obtain ⟨s, p, -, -, hs⟩ := settles_of_settle hsettle
      cases hs <;> simp at h <;> grind
    · simp at h

theorem mem_lost_iff {group : List Nat} {winner r : Nat} :
    (⟨.reduceBy r, .order⟩ : Dropped) ∈ lost group winner rules ↔
      r ∈ rules ∧ r ≠ winner ∧ r ∈ group := by
  simp only [lost, List.mem_map, List.mem_filter, decide_eq_true_eq, Dropped.mk.injEq,
    List.contains_eq_mem, ite_eq_left_iff, reduceCtorEq, imp_false, not_not]
  constructor
  · rintro ⟨s, ⟨hs, hne⟩, heq, hgroup⟩
    obtain rfl := Move.reduceBy_inj.1 heq
    exact ⟨hs, hne, hgroup⟩
  · rintro ⟨hr, hne, hgroup⟩
    exact ⟨r, ⟨hr, hne⟩, rfl, hgroup⟩

theorem Favours.mem {rules : Set Nat} {r : Nat} (h : rank.Favours rules r) : r ∈ rules := by
  cases h with
  | highest hr => exact hr
  | unranked hr => exact hr

/-- Only reductions that give way to an earlier rule are dropped for their place in the order. -/
theorem dropped_by_order_iff (h : rules.Pairwise (· < ·)) {r : Nat} :
    (⟨.reduceBy r, .order⟩ : Dropped) ∈ (rank.verdict terminal shift? rules).dropped ↔
      rank.Displaces {s | s ∈ rules} r := by
  cases hhead : (rank.favoured rules).head? with
  | none =>
    have hnil := List.head?_eq_none_iff.1 hhead
    refine iff_of_false (by simp [verdict, hnil]) fun hr => ?_
    simpa [hnil] using mem_favoured_iff.2 hr.1
  | some winner =>
    obtain ⟨hwinner, hleast⟩ := (head?_favoured_iff h).1 hhead
    have hcell : (⟨.reduceBy r, .order⟩ : Dropped) ∉
        (rank.against terminal shift? winner).1.dropped :=
      fun hmem => dropped_against_ne_order hmem rfl
    simp only [verdict, hhead, List.mem_append, hcell, or_false, mem_lost_iff, mem_favoured_iff]
    constructor
    · rintro ⟨-, hne, hr⟩
      exact ⟨hr, winner, Nat.lt_of_le_of_ne (hleast hr) hne.symm, hwinner⟩
    · rintro ⟨hr, s, hlt, hs⟩
      have hle : winner ≤ s := hleast hs
      exact ⟨hr.mem, by omega, hr⟩

end Ranking

namespace Grammar

variable {g : Grammar ν}

/-- The rules that are complete in a state and can be followed by the terminal there. -/
def completed (g : Grammar ν) (q a : Nat) : Set Nat :=
  {r | r < g.cfg.rules.size ∧ g.cfg.Completes q r a}

/-- Some cell reduces by the rule, or would but for an earlier one. -/
def Uses (g : Grammar ν) (r : Nat) : Prop :=
  ∃ q < g.cfg.states.size, ∃ a < g.terminals.size,
    (g.verdict q a).move = .reduceBy r ∨ g.ranking.Displaces (g.completed q a) r

/-- A rule without use after none of its kind. -/
def FirstUnused (g : Grammar ν) (r : Nat) (p : Production ν) : Prop :=
  g.productions[r]? = some p ∧ ¬ g.Uses r ∧ ∀ s < r, g.Uses s

def Clashes (g : Grammar ν) : Prop :=
  ∃ q < g.cfg.states.size, ∃ a < g.terminals.size, (g.verdict q a).clashes ≠ []

theorem setOf_mem_reducible (g : Grammar ν) (q a : Nat) :
    {r | r ∈ g.cfg.reducible q a} = g.completed q a :=
  Set.ext fun _ => Cfg.mem_reducible_iff

theorem conflicts_ofGrammar (g : Grammar ν) :
    (Analysis.ofGrammar g).conflicts =
      (List.range g.cfg.states.size).flatMap fun q =>
        (List.range g.terminals.size).flatMap fun a =>
          (g.verdict q a).clashes.map ((Analysis.ofGrammar g).conflict q a) := by
  rw [Analysis.conflicts, Analysis.cells_ofGrammar, List.flatMap_assoc]
  simp only [List.flatMap_map]

theorem conflicts_eq_nil_iff : (Analysis.ofGrammar g).conflicts = [] ↔ ¬ g.Clashes := by
  rw [conflicts_ofGrammar]
  simp [Clashes]

theorem uses_iff {r : Nat} :
    g.Uses r ↔ (Analysis.ofGrammar g).isReduced r ∨ (Analysis.ofGrammar g).isDisplaced r := by
  have hdropped : ∀ q a, (⟨.reduceBy r, .order⟩ : Dropped) ∈ (g.verdict q a).dropped ↔
      g.ranking.Displaces (g.completed q a) r := by
    intro q a
    rw [← setOf_mem_reducible]
    exact Ranking.dropped_by_order_iff (Cfg.ascending_reducible g.cfg q a)
  simp only [Analysis.isReduced, Analysis.isDisplaced, List.any_eq_true, Prod.exists,
    Analysis.mem_cells_ofGrammar, decide_eq_true_eq, List.contains_eq_mem]
  constructor
  · rintro ⟨q, hq, a, ha, h | h⟩
    · exact .inl ⟨q, a, _, ⟨hq, ha, rfl⟩, h⟩
    · exact .inr ⟨q, a, _, ⟨hq, ha, rfl⟩, (hdropped q a).2 h⟩
  · rintro (⟨q, a, v, ⟨hq, ha, rfl⟩, h⟩ | ⟨q, a, v, ⟨hq, ha, rfl⟩, h⟩)
    · exact ⟨q, hq, a, ha, .inl h⟩
    · exact ⟨q, hq, a, ha, .inr ((hdropped q a).1 h)⟩

theorem find?_unused_eq_some_iff {r : Nat} {p : Production ν} :
    ((Analysis.ofGrammar g).unreduced.find? fun (r, _) => !(Analysis.ofGrammar g).isDisplaced r) =
        some (r, p) ↔
      g.FirstUnused r p := by
  have hgrammar : (Analysis.ofGrammar g).grammar = g := rfl
  simp only [Analysis.unreduced, List.find?_filter, hgrammar, List.find?_eq_some_iff_getElem]
  simp [FirstUnused, uses_iff, Array.getElem?_eq_some_iff]
  tauto

theorem find?_unused_eq_none_iff :
    ((Analysis.ofGrammar g).unreduced.find? fun (r, _) => !(Analysis.ofGrammar g).isDisplaced r) =
        none ↔
      ∀ r < g.productions.size, g.Uses r := by
  rw [Option.eq_none_iff_forall_ne_some]
  constructor
  · intro h r
    induction r using Nat.strong_induction_on with
    | _ r ih =>
      intro hr
      by_contra hunused
      exact h (r, g.productions[r]) (find?_unused_eq_some_iff.2
        ⟨Array.getElem?_eq_getElem hr, hunused, fun s hs => ih s hs (Nat.lt_trans hs hr)⟩)
  · rintro h ⟨r, p⟩ hfound
    obtain ⟨hp, hunused, -⟩ := find?_unused_eq_some_iff.1 hfound
    exact hunused (h r (Array.getElem?_eq_some_iff.1 hp).1)

theorem build_of_clashes (h : g.Clashes) :
    g.build = .error (.conflicts (Analysis.ofGrammar g).conflicts) := by
  have hne : (Analysis.ofGrammar g).conflicts ≠ [] := fun hnil => conflicts_eq_nil_iff.1 hnil h
  unfold Grammar.build Analysis.build
  split
  · next hnil _ => exact absurd hnil hne
  · next hnil _ => exact absurd hnil hne
  · rfl

theorem build_of_firstUnused (h : ¬ g.Clashes) {r : Nat} {p : Production ν}
    (hr : g.FirstUnused r p) : g.build = .error (.neverReduced p.site p.text) := by
  simp [Grammar.build, Analysis.build, conflicts_eq_nil_iff.2 h, find?_unused_eq_some_iff.2 hr]

theorem build_of_used (h : ¬ g.Clashes) (hused : ∀ r < g.productions.size, g.Uses r) :
    g.build = .ok (Analysis.ofGrammar g).table := by
  simp [Grammar.build, Analysis.build, conflicts_eq_nil_iff.2 h, find?_unused_eq_none_iff.2 hused]

theorem used_or_firstUnused (g : Grammar ν) :
    (∀ r < g.productions.size, g.Uses r) ∨ ∃ r p, g.FirstUnused r p := by
  cases hfound : (Analysis.ofGrammar g).unreduced.find?
      fun (r, _) => !(Analysis.ofGrammar g).isDisplaced r with
  | none => exact .inl (find?_unused_eq_none_iff.1 hfound)
  | some found => exact .inr ⟨found.1, found.2, find?_unused_eq_some_iff.1 hfound⟩

theorem of_build {t : Table ν} (h : g.build = .ok t) :
    ¬ g.Clashes ∧ (∀ r < g.productions.size, g.Uses r) ∧ t = (Analysis.ofGrammar g).table := by
  by_cases hclash : g.Clashes
  · rw [build_of_clashes hclash] at h
    cases h
  · obtain hused | ⟨r, p, hr⟩ := g.used_or_firstUnused
    · rw [build_of_used hclash hused] at h
      cases h
      exact ⟨hclash, hused, rfl⟩
    · rw [build_of_firstUnused hclash hr] at h
      cases h

theorem FirstUnused.unique {r s : Nat} {p q : Production ν} (h : g.FirstUnused r p)
    (h' : g.FirstUnused s q) : p = q := by
  have hrs : r = s := by
    rcases Nat.lt_trichotomy r s with hlt | heq | hlt
    · exact absurd (h'.2.2 r hlt) h.2.1
    · exact heq
    · exact absurd (h.2.2 s hlt) h'.2.1
  subst hrs
  exact Option.some.inj (h.1.symm.trans h'.1)

end Grammar
end Lalr
