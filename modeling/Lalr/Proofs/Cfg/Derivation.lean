import Lalr.Cfg.Basic
import Mathlib.Logic.Relation

/-!
Derivations, in single steps and as a whole. Both notions derive the same, so that statements use
the first and inductions the second.
-/

namespace Lalr

/-- Neither the end nor a whole input. -/
def Sym.Ordinary (terminals nonterminals : Nat) : Sym → Prop
  | .terminal t => 0 < t ∧ t < terminals
  | .nonterminal n => 0 < n ∧ n < nonterminals

namespace Cfg

variable {g : Cfg}

theorem mem_rulesOf_iff {n r : Nat} :
    r ∈ g.rulesOf n ↔ ∃ rule, g.rules[r]? = some rule ∧ rule.lhs = n := by
  simp only [rulesOf, List.mem_filter, List.mem_range, decide_eq_true_eq, Option.map_eq_some_iff]
  constructor
  · exact fun h => h.2
  · rintro ⟨rule, hr, hn⟩
    exact ⟨(Array.getElem?_eq_some_iff.1 hr).1, rule, hr, hn⟩

theorem rhs_eq {r : Nat} {rule : Rule} (h : g.rules[r]? = some rule) : g.rhs r = rule.rhs := by
  simp [rhs, h]

theorem exists_of_mem_rules {rule : Rule} (h : rule ∈ g.rules.toList) :
    ∃ r ∈ g.rulesOf rule.lhs, g.rhs r = rule.rhs := by
  obtain ⟨r, hr, rfl⟩ := Array.mem_iff_getElem.1 (Array.mem_toList_iff.1 h)
  have hrule : g.rules[r]? = some g.rules[r] := Array.getElem?_eq_getElem hr
  exact ⟨r, mem_rulesOf_iff.2 ⟨_, hrule, rfl⟩, rhs_eq hrule⟩

theorem exists_mem_rules {n r : Nat} (h : r ∈ g.rulesOf n) :
    ∃ rule ∈ g.rules.toList, rule.lhs = n ∧ rule.rhs = g.rhs r := by
  obtain ⟨rule, hr, hn⟩ := mem_rulesOf_iff.1 h
  exact ⟨rule, Array.mem_toList_iff.2 (Array.mem_of_getElem? hr), hn, (rhs_eq hr).symm⟩

/-- A nonterminal gives way to the right-hand side of one of its rules. -/
inductive Produces (g : Cfg) : List Sym → List Sym → Prop
  | rule {n r : Nat} (p s : List Sym) (h : r ∈ g.rulesOf n) :
      Produces g (p ++ .nonterminal n :: s) (p ++ (g.rhs r ++ s))

def Derives (g : Cfg) : List Sym → List Sym → Prop := Relation.ReflTransGen g.Produces

theorem Produces.append {xs ys : List Sym} (h : g.Produces xs ys) (p s : List Sym) :
    g.Produces (p ++ xs ++ s) (p ++ ys ++ s) := by
  cases h with
  | rule p' s' h => simpa using Produces.rule (p ++ p') (s' ++ s) h

namespace Derives

theorem refl (xs : List Sym) : g.Derives xs xs := Relation.ReflTransGen.refl

theorem trans {xs ys zs : List Sym} (h : g.Derives xs ys) (h' : g.Derives ys zs) :
    g.Derives xs zs := Relation.ReflTransGen.trans h h'

theorem rule {n r : Nat} (h : r ∈ g.rulesOf n) : g.Derives [.nonterminal n] (g.rhs r) :=
  Relation.ReflTransGen.single (by simpa using Produces.rule [] [] h)

theorem append {xs ys : List Sym} (h : g.Derives xs ys) (p s : List Sym) :
    g.Derives (p ++ xs ++ s) (p ++ ys ++ s) := by
  induction h with
  | refl => exact .refl _
  | tail _ hy ih => exact Relation.ReflTransGen.tail ih (hy.append p s)

theorem append_append {xs ys xs' ys' : List Sym} (h : g.Derives xs ys) (h' : g.Derives xs' ys') :
    g.Derives (xs ++ xs') (ys ++ ys') := by
  have hleft : g.Derives (xs ++ xs') (ys ++ xs') := by simpa using h.append [] xs'
  have hright : g.Derives (ys ++ xs') (ys ++ ys') := by simpa using h'.append ys []
  exact hleft.trans hright

end Derives

/-- Each symbol either stays or gives way to what a rule of it yields. -/
inductive Yields (g : Cfg) : List Sym → List Sym → Prop
  | nil : Yields g [] []
  | keep {xs w : List Sym} (x : Sym) (h : Yields g xs w) : Yields g (x :: xs) (x :: w)
  | expand {n r : Nat} {xs u w : List Sym} (hr : r ∈ g.rulesOf n) (hu : Yields g (g.rhs r) u)
      (hw : Yields g xs w) : Yields g (.nonterminal n :: xs) (u ++ w)

namespace Yields

theorem refl (xs : List Sym) : g.Yields xs xs := by
  induction xs with
  | nil => exact .nil
  | cons x xs ih => exact .keep x ih

theorem append {xs ys u v : List Sym} (h : g.Yields xs u) (h' : g.Yields ys v) :
    g.Yields (xs ++ ys) (u ++ v) := by
  induction h with
  | nil => exact h'
  | keep x _ ih => exact .keep x ih
  | expand hr hu _ _ ih =>
    rw [List.append_assoc]
    exact .expand hr hu ih

theorem split {xs ys w : List Sym} (h : g.Yields (xs ++ ys) w) :
    ∃ u v, w = u ++ v ∧ g.Yields xs u ∧ g.Yields ys v := by
  induction xs generalizing w with
  | nil => exact ⟨[], w, rfl, .nil, h⟩
  | cons x xs ih =>
    cases h with
    | keep _ h =>
      obtain ⟨u, v, rfl, hu, hv⟩ := ih h
      exact ⟨x :: u, v, rfl, .keep x hu, hv⟩
    | expand hr hu hw =>
      obtain ⟨u, v, rfl, hu', hv⟩ := ih hw
      exact ⟨_ ++ u, v, (List.append_assoc _ _ _).symm, .expand hr hu hu', hv⟩

theorem of_produces {xs ys w : List Sym} (h : g.Produces xs ys) (hy : g.Yields ys w) :
    g.Yields xs w := by
  cases h with
  | rule p s hr =>
    obtain ⟨u, v, rfl, hu, hv⟩ := hy.split
    obtain ⟨v, t, rfl, hv, ht⟩ := hv.split
    exact hu.append (.expand hr hv ht)

theorem derives {xs w : List Sym} (h : g.Yields xs w) : g.Derives xs w := by
  induction h with
  | nil => exact .refl _
  | keep x _ ih => simpa using ih.append [x] []
  | expand hr _ _ ihu ihw => exact Derives.append_append ((Derives.rule hr).trans ihu) ihw

end Yields

theorem derives_iff_yields {xs w : List Sym} : g.Derives xs w ↔ g.Yields xs w := by
  refine ⟨fun h => ?_, Yields.derives⟩
  induction h using Relation.ReflTransGen.head_induction_on with
  | refl => exact .refl w
  | head h _ ih => exact .of_produces h ih

theorem yields_nil_iff {xs : List Sym} : g.Yields xs [] ↔ ∀ x ∈ xs, g.Yields [x] [] := by
  induction xs with
  | nil => simp [Yields.nil]
  | cons x xs ih =>
    rw [List.forall_mem_cons, ← ih]
    constructor
    · intro h
      have hcons : g.Yields ([x] ++ xs) [] := h
      obtain ⟨u, v, huv, hu, hv⟩ := hcons.split
      obtain ⟨rfl, rfl⟩ := List.append_eq_nil_iff.1 huv.symm
      exact ⟨hu, hv⟩
    · exact fun h => h.1.append h.2

theorem derives_nil_append_iff {xs ys : List Sym} :
    g.Derives (xs ++ ys) [] ↔ g.Derives xs [] ∧ g.Derives ys [] := by
  simp only [derives_iff_yields]
  constructor
  · intro h
    obtain ⟨u, v, huv, hu, hv⟩ := h.split
    obtain ⟨rfl, rfl⟩ := List.append_eq_nil_iff.1 huv.symm
    exact ⟨hu, hv⟩
  · exact fun h => h.1.append h.2

/-- Rule 0 makes a whole input of a sentence, and no other rule speaks of the end or of a whole
input. -/
structure WellFormed (g : Cfg) (terminals start : Nat) : Prop where
  zero_mem : 0 ∈ g.rulesOf 0
  rhs_zero : g.rhs 0 = [.nonterminal start]
  eq_zero {r : Nat} : r ∈ g.rulesOf 0 → r = 0
  lt_nonterminals {n r : Nat} : r ∈ g.rulesOf n → n < g.nonterminals
  ordinary {r : Nat} {x : Sym} : x ∈ g.rhs r → x.Ordinary terminals g.nonterminals

end Cfg
end Lalr
