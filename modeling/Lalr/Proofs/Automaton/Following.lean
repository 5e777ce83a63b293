import Lalr.Proofs.Automaton.Paths
import Lalr.Proofs.Cfg.First

/-!
What can follow the items along a path, where sets of items with lookaheads are computed anew along
each path and never merged.
-/

namespace Lalr.Cfg

variable {g : Cfg}

/-- The lookaheads of the items along a path: the end follows the start item, a symbol is passed
with the lookaheads kept, and a predicted rule is followed by what can begin the rest of the item
that predicts it, or by what follows that item if the rest derives the empty string. -/
inductive LookaheadAfter (g : Cfg) : List Sym → Item → Nat → Prop
  | start : LookaheadAfter g [] .start 0
  | advance {γ i x t} (h : LookaheadAfter g γ i t) (hx : g.next? i = some x) :
      LookaheadAfter g (γ ++ [x]) i.advance t
  | begins {γ i j t} (h : g.ItemAfter γ i) (hj : j ∈ g.predicted i)
      (ht : g.Begins (g.rest i.advance) t) : LookaheadAfter g γ j t
  | inherit {γ i j t} (h : LookaheadAfter g γ i t) (hj : j ∈ g.predicted i)
      (hnil : g.Derives (g.rest i.advance) []) : LookaheadAfter g γ j t

theorem LookaheadAfter.itemAfter {γ : List Sym} {i : Item} {t : Nat}
    (h : g.LookaheadAfter γ i t) : g.ItemAfter γ i := by
  induction h with
  | start => exact .start
  | advance _ hx ih => exact .advance ih hx
  | begins h hj _ => exact .predict h hj
  | inherit _ hj _ ih => exact .predict ih hj

/-- After the item and some symbols at the end of its rule the terminal can come. -/
def Admits (g : Cfg) (γ : List Sym) (i : Item) (ys : List Sym) (a : Nat) : Prop :=
  g.Begins ys a ∨ g.Derives ys [] ∧ g.LookaheadAfter γ i a

theorem Begins.append {xs : List Sym} {a : Nat} (h : g.Begins xs a) (ys : List Sym) :
    g.Begins (xs ++ ys) a := by
  obtain ⟨w, hw⟩ := h
  exact ⟨w ++ ys, hw.append_append (.refl ys)⟩

theorem Begins.of_nil {xs ys : List Sym} {a : Nat} (h : g.Derives xs []) (hy : g.Begins ys a) :
    g.Begins (xs ++ ys) a := by
  obtain ⟨w, hw⟩ := hy
  exact ⟨w, h.append_append hw⟩

namespace Admits

variable {γ xs ys : List Sym} {i : Item} {a : Nat}

theorem advance (h : g.Admits γ i ys a) {x : Sym} (hx : g.next? i = some x) :
    g.Admits (γ ++ [x]) i.advance ys a :=
  h.imp_right fun ⟨hnil, ha⟩ => ⟨hnil, ha.advance hx⟩

theorem of_nil (h : g.Admits γ i ys a) (hnil : g.Derives xs []) : g.Admits γ i (xs ++ ys) a :=
  h.imp (.of_nil hnil) fun ⟨hnil', ha⟩ => ⟨hnil.append_append hnil', ha⟩

theorem lookaheadAfter (h : g.Admits γ i ys a) (hi : g.ItemAfter γ i) {n r : Nat}
    (hrest : g.rest i = .nonterminal n :: ys) (hr : r ∈ g.rulesOf n) :
    g.LookaheadAfter γ ⟨r, 0⟩ a := by
  have hn := next?_of_rest hrest
  have hys := rest_advance_of_rest hrest
  have hj : ⟨r, 0⟩ ∈ g.predicted i := mem_predicted_iff.2 ⟨n, hn, hr, rfl⟩
  rcases h with h | ⟨hnil, ha⟩
  · exact .begins hi hj (hys ▸ h)
  · exact .inherit ha hj (hys ▸ hnil)

end Admits

theorem LookaheadAfter.finished {γ : List Sym} {r a : Nat} (h : g.LookaheadAfter γ ⟨r, 0⟩ a) :
    g.LookaheadAfter (γ ++ g.rhs r) (g.finished r) a := by
  have hall : ∀ d ≤ (g.rhs r).length, g.LookaheadAfter (γ ++ (g.rhs r).take d) ⟨r, d⟩ a := by
    intro d hd
    induction d with
    | zero => simpa using h
    | succ d ih =>
      have hnext : g.next? ⟨r, d⟩ = some (g.rhs r)[d] := by
        simp [next?, rest, List.head?_drop, Nat.lt_of_succ_le hd]
      have htake := take_advance hnext
      simp only at htake
      rw [htake, ← List.append_assoc]
      exact (ih (Nat.le_of_succ_le hd)).advance hnext
  simpa [Cfg.finished] using hall _ (Nat.le_refl _)

theorem LookaheadAfter.beginning {γ : List Sym} {i : Item} {a : Nat}
    (h : g.LookaheadAfter γ i a) :
    ∃ γ', γ = γ' ++ (g.rhs i.rule).take i.dot ∧ g.LookaheadAfter γ' ⟨i.rule, 0⟩ a := by
  have hpredicted : ∀ {γ i j a}, j ∈ g.predicted i → g.LookaheadAfter γ j a →
      ∃ γ', γ = γ' ++ (g.rhs j.rule).take j.dot ∧ g.LookaheadAfter γ' ⟨j.rule, 0⟩ a := by
    intro γ i j a hj ha
    obtain ⟨n, -, -, hd⟩ := mem_predicted_iff.1 hj
    refine ⟨γ, by simp [hd], ?_⟩
    rwa [← hd]
  induction h with
  | start => exact ⟨[], rfl, .start⟩
  | @advance γ i x _ _ hx ih =>
    obtain ⟨γ', rfl, hi⟩ := ih
    refine ⟨γ', ?_, hi⟩
    rw [List.append_assoc, ← take_advance hx]
    rfl
  | begins h hj ht => exact hpredicted hj (.begins h hj ht)
  | inherit h hj hnil _ => exact hpredicted hj (.inherit h hj hnil)

namespace WellFormed

variable {terminals start : Nat}

theorem ordinary_of_yields (h : g.WellFormed terminals start) {xs w : List Sym}
    (hy : g.Yields xs w) (hxs : ∀ x ∈ xs, x.Ordinary terminals g.nonterminals) :
    ∀ x ∈ w, x.Ordinary terminals g.nonterminals := by
  induction hy with
  | nil => exact hxs
  | keep x _ ih =>
    rw [List.forall_mem_cons] at hxs ⊢
    exact ⟨hxs.1, ih hxs.2⟩
  | expand _ _ _ ihu ihw =>
    rw [List.forall_mem_cons] at hxs
    rw [List.forall_mem_append]
    exact ⟨ihu fun _ => h.ordinary, ihw hxs.2⟩

theorem ordinary_of_begins (h : g.WellFormed terminals start) {i : Item} {t : Nat}
    (ht : g.Begins (g.rest i) t) : 0 < t ∧ t < terminals := by
  obtain ⟨w, hw⟩ := ht
  exact h.ordinary_of_yields (derives_iff_yields.1 hw)
    (fun x hx => h.ordinary (List.mem_of_mem_drop hx)) _ (List.mem_cons_self ..)

theorem rule_ne_zero_of_predicted (h : g.WellFormed terminals start) {i j : Item}
    (hj : j ∈ g.predicted i) : j.rule ≠ 0 := by
  obtain ⟨n, hn, hr, -⟩ := mem_predicted_iff.1 hj
  exact h.rule_ne_zero_of_next? hn hr

theorem lookaheadAfter_lt (h : g.WellFormed terminals start) (hpos : 0 < terminals) {γ : List Sym}
    {i : Item} {t : Nat} (ht : g.LookaheadAfter γ i t) : t < terminals := by
  induction ht with
  | start => exact hpos
  | advance _ _ ih => exact ih
  | begins _ _ ht => exact (h.ordinary_of_begins ht).2
  | inherit _ _ _ ih => exact ih

/-- Nothing but the end follows a whole input. -/
theorem eq_zero_of_lookaheadAfter (h : g.WellFormed terminals start) {γ : List Sym} {i : Item}
    {t : Nat} (ht : g.LookaheadAfter γ i t) (hi : i.rule = 0) : t = 0 := by
  induction ht with
  | start => rfl
  | advance _ _ ih => exact ih hi
  | begins _ hj _ => exact absurd hi (h.rule_ne_zero_of_predicted hj)
  | inherit _ hj _ _ => exact absurd hi (h.rule_ne_zero_of_predicted hj)

end WellFormed

end Lalr.Cfg
