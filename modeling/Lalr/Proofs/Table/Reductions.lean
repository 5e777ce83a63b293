import Lalr.Proofs.Table.Cells
import Mathlib.Data.Fintype.EquivFin

/-!
Reductions on the symbols of a stack while the lookahead stays the same. Where no cell has more than
one candidate they come to an end, whatever the lookahead: one that is valid is read up to a shift
or to acceptance, and a state offers no reduction on any other than it would on a valid one.
-/

namespace Lalr.Table

variable {ν : Type} {t : Table ν} {b : Nat}

open Relation (ReflTransGen TransGen)

/-- The symbols at the end give way to the nonterminal that the state reduces them to. -/
inductive Reduces (t : Table ν) (b : Nat) : List Sym → List Sym → Prop
  | rule {β : List Sym} {q r n : Nat} (hpath : t.cfg.Path (β ++ t.cfg.rhs r) q)
      (hmove : t.move q b = .reduce r) (hr : r ∈ t.cfg.rulesOf n) :
      Reduces t b (β ++ t.cfg.rhs r) (β ++ [.nonterminal n])

theorem Reduces.inv {γ γ' : List Sym} (h : t.Reduces b γ γ') :
    ∃ β q r n, γ = β ++ t.cfg.rhs r ∧ γ' = β ++ [.nonterminal n] ∧
      t.cfg.Path γ q ∧ t.move q b = .reduce r ∧ r ∈ t.cfg.rulesOf n := by
  cases h with
  | rule hpath hmove hr => exact ⟨_, _, _, _, rfl, rfl, hpath, hmove, hr⟩

theorem Reduces.unique {γ γ₁ γ₂ : List Sym} (h₁ : t.Reduces b γ γ₁) (h₂ : t.Reduces b γ γ₂) :
    γ₁ = γ₂ := by
  obtain ⟨β, q, r, n, rfl, rfl, hpath, hmove, hr⟩ := h₁.inv
  obtain ⟨β', q', r', n', hβ, rfl, hpath', hmove', hr'⟩ := h₂.inv
  rw [hpath'.unique hpath, hmove, Move.reduce.injEq] at hmove'
  subst hmove'
  obtain ⟨rule, hrule, rfl⟩ := Cfg.mem_rulesOf_iff.1 hr
  obtain ⟨rule', hrule', rfl⟩ := Cfg.mem_rulesOf_iff.1 hr'
  rw [hrule, Option.some.injEq] at hrule'
  rw [hrule', List.append_cancel_right hβ]

/-- Only finitely many reductions follow on each other. -/
def Halts (t : Table ν) (b : Nat) (γ : List Sym) : Prop := Acc (fun γ' γ => t.Reduces b γ γ') γ

theorem Halts.of_step {γ γ' : List Sym} (h : t.Reduces b γ γ') (h' : t.Halts b γ') :
    t.Halts b γ := Acc.intro γ fun _ h₁ => h.unique h₁ ▸ h'

theorem Halts.of_steps {γ γ' : List Sym} (h : ReflTransGen (t.Reduces b) γ γ')
    (h' : t.Halts b γ') : t.Halts b γ := by
  induction h using ReflTransGen.head_induction_on with
  | refl => exact h'
  | head h _ ih => exact .of_step h ih

theorem Halts.of_move {γ : List Sym} {q : Nat} (hpath : t.cfg.Path γ q)
    (hmove : ∀ r, t.move q b ≠ .reduce r) : t.Halts b γ := by
  refine Acc.intro γ fun γ' h => ?_
  obtain ⟨β, q', r, n, rfl, rfl, hpath', hmove', hr⟩ := h.inv
  rw [hpath'.unique hpath] at hmove'
  exact absurd hmove' (hmove r)

theorem Halts.not_cyclic {γ : List Sym} (h : t.Halts b γ) : ¬ TransGen (t.Reduces b) γ γ := by
  intro hcycle
  have hswap : TransGen (fun γ' γ => t.Reduces b γ γ') γ γ := Relation.transGen_swap.2 hcycle
  exact (acc_transGen_iff.2 h).rec (fun _ _ ih hcycle => ih _ hcycle hcycle) hswap

section Valid

variable (hm : t.IsBuilt) (hone : t.Unambiguous)

include hm hone

theorem reduces_of_lookaheadAfter {γ : List Sym} {r n : Nat}
    (ha : t.cfg.LookaheadAfter γ ⟨r, 0⟩ b) (hr : r ∈ t.cfg.rulesOf n)
    (hne : r ≠ 0) : t.Reduces b (γ ++ t.cfg.rhs r) (γ ++ [.nonterminal n]) := by
  obtain ⟨q, hq⟩ := ha.finished.itemAfter.exists_path hm.wellFormed.cfg.size_pos
  have hmove := hm.move_eq_of_mem_candidates hone (hm.reduceBy_mem_candidates hq ha.finished)
  rw [Move.reduceBy, if_neg hne] at hmove
  exact .rule hq hmove hr

theorem reduces_of_yields_nil {xs w : List Sym} (h : t.cfg.Yields xs w) (hw : w = [])
    {γ ys : List Sym} {i : Item} (hi : t.cfg.ItemAfter γ i)
    (hrest : t.cfg.rest i = xs ++ ys) (ha : t.cfg.Admits γ i ys b) :
    ReflTransGen (t.Reduces b) γ (γ ++ xs) := by
  -- What comes after the symbols can be empty, so the lookahead is one of them or of the item's.
  induction h generalizing γ i ys with
  | nil => simpa using ReflTransGen.refl
  | keep => cases hw
  | @expand n r xs u w hr hu hw' ihu ihw =>
    obtain ⟨rfl, rfl⟩ := List.append_eq_nil_iff.1 hw
    have hn := Cfg.next?_of_rest hrest
    have hla := (ha.of_nil hw'.derives).lookaheadAfter hi hrest hr
    have hbegin : t.cfg.rest ⟨r, 0⟩ = t.cfg.rhs r ++ [] := by simp [Cfg.rest]
    have hrhs := ihu rfl hla.itemAfter hbegin (.inr ⟨.refl [], hla⟩)
    have hreduce := reduces_of_lookaheadAfter hm hone hla hr
      (hm.wellFormed.cfg.rule_ne_zero_of_next? hn hr)
    have hxs := ihw rfl (hi.advance hn) (Cfg.rest_advance_of_rest hrest) (ha.advance hn)
    rw [List.append_assoc] at hxs
    exact (hrhs.tail hreduce).trans hxs

/-- A lookahead that begins what an item waits for is shifted in the end. -/
theorem halts_of_begins {xs w : List Sym} (h : t.cfg.Yields xs w)
    (hw : w.head? = some (.terminal b)) {γ ys : List Sym} {i : Item}
    (hi : t.cfg.ItemAfter γ i) (hrest : t.cfg.rest i = xs ++ ys) :
    t.Halts b γ := by
  have hsize := hm.wellFormed.cfg.size_pos
  induction h generalizing γ i ys with
  | nil => cases hw
  | keep x _ _ =>
    obtain rfl : x = .terminal b := by simpa using hw
    obtain ⟨q, hq⟩ := hi.exists_path hsize
    obtain ⟨q', hq'⟩ := Cfg.exists_goTo (hi.mem_items hsize hq) (Cfg.next?_of_rest hrest)
    have hmove := hm.move_eq_of_mem_candidates hone (hm.shift_mem_candidates_iff.2 hq')
    exact .of_move hq fun r => by simp [hmove]
  | @expand n r xs u w hr hu hw' ihu ihw =>
    have hn := Cfg.next?_of_rest hrest
    have hbegin : t.cfg.rest ⟨r, 0⟩ = t.cfg.rhs r ++ [] := by simp [Cfg.rest]
    have hpredicted : (⟨r, 0⟩ : Item) ∈ t.cfg.predicted i :=
      Cfg.mem_predicted_iff.2 ⟨n, hn, hr, rfl⟩
    -- The lookahead is either below the nonterminal, or it is reduced to and the lookahead comes
    -- after it.
    cases u with
    | cons x u => exact ihu (by simpa using hw) (hi.predict hpredicted) hbegin
    | nil =>
      have hbegins : t.cfg.Begins xs b := by
        cases w with
        | nil => cases hw
        | cons x w =>
          obtain rfl : x = .terminal b := by simpa using hw
          exact ⟨w, hw'.derives⟩
      have hsteps : ReflTransGen (t.Reduces b) γ (γ ++ [.nonterminal n]) :=
        reduces_of_yields_nil hm hone (.expand hr hu .nil) rfl hi hrest (.inl (hbegins.append ys))
      exact .of_steps hsteps (ihw hw (hi.advance hn) (Cfg.rest_advance_of_rest hrest))

theorem reduces_of_predicted {γ : List Sym} {i j : Item}
    (ha : t.cfg.LookaheadAfter γ j b) (hj : j ∈ t.cfg.predicted i) :
    ∃ n, t.cfg.next? i = some (.nonterminal n) ∧
      t.Reduces b (γ ++ t.cfg.rest j) (γ ++ [.nonterminal n]) := by
  obtain ⟨n, hn, hr, hd⟩ := Cfg.mem_predicted_iff.1 hj
  obtain ⟨r, d⟩ := j
  obtain rfl : d = 0 := hd
  exact ⟨n, hn, reduces_of_lookaheadAfter hm hone ha hr
    (hm.wellFormed.cfg.rule_ne_zero_of_next? hn hr)⟩

/-- A lookahead that follows an item is shifted or accepted in the end. -/
theorem halts_of_lookaheadAfter {γ : List Sym} {i : Item}
    (h : t.cfg.LookaheadAfter γ i b) : t.Halts b (γ ++ t.cfg.rest i) := by
  induction h with
  | start =>
    have ha := Cfg.LookaheadAfter.start (g := t.cfg).finished
    obtain ⟨q, hq⟩ := ha.itemAfter.exists_path hm.wellFormed.cfg.size_pos
    have hmove := hm.move_eq_of_mem_candidates hone (hm.reduceBy_mem_candidates hq ha)
    rw [Move.reduceBy, if_pos rfl] at hmove
    exact .of_move hq fun r => by simp [hmove]
  | advance _ hx ih =>
    rw [Cfg.next?_eq_some_iff] at hx
    rwa [hx, List.append_cons] at ih
  | @begins γ i j b h hj hb =>
    obtain ⟨n, hn, hreduce⟩ := reduces_of_predicted hm hone (.begins h hj hb) hj
    obtain ⟨w, hw⟩ := hb
    have hrest : t.cfg.rest i.advance = t.cfg.rest i.advance ++ [] := by simp
    exact .of_step hreduce
      (halts_of_begins hm hone (Cfg.derives_iff_yields.1 hw) rfl (h.advance hn) hrest)
  | @inherit γ i j b h hj hnil ih =>
    obtain ⟨n, hn, hreduce⟩ := reduces_of_predicted hm hone (.inherit h hj hnil) hj
    have hrest : t.cfg.rest i.advance = t.cfg.rest i.advance ++ [] := by simp
    have hsteps := reduces_of_yields_nil hm hone (Cfg.derives_iff_yields.1 hnil) rfl
      (h.itemAfter.advance hn) hrest (.inr ⟨.refl [], h.advance hn⟩)
    rw [Cfg.next?_eq_some_iff.1 hn, List.append_cons] at ih
    exact .of_step hreduce (.of_steps hsteps ih)

end Valid

/-! Reductions that leave the symbols below untouched depend on the state there only. -/

inductive ReducesAbove (t : Table ν) (b : Nat) (β : List Sym) : List Sym → List Sym → Prop
  | rule {δ : List Sym} {q r n : Nat}
      (hpath : t.cfg.Path (β ++ (δ ++ t.cfg.rhs r)) q)
      (hmove : t.move q b = .reduce r) (hr : r ∈ t.cfg.rulesOf n) :
      ReducesAbove t b β (δ ++ t.cfg.rhs r) (δ ++ [.nonterminal n])

def HaltsAbove (t : Table ν) (b : Nat) (β δ : List Sym) : Prop :=
  Acc (fun δ' δ => t.ReducesAbove b β δ δ') δ

theorem ReducesAbove.inv {β δ δ' : List Sym} (h : t.ReducesAbove b β δ δ') :
    ∃ δ₀ q r n, δ = δ₀ ++ t.cfg.rhs r ∧ δ' = δ₀ ++ [.nonterminal n] ∧
      t.cfg.Path (β ++ δ) q ∧ t.move q b = .reduce r ∧
      r ∈ t.cfg.rulesOf n := by
  cases h with
  | rule hpath hmove hr => exact ⟨_, _, _, _, rfl, rfl, hpath, hmove, hr⟩

theorem ReducesAbove.reduces {β δ δ' : List Sym} (h : t.ReducesAbove b β δ δ') :
    t.Reduces b (β ++ δ) (β ++ δ') := by
  obtain ⟨δ₀, q, r, n, rfl, rfl, hpath, hmove, hr⟩ := h.inv
  rw [← List.append_assoc] at hpath ⊢
  rw [← List.append_assoc]
  exact .rule hpath hmove hr

theorem ReducesAbove.transfer {β β' δ δ' : List Sym} {p : Nat} (hβ : t.cfg.Path β p)
    (hβ' : t.cfg.Path β' p) (h : t.ReducesAbove b β δ δ') : t.ReducesAbove b β' δ δ' := by
  obtain ⟨δ₀, q, r, n, rfl, rfl, hpath, hmove, hr⟩ := h.inv
  exact .rule (hβ.transfer hβ' hpath) hmove hr

theorem ReducesAbove.vanish {β δ δ' : List Sym} (h : t.ReducesAbove b β δ δ')
    (hδ : t.cfg.Derives δ []) : t.cfg.Derives δ' [] := by
  obtain ⟨δ₀, q, r, n, rfl, rfl, -, -, hr⟩ := h.inv
  rw [Cfg.derives_nil_append_iff] at hδ ⊢
  exact ⟨hδ.1, (Cfg.Derives.rule hr).trans hδ.2⟩

theorem Halts.above {β δ : List Sym} (h : t.Halts b (β ++ δ)) : t.HaltsAbove b β δ := by
  generalize hγ : β ++ δ = γ at h
  induction h generalizing δ with
  | intro γ _ ih =>
    subst hγ
    exact Acc.intro δ fun δ' hδ' => ih _ hδ'.reduces rfl

theorem HaltsAbove.transfer {β β' δ : List Sym} {p : Nat} (hβ : t.cfg.Path β p)
    (hβ' : t.cfg.Path β' p) (h : t.HaltsAbove b β δ) : t.HaltsAbove b β' δ := by
  induction h with
  | intro δ _ ih => exact Acc.intro δ fun δ' hδ' => ih δ' (hδ'.transfer hβ' hβ)

section Any

variable (hm : t.IsBuilt) (hone : t.Unambiguous)

include hm hone

/-- Above a state, reductions begin with a rule that the lookahead follows along some path to it. -/
theorem haltsAbove_nil (β : List Sym) : t.HaltsAbove b β [] := by
  refine Acc.intro [] fun δ h => Acc.inv ?_ h
  obtain ⟨δ₀, q, r, n, hnil, rfl, hpath, hmove, hr⟩ := h.inv
  obtain ⟨rfl, hrhs⟩ := List.append_eq_nil_iff.1 hnil.symm
  obtain ⟨-, -, hi, ha⟩ := hm.of_move_reduce hmove
  obtain ⟨γ, hγ, hla⟩ := (hm.wellFormed.cfg.mem_lookaheads_iff hi).1 ha
  have hhalts := halts_of_lookaheadAfter hm hone hla
  rw [List.append_nil] at hpath
  have hrest : t.cfg.rest (t.cfg.finished r) = [] := by
    simp [Cfg.rest, Cfg.finished]
  rw [hrest] at hhalts
  exact hhalts.above.transfer hγ hpath

end Any

/-- Reductions above a state go on as above the next symbol until the symbol itself gives way. -/
theorem HaltsAbove.cons {β δ : List Sym} {x : Sym} (h : t.HaltsAbove b (β ++ [x]) δ)
    {P : List Sym → Prop} (hδ : P δ)
    (hP : ∀ δ δ', P δ → t.ReducesAbove b (β ++ [x]) δ δ' → P δ')
    (hx : ∀ δ q r n, P δ → t.cfg.rhs r = x :: δ → t.cfg.Path (β ++ x :: δ) q →
      t.move q b = .reduce r → r ∈ t.cfg.rulesOf n →
      t.HaltsAbove b β [.nonterminal n]) : t.HaltsAbove b β (x :: δ) := by
  induction h with
  | intro δ _ ih =>
    refine Acc.intro _ fun δ' hstep => ?_
    obtain ⟨δ₀, q, r, n, heq, rfl, hpath, hmove, hr⟩ := hstep.inv
    cases δ₀ with
    | nil => exact hx δ q r n hδ heq.symm hpath hmove hr
    | cons y δ₀ =>
      obtain ⟨rfl, rfl⟩ := List.cons.inj heq
      have habove : t.ReducesAbove b (β ++ [x]) (δ₀ ++ t.cfg.rhs r)
          (δ₀ ++ [.nonterminal n]) := .rule (by simpa using hpath) hmove hr
      exact ih _ habove (hP _ _ hδ habove)

/-! A nonterminal that gives way to another while the state below stays the same. -/

/-- The second nonterminal has a rule that begins with the first and is otherwise empty, and that
the lookahead can follow somewhere. -/
def Renames (t : Table ν) (b : Nat) (n n' : Nat) : Prop :=
  ∃ r δ, r ≠ 0 ∧ r ∈ t.cfg.rulesOf n' ∧ t.cfg.rhs r = .nonterminal n :: δ ∧
    t.cfg.Derives δ [] ∧ ∃ γ, t.cfg.LookaheadAfter γ ⟨r, 0⟩ b

def Expects (t : Table ν) (b : Nat) (γ : List Sym) (n : Nat) : Prop :=
  ∀ r ∈ t.cfg.rulesOf n, t.cfg.LookaheadAfter γ ⟨r, 0⟩ b

theorem expects_of_rule {γ δ : List Sym} {n r : Nat}
    (ha : t.cfg.LookaheadAfter γ ⟨r, 0⟩ b)
    (hrhs : t.cfg.rhs r = .nonterminal n :: δ) (hδ : t.cfg.Derives δ []) :
    t.Expects b γ n := by
  intro r' hr'
  have hrest : t.cfg.rest ⟨r, 0⟩ = .nonterminal n :: δ := by simpa [Cfg.rest] using hrhs
  have hj : (⟨r', 0⟩ : Item) ∈ t.cfg.predicted ⟨r, 0⟩ :=
    Cfg.mem_predicted_iff.2 ⟨n, Cfg.next?_of_rest hrest, hr', rfl⟩
  exact .inherit ha hj (by rwa [Cfg.rest_advance_of_rest hrest])

theorem Renames.exists_expects {n n' : Nat} (h : t.Renames b n n') : ∃ γ, t.Expects b γ n := by
  obtain ⟨r, δ, -, -, hrhs, hδ, γ, ha⟩ := h
  exact ⟨γ, expects_of_rule ha hrhs hδ⟩

theorem Renames.expects {n n' : Nat} (h : t.Renames b n n') {γ : List Sym}
    (h' : t.Expects b γ n') : t.Expects b γ n := by
  obtain ⟨r, δ, -, hr, hrhs, hδ, -⟩ := h
  exact expects_of_rule (h' r hr) hrhs hδ

section Renaming

variable (hm : t.IsBuilt) (hone : t.Unambiguous)

include hm hone

theorem Renames.reduces {n n' : Nat} (h : t.Renames b n n') {γ : List Sym}
    (h' : t.Expects b γ n') :
    TransGen (t.Reduces b) (γ ++ [.nonterminal n]) (γ ++ [.nonterminal n']) := by
  obtain ⟨r, δ, hne, hr, hrhs, hδ, -⟩ := h
  have ha := h' r hr
  have hrest : t.cfg.rest ⟨r, 0⟩ = .nonterminal n :: δ := by simpa [Cfg.rest] using hrhs
  have hn := Cfg.next?_of_rest hrest
  have hδ' : t.cfg.rest (Item.advance ⟨r, 0⟩) = δ ++ [] := by
    rw [Cfg.rest_advance_of_rest hrest, List.append_nil]
  have hsteps := reduces_of_yields_nil hm hone (Cfg.derives_iff_yields.1 hδ) rfl
    (ha.itemAfter.advance hn) hδ' (.inr ⟨.refl [], ha.advance hn⟩)
  have hreduce := reduces_of_lookaheadAfter hm hone ha hr hne
  rw [hrhs, List.append_cons] at hreduce
  exact TransGen.tail' hsteps hreduce

theorem expects_and_reduces_of_renames {n n' : Nat} (h : TransGen (t.Renames b) n n')
    {γ : List Sym} (h' : t.Expects b γ n') : t.Expects b γ n ∧
      TransGen (t.Reduces b) (γ ++ [.nonterminal n]) (γ ++ [.nonterminal n']) := by
  induction h with
  | single h => exact ⟨h.expects h', h.reduces hm hone h'⟩
  | tail _ h ih =>
    obtain ⟨hexpects, hreduces⟩ := ih (h.expects h')
    exact ⟨hexpects, hreduces.trans (h.reduces hm hone h')⟩

theorem not_renames_cycle {n : Nat} : ¬ TransGen (t.Renames b) n n := by
  -- If the lookahead can follow the rules of one of the nonterminals, it can follow those of all.
  intro hcycle
  obtain ⟨n₁, h₁, -⟩ := TransGen.head'_iff.1 hcycle
  obtain ⟨n₂, -, h₂⟩ := TransGen.tail'_iff.1 hcycle
  obtain ⟨γ, hγ⟩ := h₁.exists_expects
  obtain ⟨-, hreduces⟩ := expects_and_reduces_of_renames hm hone hcycle hγ
  obtain ⟨r, δ, hne, hr, -⟩ := h₂
  have hhalts := halts_of_lookaheadAfter hm hone (hγ r hr)
  have hrest : t.cfg.rest ⟨r, 0⟩ = t.cfg.rhs r := by simp [Cfg.rest]
  rw [hrest] at hhalts
  have hn : t.Halts b (γ ++ [.nonterminal n]) :=
    hhalts.inv (reduces_of_lookaheadAfter hm hone (hγ r hr) hr hne)
  exact hn.not_cyclic hreduces

theorem wellFounded_renames (b : Nat) :
    WellFounded fun n' n : Fin t.cfg.nonterminals => TransGen (t.Renames b) n n' := by
  have htrans : IsTrans (Fin t.cfg.nonterminals)
      fun n' n => TransGen (t.Renames b) n n' := ⟨fun _ _ _ h h' => TransGen.trans h' h⟩
  have hirrefl : Std.Irrefl fun n' n : Fin t.cfg.nonterminals =>
      TransGen (t.Renames b) n n' := ⟨fun _ => not_renames_cycle hm hone⟩
  exact Finite.wellFounded_of_trans_of_irrefl _

theorem haltsAbove_nonterminal (n : Fin t.cfg.nonterminals) (β : List Sym) :
    t.HaltsAbove b β [.nonterminal n] := by
  -- All that gathers above the nonterminal until it gives way derives the empty string.
  induction n using (wellFounded_renames hm hone b).induction with
  | _ n ih =>
    refine (haltsAbove_nil hm hone _).cons (P := fun δ => t.cfg.Derives δ []) (.refl [])
      (fun _ _ hδ h => h.vanish hδ) fun δ q r n' hδ hrhs hpath hmove hr => ?_
    obtain ⟨hne, -, hi, ha⟩ := hm.of_move_reduce hmove
    obtain ⟨γ, -, hla⟩ := (hm.wellFormed.cfg.mem_lookaheads_iff hi).1 ha
    obtain ⟨γ', -, hbegin⟩ := hla.beginning
    exact ih ⟨n', hm.wellFormed.cfg.lt_nonterminals hr⟩
      (.single ⟨r, δ, hne, hr, hrhs, hδ, γ', hbegin⟩)

theorem haltsAbove (β δ : List Sym) : t.HaltsAbove b β δ := by
  induction δ generalizing β with
  | nil => exact haltsAbove_nil hm hone β
  | cons x δ ih =>
    exact (ih (β ++ [x])).cons (P := fun _ => True) trivial (fun _ _ _ _ => trivial)
      fun _ _ _ n _ _ _ _ hr =>
        haltsAbove_nonterminal hm hone ⟨n, hm.wellFormed.cfg.lt_nonterminals hr⟩ β

/-- Whatever is on the stack and whatever comes, reductions come to an end. -/
theorem halts (γ : List Sym) : t.Halts b γ := by
  have habove := haltsAbove (b := b) hm hone [] γ
  induction habove with
  | intro γ _ ih =>
    refine Acc.intro γ fun γ' h => ih γ' ?_
    obtain ⟨β, q, r, n, rfl, rfl, hpath, hmove, hr⟩ := h.inv
    exact .rule hpath hmove hr

end Renaming

end Lalr.Table
