import Lalr.Cfg.First
import Lalr.Proofs.Cfg.Derivation
import Lalr.Proofs.Flow

/-!
What is computed of the nonterminals holds of their derivations: they vanish just if they derive the
empty string, and a terminal is among their first ones just if it begins something they derive.
-/

namespace Lalr

theorem vanish_iff_forall {nullable : IdSet} {xs : List Sym} :
    vanish nullable xs = true ↔ ∀ x ∈ xs, x.vanishes nullable = true := by
  simp [vanish]

theorem mem_fronts_iff {nullable : IdSet} {xs : List Sym} {x : Sym} :
    x ∈ fronts nullable xs ↔ ∃ u v, xs = u ++ x :: v ∧ vanish nullable u = true := by
  induction xs with
  | nil => simp [fronts]
  | cons y ys ih =>
    simp only [fronts, List.mem_cons]
    constructor
    · rintro (rfl | h)
      · exact ⟨[], ys, rfl, rfl⟩
      · split at h
        · next hy =>
          obtain ⟨u, v, rfl, hu⟩ := ih.1 h
          exact ⟨y :: u, v, rfl, by simpa [vanish, hy] using hu⟩
        · cases h
    · rintro ⟨u, v, huv, hu⟩
      cases u with
      | nil => exact .inl (List.cons.inj huv).1.symm
      | cons z u =>
        obtain ⟨rfl, rfl⟩ := List.cons.inj huv
        simp only [vanish, List.all_cons, Bool.and_eq_true] at hu
        rw [if_pos hu.1]
        exact .inr (ih.2 ⟨u, v, rfl, hu.2⟩)

namespace Cfg

variable {g : Cfg}

theorem mem_vanishing_iff {known : IdSet} {n : Nat} :
    n ∈ g.vanishing known ↔
      n ∈ known ∨ ∃ r ∈ g.rulesOf n, vanish known (g.rhs r) = true := by
  have hfold : ∀ (rules : List Rule) (s : IdSet),
      n ∈ rules.foldl (fun s r => s.insert r.lhs) s ↔ n ∈ s ∨ ∃ rule ∈ rules, n = rule.lhs := by
    intro rules
    induction rules with
    | nil => simp
    | cons rule rules ih => simp [ih, or_assoc]
  simp only [vanishing, hfold, List.mem_filter]
  refine or_congr_right ⟨?_, ?_⟩
  · rintro ⟨rule, ⟨hrule, hv⟩, rfl⟩
    obtain ⟨r, hr, hrhs⟩ := exists_of_mem_rules hrule
    exact ⟨r, hr, hrhs ▸ hv⟩
  · rintro ⟨r, hr, hv⟩
    obtain ⟨rule, hrule, rfl, hrhs⟩ := exists_mem_rules hr
    exact ⟨rule, ⟨hrule, hrhs ▸ hv⟩, rfl⟩

theorem yields_nil_of_vanish {known : IdSet} (hknown : ∀ n ∈ known, g.Yields [.nonterminal n] [])
    {xs : List Sym} (h : vanish known xs = true) : g.Yields xs [] := by
  rw [yields_nil_iff]
  intro x hx
  have hv := vanish_iff_forall.1 h x hx
  cases x with
  | terminal t => cases hv
  | nonterminal n => exact hknown n hv

theorem yields_nil_of_mem_vanishing {known : IdSet}
    (hknown : ∀ n ∈ known, g.Yields [.nonterminal n] []) :
    ∀ n ∈ g.vanishing known, g.Yields [.nonterminal n] [] := by
  intro n hn
  rcases mem_vanishing_iff.1 hn with hn | ⟨r, hr, hv⟩
  · exact hknown n hn
  · exact .expand hr (yields_nil_of_vanish hknown hv) .nil

def lhsIn (g : Cfg) (s : IdSet) : Finset Nat :=
  (g.rules.toList.map Rule.lhs).toFinset.filter (· ∈ s)

theorem card_lhsIn_le (g : Cfg) (s : IdSet) : (g.lhsIn s).card ≤ g.rules.size := by
  refine (Finset.card_filter_le _ _).trans ?_
  simpa using List.toFinset_card_le (g.rules.toList.map Rule.lhs)

theorem card_lhsIn_vanishing {known : IdSet} (h : g.vanishing known ≠ known) :
    (g.lhsIn known).card < (g.lhsIn (g.vanishing known)).card := by
  have hnew : ∃ n, n ∈ g.vanishing known ∧ n ∉ known := by
    by_contra hnone
    push Not at hnone
    exact h (IdSet.ext fun n => ⟨hnone n, fun hn => mem_vanishing_iff.2 (.inl hn)⟩)
  obtain ⟨n, hn, hnot⟩ := hnew
  apply Finset.card_lt_card
  refine ⟨fun m hm => ?_, fun hsub => ?_⟩
  · simp only [lhsIn, Finset.mem_filter] at hm ⊢
    exact ⟨hm.1, mem_vanishing_iff.2 (.inl hm.2)⟩
  · rcases mem_vanishing_iff.1 hn with hn | ⟨r, hr, hv⟩
    · exact hnot hn
    · obtain ⟨rule, hrule, rfl, -⟩ := exists_mem_rules hr
      have hlhs : rule.lhs ∈ g.lhsIn (g.vanishing known) :=
        Finset.mem_filter.2 ⟨List.mem_toFinset.2 (List.mem_map_of_mem hrule), hn⟩
      exact hnot (Finset.mem_filter.1 (hsub hlhs)).2

theorem vanishing_nullable (g : Cfg) : g.vanishing g.nullable = g.nullable :=
  saturate_fixed (P := fun _ => True) (fun s => (g.lhsIn s).card) (fun _ _ => trivial)
    (fun _ _ h => card_lhsIn_vanishing h) (fun s _ => g.card_lhsIn_le s) trivial (by omega)

theorem mem_nullable_iff_yields {n : Nat} :
    n ∈ g.nullable ↔ g.Yields [.nonterminal n] [] := by
  have hsound : ∀ n ∈ g.nullable, g.Yields [.nonterminal n] [] :=
    saturate_induction (P := fun s => ∀ n ∈ s, g.Yields [.nonterminal n] [])
      (fun _ => yields_nil_of_mem_vanishing) fun n hn => absurd hn (IdSet.not_mem_empty n)
  have hcomplete : ∀ {xs w}, g.Yields xs w → w = [] → vanish g.nullable xs = true := by
    intro xs w h
    induction h with
    | nil => exact fun _ => rfl
    | keep => exact fun h => absurd h (List.cons_ne_nil _ _)
    | @expand n r xs u w hr _ _ ihu ihw =>
      intro huw
      obtain ⟨rfl, rfl⟩ := List.append_eq_nil_iff.1 huw
      have hn : n ∈ g.nullable := by
        rw [← vanishing_nullable]
        exact mem_vanishing_iff.2 (.inr ⟨r, hr, ihu rfl⟩)
      exact Bool.and_eq_true_iff.2 ⟨hn, ihw rfl⟩
  refine ⟨hsound n, fun h => ?_⟩
  exact vanish_iff_forall.1 (hcomplete h rfl) _ (List.mem_singleton_self _)

theorem vanish_iff_yields {xs : List Sym} :
    vanish g.nullable xs = true ↔ g.Yields xs [] := by
  rw [vanish_iff_forall, yields_nil_iff]
  refine forall₂_congr fun x _ => ?_
  cases x with
  | terminal t =>
    refine ⟨fun h => (Bool.false_ne_true h).elim, fun h => ?_⟩
    cases h
  | nonterminal n => exact mem_nullable_iff_yields

theorem mem_firstFlow_seeds {n : Nat} {s : IdSet} :
    (n, s) ∈ g.firstFlow.seeds ↔
      ∃ r ∈ g.rulesOf n, ∃ t, .terminal t ∈ fronts g.nullable (g.rhs r) ∧ s = .singleton t := by
  simp only [firstFlow, List.mem_flatMap, List.mem_map, List.mem_filterMap, Prod.mk.injEq]
  constructor
  · rintro ⟨rule, hrule, t, ⟨x, hx, hxt⟩, rfl, rfl⟩
    obtain ⟨r, hr, hrhs⟩ := exists_of_mem_rules hrule
    cases x with
    | terminal t' =>
      cases hxt
      exact ⟨r, hr, t, hrhs ▸ hx, rfl⟩
    | nonterminal => cases hxt
  · rintro ⟨r, hr, t, ht, rfl⟩
    obtain ⟨rule, hrule, hn, hrhs⟩ := exists_mem_rules hr
    exact ⟨rule, hrule, t, ⟨.terminal t, hrhs ▸ ht, rfl⟩, hn, rfl⟩

theorem mem_firstFlow_links {m n : Nat} :
    (m, n) ∈ g.firstFlow.links ↔
      ∃ r ∈ g.rulesOf n, .nonterminal m ∈ fronts g.nullable (g.rhs r) := by
  simp only [firstFlow, List.mem_flatMap, List.mem_map, List.mem_filterMap, Prod.mk.injEq]
  constructor
  · rintro ⟨rule, hrule, k, ⟨x, hx, hxk⟩, rfl, rfl⟩
    obtain ⟨r, hr, hrhs⟩ := exists_of_mem_rules hrule
    cases x with
    | terminal => cases hxk
    | nonterminal k' =>
      cases hxk
      exact ⟨r, hr, hrhs ▸ hx⟩
  · rintro ⟨r, hr, hm⟩
    obtain ⟨rule, hrule, hn, hrhs⟩ := exists_mem_rules hr
    exact ⟨rule, hrule, m, ⟨.nonterminal m, hrhs ▸ hm, rfl⟩, rfl, hn⟩

/-- The symbols derive something that the terminal begins. -/
def Begins (g : Cfg) (xs : List Sym) (t : Nat) : Prop := ∃ w, g.Derives xs (.terminal t :: w)

theorem derives_of_mem_fronts {xs : List Sym} {x : Sym} (h : x ∈ fronts g.nullable xs) :
    ∃ v, g.Derives xs (x :: v) := by
  obtain ⟨u, v, rfl, hu⟩ := mem_fronts_iff.1 h
  exact ⟨v, (vanish_iff_yields.1 hu).derives.append_append (.refl (x :: v))⟩

theorem begins_of_mem_fronts {xs : List Sym} {x : Sym} {t : Nat} (h : x ∈ fronts g.nullable xs)
    (hx : g.Begins [x] t) : g.Begins xs t := by
  obtain ⟨v, hv⟩ := derives_of_mem_fronts h
  obtain ⟨w, hw⟩ := hx
  exact ⟨w ++ v, hv.trans (hw.append_append (.refl v))⟩

theorem begins_of_reaches {n t : Nat} (h : g.firstFlow.Reaches n t) :
    g.Begins [.nonterminal n] t := by
  induction h with
  | seed hs ht =>
    obtain ⟨r, hr, t', hfront, rfl⟩ := mem_firstFlow_seeds.1 hs
    rw [IdSet.mem_singleton.1 ht]
    obtain ⟨v, hv⟩ := derives_of_mem_fronts hfront
    exact ⟨v, (Derives.rule hr).trans hv⟩
  | link hl _ ih =>
    obtain ⟨r, hr, hfront⟩ := mem_firstFlow_links.1 hl
    obtain ⟨w, hw⟩ := begins_of_mem_fronts hfront ih
    exact ⟨w, (Derives.rule hr).trans hw⟩

def Reached (g : Cfg) (t : Nat) : Sym → Prop
  | .terminal t' => t' = t
  | .nonterminal n => g.firstFlow.Reaches n t

theorem exists_reached_of_yields {xs w : List Sym} {t : Nat} (h : g.Yields xs w)
    (hw : w.head? = some (.terminal t)) : ∃ x ∈ fronts g.nullable xs, g.Reached t x := by
  induction h with
  | nil => cases hw
  | keep x _ _ =>
    obtain rfl : x = .terminal t := by simpa using hw
    exact ⟨.terminal t, by simp [fronts], rfl⟩
  | @expand n r xs u w hr hu _ ihu ihw =>
    cases u with
    | nil =>
      obtain ⟨x, hx, ht⟩ := ihw hw
      have hn : (Sym.nonterminal n).vanishes g.nullable = true :=
        mem_nullable_iff_yields.2 (.expand hr hu .nil)
      exact ⟨x, by simp [fronts, hn, hx], ht⟩
    | cons y u =>
      obtain ⟨x, hx, ht⟩ := ihu (by simpa using hw)
      refine ⟨.nonterminal n, by simp [fronts], ?_⟩
      cases x with
      | terminal t' =>
        have hseed := mem_firstFlow_seeds.2 ⟨r, hr, t', hx, rfl⟩
        exact .seed hseed (IdSet.mem_singleton.2 ht.symm)
      | nonterminal m => exact .link (mem_firstFlow_links.2 ⟨r, hr, hx⟩) ht

theorem mem_ofSym_iff (hlhs : ∀ {n r}, r ∈ g.rulesOf n → n < g.nonterminals) {x : Sym} {t : Nat} :
    t ∈ g.firstSets.ofSym x ↔ g.Reached t x := by
  cases x with
  | terminal t' => exact IdSet.mem_singleton.trans eq_comm
  | nonterminal n =>
    refine Flow.mem_solve_iff (fun ⟨n, s⟩ h => ?_) fun ⟨m, n⟩ h => ?_
    · obtain ⟨r, hr, -⟩ := mem_firstFlow_seeds.1 h
      exact hlhs hr
    · obtain ⟨r, hr, -⟩ := mem_firstFlow_links.1 h
      exact hlhs hr

theorem mem_ofSyms_iff_fronts {f : FirstSets} {xs : List Sym} {t : Nat} :
    t ∈ f.ofSyms xs ↔ ∃ x ∈ fronts f.nullable xs, t ∈ f.ofSym x := by
  have hfold : ∀ (xs : List Sym) (s : IdSet),
      t ∈ xs.foldl (fun s x => s ∪ f.ofSym x) s ↔ t ∈ s ∨ ∃ x ∈ xs, t ∈ f.ofSym x := by
    intro xs
    induction xs with
    | nil => simp
    | cons x xs ih => simp [ih, or_assoc]
  simp [FirstSets.ofSyms, hfold]

/-- The first terminals of symbols are those that begin what the symbols derive. -/
theorem mem_ofSyms_iff_begins (hlhs : ∀ {n r}, r ∈ g.rulesOf n → n < g.nonterminals)
    {xs : List Sym} {t : Nat} : t ∈ g.firstSets.ofSyms xs ↔ g.Begins xs t := by
  rw [mem_ofSyms_iff_fronts]
  constructor
  · rintro ⟨x, hx, ht⟩
    refine begins_of_mem_fronts hx ?_
    have hreached := (mem_ofSym_iff hlhs).1 ht
    cases x with
    | terminal t' =>
      obtain rfl : t' = t := hreached
      exact ⟨[], .refl _⟩
    | nonterminal n => exact begins_of_reaches hreached
  · rintro ⟨w, hw⟩
    obtain ⟨x, hx, ht⟩ := exists_reached_of_yields (derives_iff_yields.1 hw) rfl
    exact ⟨x, hx, (mem_ofSym_iff hlhs).2 ht⟩

theorem vanish_iff_derives {xs : List Sym} :
    g.firstSets.vanish xs = true ↔ g.Derives xs [] := by
  rw [derives_iff_yields, ← vanish_iff_yields]
  rfl

end Cfg
end Lalr
