import Lalr.Proofs.Automaton.States

/-!
Paths from state 0, and the items that a path leads to. The items of a state are those of any path
to it, so that what is known of an item along a path is known of it in the state.
-/

namespace Lalr.Cfg

variable {g : Cfg}

/-- The symbols lead from state 0 to the state. -/
inductive Path (g : Cfg) : List Sym → Nat → Prop
  | nil : Path g [] 0
  | snoc {γ q q' x} (h : Path g γ q) (hx : g.goTo q x = some q') : Path g (γ ++ [x]) q'

theorem Path.of_snoc {γ : List Sym} {x : Sym} {q' : Nat} (h : g.Path (γ ++ [x]) q') :
    ∃ q, g.Path γ q ∧ g.goTo q x = some q' := by
  generalize hγ : γ ++ [x] = γx at h
  cases h with
  | nil => simp at hγ
  | snoc h hx =>
    obtain ⟨rfl, hx'⟩ := List.append_inj' hγ rfl
    cases hx'
    exact ⟨_, h, hx⟩

theorem Path.eq_zero {q : Nat} (h : g.Path [] q) : q = 0 := by
  generalize hγ : [] = γ at h
  cases h with
  | nil => rfl
  | snoc => simp at hγ

theorem Path.unique {γ : List Sym} {q q' : Nat} (h : g.Path γ q) (h' : g.Path γ q') : q = q' := by
  induction h generalizing q' with
  | nil => exact h'.eq_zero.symm
  | snoc _ hx ih =>
    obtain ⟨p, hp, hx'⟩ := h'.of_snoc
    rw [ih hp, hx'] at hx
    exact (Option.some.inj hx).symm

/-- Where a path leads after it has come to a state depends on the state only. -/
theorem Path.transfer {γ γ' δ : List Sym} {p q : Nat} (hγ : g.Path γ p) (hγ' : g.Path γ' p)
    (h : g.Path (γ ++ δ) q) : g.Path (γ' ++ δ) q := by
  induction δ using List.reverseRecOn generalizing q with
  | nil =>
    rw [List.append_nil] at h ⊢
    rwa [h.unique hγ]
  | append_singleton δ x ih =>
    rw [← List.append_assoc] at h ⊢
    obtain ⟨r, hr, hx⟩ := h.of_snoc
    exact (ih hr).snoc hx

theorem exists_path (hg : 0 < g.rules.size) {q : Nat} (hq : q < g.states.size) :
    ∃ γ, g.Path γ q := by
  have hall : ∀ kernel ∈ g.kernels, ∃ γ, g.Path γ (g.kernels.idxOf kernel) := by
    intro kernel hk
    have hlead := leads_of_mem_discover hk
    refine (hlead.induction (P := fun k => k ∈ g.kernels ∧ ∃ γ, g.Path γ (g.kernels.idxOf k))
      (fun k hk => ?_) fun k k' ⟨hk, γ, hγ⟩ hk' => ?_).2
    · rw [List.mem_singleton.1 hk]
      have hzero := (List.getElem?_eq_some_iff.1 g.kernels_zero)
      obtain ⟨hlt, hget⟩ := hzero
      have hmem : [Item.start] ∈ g.kernels := List.mem_of_getElem? g.kernels_zero
      refine ⟨hmem, [], ?_⟩
      rw [← hget, g.nodup_kernels.idxOf_getElem 0 hlt]
      exact .nil
    · refine ⟨follows_subset_kernels hg hk hk', ?_⟩
      obtain ⟨i, hi, x, hx, rfl⟩ := mem_follows_iff.1 hk'
      have hget : g.kernels[g.kernels.idxOf k]? = some k := List.getElem?_idxOf hk
      have hgoto := goTo_of_kernel hget x
      rw [items_of_kernel hget, if_pos ⟨i, hi, hx⟩] at hgoto
      exact ⟨γ ++ [x], hγ.snoc hgoto⟩
  rw [size_states] at hq
  obtain ⟨γ, hγ⟩ := hall g.kernels[q] (List.getElem_mem hq)
  rw [g.nodup_kernels.idxOf_getElem q hq] at hγ
  exact ⟨γ, hγ⟩

def finished (g : Cfg) (r : Nat) : Item := ⟨r, (g.rhs r).length⟩

/-- The items of the set that the symbols lead to when sets are not numbered but computed anew. -/
inductive ItemAfter (g : Cfg) : List Sym → Item → Prop
  | start : ItemAfter g [] .start
  | advance {γ i x} (h : ItemAfter g γ i) (hx : g.next? i = some x) :
      ItemAfter g (γ ++ [x]) i.advance
  | predict {γ i j} (h : ItemAfter g γ i) (hj : j ∈ g.predicted i) : ItemAfter g γ j

theorem itemAfter_of_mem (hg : 0 < g.rules.size) {γ : List Sym} {q : Nat} (h : g.Path γ q)
    {i : Item} (hi : i ∈ g.items q) : g.ItemAfter γ i := by
  induction h generalizing i with
  | nil =>
    refine (mem_items_zero_iff.1 hi).induction (fun j hj => ?_) fun _ _ => .predict
    rw [List.mem_singleton.1 hj]
    exact .start
  | snoc _ hx ih =>
    refine ((mem_items_goTo_iff hg hx).1 hi).induction (fun j hj => ?_) fun _ _ => .predict
    obtain ⟨i, hi, hnext, rfl⟩ := mem_successor_iff.1 hj
    exact .advance (ih hi) hnext

theorem ItemAfter.mem_items (hg : 0 < g.rules.size) {γ : List Sym} {i : Item}
    (h : g.ItemAfter γ i) {q : Nat} (hq : g.Path γ q) : i ∈ g.items q := by
  induction h generalizing q with
  | start =>
    rw [hq.eq_zero]
    exact g.start_mem_items
  | advance _ hx ih =>
    obtain ⟨p, hp, hgoto⟩ := hq.of_snoc
    exact advance_mem_items hg hgoto (ih hp) hx
  | predict _ hj ih => exact predicted_mem_items (ih hq) hj

theorem mem_items_iff_itemAfter (hg : 0 < g.rules.size) {γ : List Sym} {q : Nat}
    (h : g.Path γ q) {i : Item} : i ∈ g.items q ↔ g.ItemAfter γ i :=
  ⟨itemAfter_of_mem hg h, fun hi => hi.mem_items hg h⟩

theorem ItemAfter.exists_path (hg : 0 < g.rules.size) {γ : List Sym} {i : Item}
    (h : g.ItemAfter γ i) : ∃ q, g.Path γ q := by
  induction h with
  | start => exact ⟨0, .nil⟩
  | advance h hx ih =>
    obtain ⟨q, hq⟩ := ih
    obtain ⟨q', hq'⟩ := exists_goTo (h.mem_items hg hq) hx
    exact ⟨q', hq.snoc hq'⟩
  | predict _ _ ih => exact ih

theorem take_advance {i : Item} {x : Sym} (h : g.next? i = some x) :
    (g.rhs i.rule).take (i.dot + 1) = (g.rhs i.rule).take i.dot ++ [x] := by
  rw [List.take_add_one, ← List.head?_drop]
  exact congrArg _ (congrArg Option.toList h)

theorem dot_lt_of_next? {i : Item} {x : Sym} (h : g.next? i = some x) :
    i.dot < (g.rhs i.rule).length := by
  by_contra hd
  have hrest : g.rest i = [] := List.drop_eq_nil_of_le (Nat.le_of_not_lt hd)
  rw [rest_eq_nil_iff, h] at hrest
  cases hrest

namespace ItemAfter

theorem rule_lt (hg : 0 < g.rules.size) {γ : List Sym} {i : Item} (h : g.ItemAfter γ i) :
    i.rule < g.rules.size := by
  induction h with
  | start => exact hg
  | advance _ _ ih => exact ih
  | predict _ hj _ =>
    obtain ⟨n, -, hr, -⟩ := mem_predicted_iff.1 hj
    exact lt_size_of_mem_rulesOf hr

/-- A path to an item goes through the beginning of its rule. -/
theorem split {γ : List Sym} {i : Item} (h : g.ItemAfter γ i) :
    ∃ γ', γ = γ' ++ (g.rhs i.rule).take i.dot ∧ g.ItemAfter γ' ⟨i.rule, 0⟩ := by
  induction h with
  | start => exact ⟨[], rfl, .start⟩
  | @advance γ i x _ hx ih =>
    obtain ⟨γ', rfl, hi⟩ := ih
    refine ⟨γ', ?_, hi⟩
    rw [List.append_assoc, ← take_advance hx]
    rfl
  | @predict γ i j h hj _ =>
    obtain ⟨n, -, -, hd⟩ := mem_predicted_iff.1 hj
    have hj0 : j = ⟨j.rule, 0⟩ := by rw [← hd]
    refine ⟨γ, by simp [hd], ?_⟩
    rw [← hj0]
    exact .predict h hj

/-- Before the symbol after the dot the path has what is before the dot. -/
theorem split_next {γ : List Sym} {i : Item} {x : Sym} (h : g.ItemAfter γ i)
    (hx : g.next? i = some x) :
    ∃ γ' before after, γ = γ' ++ before ∧ g.rhs i.rule = before ++ x :: after ∧
      i.dot = before.length ∧ g.ItemAfter γ' ⟨i.rule, 0⟩ := by
  obtain ⟨γ', hγ, hi⟩ := h.split
  have hlt := dot_lt_of_next? hx
  refine ⟨γ', _, (g.rhs i.rule).drop (i.dot + 1), hγ, ?_, ?_, hi⟩
  · have hdrop : (g.rhs i.rule).drop i.dot = x :: g.rest i.advance := next?_eq_some_iff.1 hx
    have htake := List.take_append_drop i.dot (g.rhs i.rule)
    rw [hdrop] at htake
    exact htake.symm
  · rw [List.length_take, Nat.min_eq_left (Nat.le_of_lt hlt)]

theorem of_zero {γ : List Sym} {r : Nat} (h : g.ItemAfter γ ⟨r, 0⟩) :
    γ = [] ∧ r = 0 ∨
      ∃ i n, g.ItemAfter γ i ∧ g.next? i = some (.nonterminal n) ∧ r ∈ g.rulesOf n := by
  generalize hi : (⟨r, 0⟩ : Item) = j at h
  cases h with
  | start => exact .inl ⟨rfl, congrArg Item.rule hi⟩
  | advance _ _ => cases congrArg Item.dot hi
  | predict h hj =>
    obtain ⟨n, hn, hr, -⟩ := mem_predicted_iff.1 hj
    rw [← hi] at hr
    exact .inr ⟨_, n, h, hn, hr⟩

/-- A path that completes a rule ends with the right-hand side. Before it another item waits for the
left-hand side. -/
theorem of_finished {γ : List Sym} {r : Nat} (hi : g.ItemAfter γ (g.finished r)) (hr : r ≠ 0) :
    ∃ γ' i n, γ = γ' ++ g.rhs r ∧ g.ItemAfter γ' i ∧ g.next? i = some (.nonterminal n) ∧
      r ∈ g.rulesOf n := by
  obtain ⟨γ', rfl, hbegin⟩ := hi.split
  rcases hbegin.of_zero with ⟨-, hzero⟩ | ⟨i, n, hi, hn, hmem⟩
  · exact absurd hzero hr
  · exact ⟨γ', i, n, by simp [finished], hi, hn, hmem⟩

end ItemAfter

namespace WellFormed

variable {terminals start : Nat}

theorem mem_rhs_of_next? {i : Item} {x : Sym} (hx : g.next? i = some x) : x ∈ g.rhs i.rule := by
  have hrest := next?_eq_some_iff.1 hx
  exact List.mem_of_mem_drop (hrest ▸ List.mem_cons_self ..)

theorem rule_ne_zero_of_next? (h : g.WellFormed terminals start) {i : Item} {n r : Nat}
    (hn : g.next? i = some (.nonterminal n)) (hr : r ∈ g.rulesOf n) : r ≠ 0 := by
  intro hzero
  obtain ⟨rule, hrule, hlhs⟩ := mem_rulesOf_iff.1 hr
  obtain ⟨rule', hrule', hlhs'⟩ := mem_rulesOf_iff.1 h.zero_mem
  rw [hzero, hrule', Option.some.injEq] at hrule
  have hpos : 0 < n := (h.ordinary (mem_rhs_of_next? hn)).1
  rw [← hlhs, ← hrule, hlhs'] at hpos
  exact Nat.lt_irrefl 0 hpos

theorem of_itemAfter_accepting (h : g.WellFormed terminals start) {γ : List Sym}
    (hi : g.ItemAfter γ (g.finished 0)) : γ = [.nonterminal start] := by
  obtain ⟨γ', rfl, hbegin⟩ := hi.split
  rcases hbegin.of_zero with ⟨rfl, -⟩ | ⟨i, n, hi, hn, hmem⟩
  · simp [finished, h.rhs_zero]
  · exact absurd rfl (h.rule_ne_zero_of_next? hn hmem)

end WellFormed

end Lalr.Cfg
