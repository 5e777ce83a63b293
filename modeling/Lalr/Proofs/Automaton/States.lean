import Lalr.Automaton.Basic
import Lalr.Proofs.Cfg.Derivation
import Lalr.Proofs.Saturation
import Mathlib.Data.List.Sort
import Mathlib.Data.List.Sublists

/-!
The states of the automaton are the item sets that its kernels close to, and nothing is missing
among them: where an item of a state has a symbol after its dot, there is a state to go to.
-/

namespace Lalr

namespace Item

theorem before_trans {i j k : Item} (h : i.before j = true) (h' : j.before k = true) :
    i.before k = true := by
  simp only [before, Bool.or_eq_true, Bool.and_eq_true, decide_eq_true_eq] at *
  omega

theorem before_or {i j : Item} (h : ¬ i.before j = true) (hne : i ≠ j) : j.before i = true := by
  have hne' : ¬ (i.rule = j.rule ∧ i.dot = j.dot) := by
    rintro ⟨hr, hd⟩
    exact hne (by cases i; cases j; simp_all)
  simp only [before, Bool.or_eq_true, Bool.and_eq_true, decide_eq_true_eq] at *
  omega

theorem not_before_self (i : Item) : ¬ i.before i = true := by simp [before]

/-- Each item comes before all that follow it. -/
def Ascending (items : List Item) : Prop := items.Pairwise fun i j => i.before j = true

theorem Ascending.insert {items : List Item} (i : Item) (h : Ascending items) :
    Ascending (Item.insert i items) := by
  induction items with
  | nil => simp [Item.insert, Ascending]
  | cons j js ih =>
    obtain ⟨hj, hjs⟩ := List.pairwise_cons.1 h
    simp only [Item.insert]
    split
    · next hij =>
      refine List.pairwise_cons.2 ⟨fun k hk => ?_, h⟩
      rcases List.mem_cons.1 hk with rfl | hk
      · exact hij
      · exact before_trans hij (hj k hk)
    · next hij =>
      split
      · exact h
      · next hne =>
        refine List.pairwise_cons.2 ⟨fun k hk => ?_, ih hjs⟩
        rcases mem_insert.1 hk with rfl | hk
        · exact before_or hij hne
        · exact hj k hk

theorem ascending_sort (items : List Item) : Ascending (sort items) := by
  induction items with
  | nil => exact .nil
  | cons i items ih => exact ih.insert i

theorem Ascending.nodup {items : List Item} (h : Ascending items) : items.Nodup := by
  refine h.imp fun {i j} hij hne => ?_
  subst hne
  exact not_before_self i hij

theorem length_insert_le (i : Item) (items : List Item) :
    (Item.insert i items).length ≤ items.length + 1 := by
  induction items with
  | nil => simp [Item.insert]
  | cons j js ih =>
    simp only [Item.insert]
    split
    · simp
    · split <;> simp only [List.length_cons] <;> omega

theorem length_sort_le (items : List Item) : (sort items).length ≤ items.length := by
  induction items with
  | nil => simp [sort]
  | cons i items ih => exact (length_insert_le i _).trans (Nat.succ_le_succ ih)

theorem Ascending.sublist {items all : List Item} (h : Ascending items) (hall : Ascending all)
    (hsub : items ⊆ all) : items.Sublist all := by
  have hanti : Std.Antisymm fun i j : Item => i.before j = true :=
    ⟨fun i j h h' => absurd (before_trans h h') (not_before_self i)⟩
  exact List.sublist_of_subperm_of_pairwise (h.nodup.subperm hsub) h hall

end Item

namespace Cfg

variable {g : Cfg}

theorem lt_size_of_mem_rulesOf {n r : Nat} (h : r ∈ g.rulesOf n) : r < g.rules.size := by
  obtain ⟨rule, hr, -⟩ := mem_rulesOf_iff.1 h
  exact (Array.getElem?_eq_some_iff.1 hr).1

theorem next?_eq_some_iff {i : Item} {x : Sym} :
    g.next? i = some x ↔ g.rest i = x :: g.rest i.advance := by
  have htail : g.rest i.advance = (g.rest i).tail := by simp [rest, Item.advance]
  rw [htail, next?]
  cases g.rest i with
  | nil => simp
  | cons y ys => simp

theorem next?_of_rest {i : Item} {x : Sym} {xs : List Sym} (h : g.rest i = x :: xs) :
    g.next? i = some x := by simp [next?, h]

theorem rest_advance_of_rest {i : Item} {x : Sym} {xs : List Sym} (h : g.rest i = x :: xs) :
    g.rest i.advance = xs := by
  have hrest := next?_eq_some_iff.1 (next?_of_rest h)
  rw [h] at hrest
  exact (List.cons.inj hrest).2.symm

theorem rest_eq_nil_iff {i : Item} : g.rest i = [] ↔ g.next? i = none := by simp [next?]

theorem mem_beginnings_iff {n : Nat} {j : Item} :
    j ∈ g.beginnings n ↔ j.rule ∈ g.rulesOf n ∧ j.dot = 0 := by
  simp only [beginnings, List.mem_map]
  constructor
  · rintro ⟨r, hr, rfl⟩
    exact ⟨hr, rfl⟩
  · rintro ⟨hr, hd⟩
    exact ⟨j.rule, hr, by rw [← hd]⟩

theorem mem_predicted_iff {i j : Item} :
    j ∈ g.predicted i ↔
      ∃ n, g.next? i = some (.nonterminal n) ∧ j.rule ∈ g.rulesOf n ∧ j.dot = 0 := by
  unfold predicted
  split
  · next n hn => simp [hn, mem_beginnings_iff]
  · next hn =>
    refine ⟨fun h => absurd h List.not_mem_nil, ?_⟩
    rintro ⟨n, h, -⟩
    exact absurd h (hn n)

theorem mem_successor_iff {items : List Item} {x : Sym} {j : Item} :
    j ∈ g.successor items x ↔ ∃ i ∈ items, g.next? i = some x ∧ j = i.advance := by
  simp only [successor, Item.mem_sort, List.mem_map, List.mem_filter, decide_eq_true_eq]
  constructor
  · rintro ⟨i, ⟨hi, hx⟩, rfl⟩
    exact ⟨i, hi, hx, rfl⟩
  · rintro ⟨i, hi, hx, rfl⟩
    exact ⟨i, ⟨hi, hx⟩, rfl⟩

/-! The items of a closure are its kernel and what the kernel predicts. -/

/-- What a closure can be made of. -/
def closable (g : Cfg) (kernel : List Item) : List Item :=
  kernel ++ (List.range g.rules.size).map (⟨·, 0⟩)

theorem predicted_subset_closable (kernel : List Item) (i : Item) :
    g.predicted i ⊆ g.closable kernel := by
  intro j hj
  obtain ⟨n, -, hr, hd⟩ := mem_predicted_iff.1 hj
  refine List.mem_append_right _ (List.mem_map.2 ⟨j.rule, ?_, ?_⟩)
  · exact List.mem_range.2 (lt_size_of_mem_rulesOf hr)
  · rw [← hd]

theorem mem_closure_iff {kernel : List Item} (h : kernel.Nodup) {i : Item} :
    i ∈ g.closure kernel ↔ Leads g.predicted kernel i :=
  mem_discover_iff (g.closable kernel) (fun i _ => predicted_subset_closable kernel i) h
    (List.subset_append_left _ _) (by simp [closable])

theorem nodup_closure {kernel : List Item} (h : kernel.Nodup) : (g.closure kernel).Nodup :=
  nodup_discover h

/-! Kernels are ascending lists of items. -/

theorem mem_allItems_iff {i : Item} :
    i ∈ g.allItems ↔ i.rule < g.rules.size ∧ i.dot ≤ (g.rhs i.rule).length := by
  simp only [allItems, List.mem_flatMap, List.mem_map, List.mem_range]
  constructor
  · rintro ⟨r, hr, d, hd, rfl⟩
    exact ⟨hr, Nat.le_of_lt_succ hd⟩
  · exact fun ⟨hr, hd⟩ => ⟨i.rule, hr, i.dot, Nat.lt_succ_of_le hd, rfl⟩

theorem mem_allItems_of_predicted {i j : Item} (h : j ∈ g.predicted i) : j ∈ g.allItems := by
  obtain ⟨n, -, hr, hd⟩ := mem_predicted_iff.1 h
  exact mem_allItems_iff.2 ⟨lt_size_of_mem_rulesOf hr, by omega⟩

theorem advance_mem_allItems {i : Item} {x : Sym} (h : i ∈ g.allItems) (hx : g.next? i = some x) :
    i.advance ∈ g.allItems := by
  obtain ⟨hr, -⟩ := mem_allItems_iff.1 h
  refine mem_allItems_iff.2 ⟨hr, ?_⟩
  by_contra hd
  have hrest : g.rest i = [] := List.drop_eq_nil_of_le (by simp [Item.advance] at hd; omega)
  rw [rest_eq_nil_iff, hx] at hrest
  cases hrest

def allKernels (g : Cfg) : List (List Item) := (Item.sort g.allItems).sublists

theorem mem_allKernels {kernel : List Item} (h : Item.Ascending kernel)
    (hsub : kernel ⊆ g.allItems) : kernel ∈ g.allKernels :=
  List.mem_sublists.2
    (h.sublist (Item.ascending_sort _) fun _ hi => Item.mem_sort.2 (hsub hi))

theorem subset_of_mem_allKernels {kernel : List Item} (h : kernel ∈ g.allKernels) :
    kernel ⊆ g.allItems := fun _ hi => Item.mem_sort.1 ((List.mem_sublists.1 h).subset hi)

theorem length_allKernels_le (g : Cfg) : g.allKernels.length ≤ 1 <<< g.allItems.length := by
  rw [allKernels, List.length_sublists, Nat.one_shiftLeft]
  exact Nat.pow_le_pow_right (by decide) (Item.length_sort_le _)

theorem successor_mem_allKernels {items : List Item} (h : items ⊆ g.allItems) (x : Sym) :
    g.successor items x ∈ g.allKernels := by
  refine mem_allKernels (Item.ascending_sort _) fun j hj => ?_
  obtain ⟨i, hi, hx, rfl⟩ := mem_successor_iff.1 hj
  exact advance_mem_allItems (h hi) hx

theorem closure_subset {kernel : List Item} (h : kernel ⊆ g.allItems) :
    g.closure kernel ⊆ g.allItems := fun _ hi =>
  (leads_of_mem_discover hi).induction h fun _ _ _ hy => mem_allItems_of_predicted hy

def follows (g : Cfg) (kernel : List Item) : List (List Item) :=
  (g.successors (g.closure kernel)).map (·.2)

theorem mem_follows_iff {kernel k : List Item} :
    k ∈ g.follows kernel ↔ ∃ i ∈ g.closure kernel, ∃ x, g.next? i = some x ∧
      k = g.successor (g.closure kernel) x := by
  simp only [follows, successors, List.map_map, List.mem_map, List.mem_eraseDups,
    List.mem_filterMap, Function.comp_apply]
  constructor
  · rintro ⟨x, ⟨i, hi, hx⟩, rfl⟩
    exact ⟨i, hi, x, hx, rfl⟩
  · rintro ⟨i, hi, x, hx, rfl⟩
    exact ⟨x, ⟨i, hi, hx⟩, rfl⟩

theorem follows_subset {kernel : List Item} (h : kernel ∈ g.allKernels) :
    g.follows kernel ⊆ g.allKernels := by
  intro k hk
  obtain ⟨i, -, x, -, rfl⟩ := mem_follows_iff.1 hk
  exact successor_mem_allKernels (closure_subset (subset_of_mem_allKernels h)) x

theorem start_mem_allKernels (hg : 0 < g.rules.size) : [Item.start] ∈ g.allKernels := by
  refine mem_allKernels (List.pairwise_singleton _ _) fun i hi => ?_
  rw [List.mem_singleton] at hi
  subst hi
  exact mem_allItems_iff.2 ⟨hg, Nat.zero_le _⟩

theorem nodup_kernels (g : Cfg) : g.kernels.Nodup := nodup_discover (List.nodup_singleton _)

theorem follows_subset_kernels (hg : 0 < g.rules.size) {kernel : List Item}
    (h : kernel ∈ g.kernels) : g.follows kernel ⊆ g.kernels := by
  refine discover_closed g.allKernels (fun _ => follows_subset)
    (List.nodup_singleton _) (fun k hk => ?_) g.length_allKernels_le kernel h
  rw [List.mem_singleton] at hk
  subst hk
  exact start_mem_allKernels hg

theorem ascending_of_mem_kernels {kernel : List Item} (h : kernel ∈ g.kernels) :
    Item.Ascending kernel := by
  refine (leads_of_mem_discover h).induction (P := Item.Ascending) ?_ fun k k' _ hk => ?_
  · intro k hk
    rw [List.mem_singleton.1 hk]
    exact List.pairwise_singleton _ _
  · obtain ⟨i, -, x, -, rfl⟩ := mem_follows_iff.1 hk
    exact Item.ascending_sort _

theorem nodup_of_mem_kernels {kernel : List Item} (h : kernel ∈ g.kernels) : kernel.Nodup :=
  (ascending_of_mem_kernels h).nodup

theorem kernels_zero (g : Cfg) : g.kernels[0]? = some [Item.start] := by
  obtain ⟨ks, hks⟩ := discover_extends
    (fun kernel => (g.successors (g.closure kernel)).map (·.2)) (1 <<< g.allItems.length)
    [[Item.start]]
  rw [kernels, ← hks]
  rfl

/-! The states as numbers. -/

def items (g : Cfg) (q : Nat) : List Item := (g.states.getD q default).items

def goTo (g : Cfg) (q : Nat) (x : Sym) : Option Nat := (g.states.getD q default).target? x

theorem size_states (g : Cfg) : g.states.size = g.kernels.length := by simp [states]

theorem states_getD_of_kernel {q : Nat} {kernel : List Item} (h : g.kernels[q]? = some kernel) :
    g.states.getD q default = g.stateOf g.kernels kernel := by simp [states, h]

theorem states_getD_of_none {q : Nat} (h : g.kernels[q]? = none) :
    g.states.getD q default = default := by simp [states, h]

theorem items_of_kernel {q : Nat} {kernel : List Item} (h : g.kernels[q]? = some kernel) :
    g.items q = g.closure kernel := by rw [items, states_getD_of_kernel h, stateOf]

theorem items_of_none {q : Nat} (h : g.kernels[q]? = none) : g.items q = [] := by
  rw [items, states_getD_of_none h]
  rfl

theorem items_of_states_none {q : Nat} (h : g.states[q]? = none) : g.items q = [] := by
  rw [Array.getElem?_eq_none_iff, size_states] at h
  exact items_of_none (List.getElem?_eq_none_iff.2 h)

theorem goTo_of_none {q : Nat} (h : g.kernels[q]? = none) (x : Sym) : g.goTo q x = none := by
  rw [goTo, states_getD_of_none h]
  rfl

theorem nodup_items (g : Cfg) (q : Nat) : (g.items q).Nodup := by
  cases h : g.kernels[q]? with
  | none => simp [items_of_none h]
  | some kernel =>
    rw [items_of_kernel h]
    exact nodup_closure (nodup_of_mem_kernels (List.mem_of_getElem? h))

theorem mem_items_zero_iff {i : Item} :
    i ∈ g.items 0 ↔ Leads g.predicted [Item.start] i := by
  rw [items_of_kernel g.kernels_zero, mem_closure_iff (List.nodup_singleton _)]

theorem start_mem_items (g : Cfg) : Item.start ∈ g.items 0 :=
  mem_items_zero_iff.2 (.of_mem (List.mem_singleton_self _))

theorem predicted_mem_items {q : Nat} {i j : Item} (h : i ∈ g.items q) (hj : j ∈ g.predicted i) :
    j ∈ g.items q := by
  cases hk : g.kernels[q]? with
  | none => simp [items_of_none hk] at h
  | some kernel =>
    have hnodup := nodup_of_mem_kernels (List.mem_of_getElem? hk)
    rw [items_of_kernel hk, mem_closure_iff hnodup] at h ⊢
    exact h.step hj

theorem goTo_of_kernel {q : Nat} {kernel : List Item} (h : g.kernels[q]? = some kernel) (x : Sym) :
    g.goTo q x = if ∃ i ∈ g.items q, g.next? i = some x then
      some (g.kernels.idxOf (g.successor (g.items q) x)) else none := by
  have hmap : (g.stateOf g.kernels kernel).transitions =
      ((g.items q).filterMap g.next?).eraseDups.map fun y =>
        (y, g.kernels.idxOf (g.successor (g.items q) y)) := by
    simp [stateOf, successors, items_of_kernel h]
  rw [goTo, states_getD_of_kernel h, State.target?, hmap, lookup_graph]
  simp [List.mem_eraseDups, List.mem_filterMap]

theorem exists_kernel_of_mem {q : Nat} {i : Item} (h : i ∈ g.items q) :
    ∃ kernel, g.kernels[q]? = some kernel := by
  cases hk : g.kernels[q]? with
  | none => simp [items_of_none hk] at h
  | some kernel => exact ⟨kernel, rfl⟩

theorem lt_size_of_mem_items {q : Nat} {i : Item} (h : i ∈ g.items q) : q < g.states.size := by
  obtain ⟨kernel, hk⟩ := exists_kernel_of_mem h
  exact g.size_states ▸ (List.getElem?_eq_some_iff.1 hk).1

theorem successor_mem_kernels (hg : 0 < g.rules.size) {q : Nat} {i : Item} {x : Sym}
    (h : i ∈ g.items q) (hx : g.next? i = some x) :
    g.successor (g.items q) x ∈ g.kernels := by
  obtain ⟨kernel, hk⟩ := exists_kernel_of_mem h
  refine follows_subset_kernels hg (List.mem_of_getElem? hk) ?_
  rw [items_of_kernel hk] at h ⊢
  exact mem_follows_iff.2 ⟨i, h, x, hx, rfl⟩

theorem exists_goTo {q : Nat} {i : Item} {x : Sym} (h : i ∈ g.items q) (hx : g.next? i = some x) :
    ∃ q', g.goTo q x = some q' := by
  obtain ⟨kernel, hk⟩ := exists_kernel_of_mem h
  rw [goTo_of_kernel hk, if_pos ⟨i, h, hx⟩]
  exact ⟨_, rfl⟩

theorem exists_mem_of_goTo {q q' : Nat} {x : Sym} (h : g.goTo q x = some q') :
    ∃ i ∈ g.items q, g.next? i = some x := by
  cases hk : g.kernels[q]? with
  | none =>
    rw [goTo_of_none hk] at h
    cases h
  | some kernel =>
    rw [goTo_of_kernel hk] at h
    split at h
    · assumption
    · cases h

theorem kernel_of_goTo (hg : 0 < g.rules.size) {q q' : Nat} {x : Sym} (h : g.goTo q x = some q') :
    g.kernels[q']? = some (g.successor (g.items q) x) := by
  obtain ⟨i, hi, hx⟩ := exists_mem_of_goTo h
  obtain ⟨kernel, hk⟩ := exists_kernel_of_mem hi
  rw [goTo_of_kernel hk, if_pos ⟨i, hi, hx⟩, Option.some.injEq] at h
  subst h
  exact List.getElem?_idxOf (successor_mem_kernels hg hi hx)

theorem mem_items_goTo_iff (hg : 0 < g.rules.size) {q q' : Nat} {x : Sym}
    (h : g.goTo q x = some q') {j : Item} :
    j ∈ g.items q' ↔ Leads g.predicted (g.successor (g.items q) x) j := by
  have hk := kernel_of_goTo hg h
  rw [items_of_kernel hk, mem_closure_iff (nodup_of_mem_kernels (List.mem_of_getElem? hk))]

theorem advance_mem_items (hg : 0 < g.rules.size) {q q' : Nat} {i : Item} {x : Sym}
    (h : g.goTo q x = some q') (hi : i ∈ g.items q) (hx : g.next? i = some x) :
    i.advance ∈ g.items q' :=
  (mem_items_goTo_iff hg h).2 (.of_mem (mem_successor_iff.2 ⟨i, hi, hx, rfl⟩))

end Cfg
end Lalr
