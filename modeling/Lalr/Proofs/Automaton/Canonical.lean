import Lalr.Proofs.Automaton.Paths
import Lalr.Proofs.Grammar.Assembly

/-!
The states are the canonical collection of LR(0) item sets: all that the start item leads to by
closing and moving the dot on, each set once. A grammar has only one such collection, up to the
numbers of the states.
-/

namespace Lalr

variable {ν : Type} {g : Cfg}

theorem Item.Ascending.eq_of_mem_iff {items items' : List Item} (h : Ascending items)
    (h' : Ascending items') (hmem : ∀ i, i ∈ items ↔ i ∈ items') : items = items' :=
  (h.sublist h' fun i => (hmem i).1).antisymm (h'.sublist h fun i => (hmem i).2)

/-- The items of a kernel, and the beginnings of the rules of each nonterminal after a dot. -/
inductive Cfg.Closed (g : Cfg) (kernel : List Item) : Item → Prop
  | kernel {i} (h : i ∈ kernel) : Closed g kernel i
  | predict {i n r} (h : Closed g kernel i) (hn : g.next? i = some (.nonterminal n))
      (hr : r ∈ g.rulesOf n) : Closed g kernel ⟨r, 0⟩

namespace State

/-- The kernel stands in order at the front, and what it closes to follows. -/
structure IsClosure (g : Cfg) (s : State) : Prop where
  ascending : Item.Ascending s.kernel
  kernel_isPrefix : s.kernel <+: s.items
  nodup : s.items.Nodup
  mem_items_iff {i : Item} : i ∈ s.items ↔ g.Closed s.kernel i

/-- There is one way on for each symbol after a dot, to the state of the items moved on. -/
structure LeadsOn (g : Cfg) (states : Array State) (s : State) : Prop where
  mem_symbols_iff {x : Sym} :
    (∃ q, (x, q) ∈ s.transitions) ↔ ∃ i ∈ s.items, g.next? i = some x
  nodup : (s.transitions.map (·.1)).Nodup
  exists_target {x : Sym} {q : Nat} : (x, q) ∈ s.transitions → ∃ s', states[q]? = some s' ∧
    ∀ j, j ∈ s'.kernel ↔ ∃ i ∈ s.items, g.next? i = some x ∧ j = i.advance

end State

/-- A transition between two states, by their numbers. -/
def Linked (states : Array State) (p q : Nat) : Prop :=
  ∃ s x, states[p]? = some s ∧ (x, q) ∈ s.transitions

/-- State 0 is that of the start item, and the others are those that follow from it. -/
structure Cfg.IsCanonical (g : Cfg) (states : Array State) : Prop where
  kernel_zero : states[0]?.map State.kernel = some [.start]
  isClosure {s : State} : s ∈ states → s.IsClosure g
  leadsOn {s : State} : s ∈ states → s.LeadsOn g states
  eq_of_kernel {q q' : Nat} {s s' : State} : states[q]? = some s → states[q']? = some s' →
    (∀ i, i ∈ s.kernel ↔ i ∈ s'.kernel) → q = q'
  reachable {q : Nat} : q < states.size → Relation.ReflTransGen (Linked states) 0 q

namespace Cfg

theorem closed_iff_leads {kernel : List Item} {i : Item} :
    g.Closed kernel i ↔ Leads g.predicted kernel i := by
  constructor
  · intro h
    induction h with
    | kernel h => exact .of_mem h
    | predict _ hn hr ih => exact ih.step (mem_predicted_iff.2 ⟨_, hn, hr, rfl⟩)
  · refine Leads.induction (fun i => .kernel) fun i j hi hj => ?_
    obtain ⟨n, hn, hr, hdot⟩ := mem_predicted_iff.1 hj
    have hj : g.Closed kernel ⟨j.rule, 0⟩ := .predict hi hn hr
    rwa [← hdot] at hj

theorem getElem?_states {q : Nat} {s : State} :
    g.states[q]? = some s ↔ ∃ kernel, g.kernels[q]? = some kernel ∧
      g.stateOf g.kernels kernel = s := by simp [states]

theorem mem_states {s : State} :
    s ∈ g.states ↔ ∃ kernel ∈ g.kernels, g.stateOf g.kernels kernel = s := by simp [states]

theorem mem_transitions_iff {kernel : List Item} {x : Sym} {q : Nat} :
    (x, q) ∈ (g.stateOf g.kernels kernel).transitions ↔
      (∃ i ∈ g.closure kernel, g.next? i = some x) ∧
        q = g.kernels.idxOf (g.successor (g.closure kernel) x) := by
  simp only [stateOf, successors, List.map_map, List.mem_map, List.mem_eraseDups,
    List.mem_filterMap, Function.comp_apply, Prod.mk.injEq]
  constructor
  · rintro ⟨y, hy, rfl, rfl⟩
    exact ⟨hy, rfl⟩
  · rintro ⟨hx, rfl⟩
    exact ⟨x, hx, rfl, rfl⟩

theorem isClosure_stateOf {kernel : List Item} (h : kernel ∈ g.kernels) :
    (g.stateOf g.kernels kernel).IsClosure g where
  ascending := ascending_of_mem_kernels h
  kernel_isPrefix := discover_extends _ _ _
  nodup := nodup_closure (nodup_of_mem_kernels h)
  mem_items_iff := (mem_closure_iff (nodup_of_mem_kernels h)).trans closed_iff_leads.symm

theorem getElem?_idxOf_successor (hg : 0 < g.rules.size) {kernel : List Item}
    (h : kernel ∈ g.kernels) {i : Item} {x : Sym} (hi : i ∈ g.closure kernel)
    (hx : g.next? i = some x) :
    g.kernels[g.kernels.idxOf (g.successor (g.closure kernel) x)]? =
      some (g.successor (g.closure kernel) x) :=
  List.getElem?_idxOf (follows_subset_kernels hg h (mem_follows_iff.2 ⟨i, hi, x, hx, rfl⟩))

theorem leadsOn_stateOf (hg : 0 < g.rules.size) {kernel : List Item} (h : kernel ∈ g.kernels) :
    (g.stateOf g.kernels kernel).LeadsOn g g.states where
  mem_symbols_iff {x} := by
    simp only [mem_transitions_iff]
    exact ⟨fun ⟨_, hx, _⟩ => hx, fun hx => ⟨_, hx, rfl⟩⟩
  nodup := by
    have hfst : (g.stateOf g.kernels kernel).transitions.map (·.1) =
        ((g.closure kernel).filterMap g.next?).eraseDups := by
      simp [stateOf, successors, Function.comp_def]
    rw [hfst]
    exact nodup_eraseDups _
  exists_target {x q} hq := by
    obtain ⟨⟨i, hi, hx⟩, rfl⟩ := mem_transitions_iff.1 hq
    exact ⟨_, getElem?_states.2 ⟨_, getElem?_idxOf_successor hg h hi hx, rfl⟩,
      fun j => mem_successor_iff⟩

theorem linked_of_goTo {q q' : Nat} {x : Sym} (h : g.goTo q x = some q') :
    Linked g.states q q' := by
  obtain ⟨i, hi, hx⟩ := exists_mem_of_goTo h
  obtain ⟨kernel, hk⟩ := exists_kernel_of_mem hi
  refine ⟨_, x, getElem?_states.2 ⟨kernel, hk, rfl⟩, mem_transitions_iff.2 ?_⟩
  rw [goTo_of_kernel hk, if_pos ⟨i, hi, hx⟩, Option.some.injEq, items_of_kernel hk] at h
  exact ⟨⟨i, items_of_kernel hk ▸ hi, hx⟩, h.symm⟩

theorem Path.linked {γ : List Sym} {q : Nat} (h : g.Path γ q) :
    Relation.ReflTransGen (Linked g.states) 0 q := by
  induction h with
  | nil => exact .refl
  | snoc _ hx ih => exact ih.tail (linked_of_goTo hx)

theorem eq_of_getElem?_states {q q' : Nat} {s s' : State} (h : g.states[q]? = some s)
    (h' : g.states[q']? = some s') (hmem : ∀ i, i ∈ s.kernel ↔ i ∈ s'.kernel) : q = q' := by
  obtain ⟨kernel, hk, rfl⟩ := getElem?_states.1 h
  obtain ⟨kernel', hk', rfl⟩ := getElem?_states.1 h'
  have hkernel : kernel = kernel' :=
    (ascending_of_mem_kernels (List.mem_of_getElem? hk)).eq_of_mem_iff
      (ascending_of_mem_kernels (List.mem_of_getElem? hk')) hmem
  obtain ⟨hlt, -⟩ := List.getElem?_eq_some_iff.1 hk
  exact (List.getElem?_inj hlt g.nodup_kernels).1 (by rw [hk, hk', hkernel])

theorem isCanonical_states (hg : 0 < g.rules.size) : g.IsCanonical g.states where
  kernel_zero := by simp [states, kernels_zero, stateOf]
  isClosure hs := by
    obtain ⟨kernel, hk, rfl⟩ := mem_states.1 hs
    exact isClosure_stateOf hk
  leadsOn hs := by
    obtain ⟨kernel, hk, rfl⟩ := mem_states.1 hs
    exact leadsOn_stateOf hg hk
  eq_of_kernel := eq_of_getElem?_states
  reachable hq := by
    obtain ⟨γ, hγ⟩ := exists_path hg hq
    exact hγ.linked

end Cfg

namespace Cfg.IsCanonical

variable {states states' : Array State}

theorem mem_items_iff_of_kernel (h : g.IsCanonical states) (h' : g.IsCanonical states')
    {s s' : State} (hs : s ∈ states) (hs' : s' ∈ states') (hkernel : s'.kernel = s.kernel)
    {i : Item} : i ∈ s'.items ↔ i ∈ s.items := by
  rw [(h'.isClosure hs').mem_items_iff, (h.isClosure hs).mem_items_iff, hkernel]

/-- Whatever order the states of a grammar are found in, they are the same item sets. -/
theorem exists_same_kernel (h : g.IsCanonical states) (h' : g.IsCanonical states') {q : Nat}
    {s : State} (hq : states[q]? = some s) : ∃ s' ∈ states', s'.kernel = s.kernel := by
  have hreach := h.reachable (Array.getElem?_eq_some_iff.1 hq).1
  induction hreach generalizing s with
  | refl =>
    have hzero := h.kernel_zero
    obtain ⟨s', hs', hkernel⟩ := Option.map_eq_some_iff.1 h'.kernel_zero
    rw [hq, Option.map_some, Option.some.injEq] at hzero
    exact ⟨s', Array.mem_of_getElem? hs', hkernel.trans hzero.symm⟩
  | @tail p q _ hlink ih =>
    obtain ⟨t, x, hp, hx⟩ := hlink
    have ht := Array.mem_of_getElem? hp
    obtain ⟨t', ht', hkernel⟩ := ih hp
    have hitems := fun i => mem_items_iff_of_kernel h h' ht ht' hkernel (i := i)
    obtain ⟨s₁, hs₁, hmem⟩ := (h.leadsOn ht).exists_target hx
    obtain rfl : s₁ = s := Option.some.inj (hs₁.symm.trans hq)
    obtain ⟨i, hi, hnext⟩ := (h.leadsOn ht).mem_symbols_iff.1 ⟨q, hx⟩
    obtain ⟨q', hx'⟩ := (h'.leadsOn ht').mem_symbols_iff.2 ⟨i, (hitems i).2 hi, hnext⟩
    obtain ⟨s', hs', hmem'⟩ := (h'.leadsOn ht').exists_target hx'
    have hs'mem := Array.mem_of_getElem? hs'
    refine ⟨s', hs'mem, (h'.isClosure hs'mem).ascending.eq_of_mem_iff
      (h.isClosure (Array.mem_of_getElem? hq)).ascending fun j => ?_⟩
    simp only [hmem, hmem', hitems]

end Cfg.IsCanonical

/-- The states of a grammar are its canonical collection, which begins with the rule for a whole
input. -/
theorem Grammar.IsAssembled.canonical_states {g : Grammar ν} (h : g.IsAssembled) :
    (∃ p, g.productions[Item.start.rule]? = some p ∧ p.lhs = Grammar.acceptName ∧
      p.rhs = [g.startName] ∧ p.rule = ⟨0, [.nonterminal g.start]⟩ ∧ Item.start.dot = 0) ∧
      g.cfg.IsCanonical g.cfg.states := by
  obtain ⟨p, hp, hlhs, hrhs, hrule⟩ := h.exists_production_zero
  have hsize : 0 < g.cfg.rules.size := by
    simpa [Grammar.cfg] using (Array.getElem?_eq_some_iff.1 hp).1
  exact ⟨⟨p, hp, hlhs, hrhs, hrule, rfl⟩, Cfg.isCanonical_states hsize⟩

/-- Sums have five states. -/
theorem Sums.canonical_states_sums : grammar.IsAssembled ∧
    grammar.cfg.IsCanonical grammar.cfg.states ∧ grammar.cfg.states.size = 5 :=
  ⟨isAssembled, (Grammar.IsAssembled.canonical_states isAssembled).2, by decide +kernel⟩

end Lalr
