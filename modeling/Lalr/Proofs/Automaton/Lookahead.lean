import Lalr.Automaton.Lookahead
import Lalr.Proofs.Automaton.Following
import Lalr.Proofs.Grammar.Assembly

/-!
The lookaheads of an item in a state are those it has along the paths to the state, where sets with
lookaheads are computed anew along each path and never merged.
-/

namespace Lalr

theorem length_le_maxItems {states : Array State} {s : State} (h : s ∈ states) :
    s.items.length ≤ maxItems states := by
  rw [maxItems, ← Array.foldl_toList]
  exact Flow.le_foldl_max_of_mem (fun s : State => s.items.length) (Array.mem_toList_iff.2 h) 0

namespace Automaton

variable {g : Cfg}

theorem mem_zipIdx_iff {α : Type} {xs : List α} {x : α} {k : Nat} :
    (x, k) ∈ xs.zipIdx ↔ xs[k]? = some x := List.mk_mem_zipIdx_iff_getElem?

theorem mem_places_iff {a : Automaton} {q k : Nat} {s : State} {i : Item} {xs : List Sym} :
    (q, s, k, i, xs) ∈ a.places ↔
      a.states[q]? = some s ∧ s.items[k]? = some i ∧ xs = a.cfg.rest i := by
  simp only [places, List.mem_flatMap, List.mem_map, Prod.exists, mem_zipIdx_iff, Prod.mk.injEq,
    Array.getElem?_toList]
  constructor
  · rintro ⟨s, q, hs, i, k, hi, rfl, rfl, rfl, rfl, rfl⟩
    exact ⟨hs, hi, rfl⟩
  · rintro ⟨hs, hi, rfl⟩
    exact ⟨s, q, hs, i, k, hi, rfl, rfl, rfl, rfl, rfl⟩

/-- The slot of an item by its state and itself. -/
def slotOf (g : Cfg) (q : Nat) (i : Item) : Nat := (ofCfg g).slot q ((g.items q).idxOf i)

theorem slot_inj {a : Automaton} {q q' k k' : Nat} (hk : k < a.stride) (hk' : k' < a.stride)
    (h : a.slot q k = a.slot q' k') : q = q' ∧ k = k' := by
  have hq : ∀ {q k}, k < a.stride → a.slot q k / a.stride = q := by
    intro q k hk
    rw [slot, Nat.add_comm, Nat.add_mul_div_right _ _ (Nat.zero_lt_of_lt hk), Nat.div_eq_of_lt hk,
      Nat.zero_add]
  have hqq : q = q' := (hq hk).symm.trans (h ▸ hq hk')
  subst hqq
  exact ⟨rfl, Nat.add_left_cancel h⟩

theorem length_items_le (g : Cfg) (q : Nat) : (g.items q).length ≤ (ofCfg g).stride := by
  cases hs : g.states[q]? with
  | none => simp [Cfg.items_of_states_none hs]
  | some s =>
    have hitems : g.items q = s.items := by simp [Cfg.items, hs]
    rw [hitems]
    exact length_le_maxItems (Array.mem_of_getElem? hs)

theorem idxOf_lt_stride {q : Nat} {i : Item} (h : i ∈ g.items q) :
    (g.items q).idxOf i < (ofCfg g).stride :=
  (List.idxOf_lt_length_of_mem h).trans_le (length_items_le g q)

theorem slotOf_inj {q q' : Nat} {i i' : Item} (hi : i ∈ g.items q) (hi' : i' ∈ g.items q')
    (h : slotOf g q i = slotOf g q' i') : q = q' ∧ i = i' := by
  obtain ⟨rfl, hidx⟩ := slot_inj (idxOf_lt_stride hi) (idxOf_lt_stride hi') h
  exact ⟨rfl, (List.idxOf_inj hi).1 hidx⟩

theorem slotOf_lt {q : Nat} {i : Item} (h : i ∈ g.items q) :
    slotOf g q i < (ofCfg g).flow.size := by
  have hq : q < g.states.size := Cfg.lt_size_of_mem_items h
  calc
    slotOf g q i < q * (ofCfg g).stride + (ofCfg g).stride :=
      Nat.add_lt_add_left (idxOf_lt_stride h) _
    _ = (q + 1) * (ofCfg g).stride := (Nat.succ_mul _ _).symm
    _ ≤ g.states.size * (ofCfg g).stride := Nat.mul_le_mul_right _ hq

theorem mem_places_ofCfg_iff {q k : Nat} {s : State} {i : Item} {xs : List Sym} :
    (q, s, k, i, xs) ∈ (ofCfg g).places ↔
      g.states[q]? = some s ∧ i ∈ g.items q ∧ k = (g.items q).idxOf i ∧ xs = g.rest i := by
  rw [mem_places_iff]
  refine and_congr_right fun hs => ?_
  have hitems : g.items q = s.items := by
    have hs' : g.states[q]? = some s := hs
    simp [Cfg.items, hs']
  rw [hitems, ← and_assoc]
  refine and_congr_left fun _ => ?_
  constructor
  · intro hi
    obtain ⟨hk, rfl⟩ := List.getElem?_eq_some_iff.1 hi
    exact ⟨List.getElem_mem hk, ((hitems ▸ g.nodup_items q).idxOf_getElem k hk).symm⟩
  · rintro ⟨hi, rfl⟩
    exact List.getElem?_idxOf hi

theorem exists_state_of_mem {q : Nat} {i : Item} (h : i ∈ g.items q) :
    ∃ s, g.states[q]? = some s := by
  cases hs : g.states[q]? with
  | none => simp [Cfg.items_of_states_none hs] at h
  | some s => exact ⟨s, rfl⟩

theorem target?_eq_goTo {q : Nat} {s : State} (h : g.states[q]? = some s) (x : Sym) :
    s.target? x = g.goTo q x := by simp [Cfg.goTo, h]

theorem mem_predictedSlots_iff {q : Nat} {s : State} (h : g.states[q]? = some s) {n m : Nat} :
    n ∈ (ofCfg g).predictedSlots q s m ↔ ∃ j ∈ g.beginnings m, n = slotOf g q j := by
  have hitems : g.items q = s.items := by simp [Cfg.items, h]
  simp only [predictedSlots, List.mem_map, slotOf, hitems]
  exact exists_congr fun j => and_congr_right fun _ => eq_comm

theorem mem_advancedSlot_iff {q : Nat} {s : State} (h : g.states[q]? = some s) {n : Nat} {i : Item}
    {x : Sym} :
    n ∈ (ofCfg g).advancedSlot s i x ↔ ∃ q', g.goTo q x = some q' ∧ n = slotOf g q' i.advance := by
  rw [advancedSlot, target?_eq_goTo h]
  cases g.goTo q x with
  | none => simp
  | some q' => simp [slotOf, Cfg.items, ofCfg]

theorem mem_predicted_of_rest {i j : Item} {n : Nat} {xs : List Sym}
    (h : g.rest i = .nonterminal n :: xs) : j ∈ g.predicted i ↔ j ∈ g.beginnings n := by
  simp [Cfg.predicted, Cfg.next?_of_rest h]

theorem exists_rest_of_predicted {i j : Item} (h : j ∈ g.predicted i) :
    ∃ n, g.rest i = .nonterminal n :: g.rest i.advance ∧ j ∈ g.beginnings n := by
  obtain ⟨n, hn, hr, hd⟩ := Cfg.mem_predicted_iff.1 h
  exact ⟨n, Cfg.next?_eq_some_iff.1 hn, Cfg.mem_beginnings_iff.2 ⟨hr, hd⟩⟩

theorem mem_seeds_iff {n : Nat} {s : IdSet} :
    (n, s) ∈ (ofCfg g).seeds ↔ ∃ q, ∃ i ∈ g.items q, ∃ j ∈ g.predicted i,
      n = slotOf g q j ∧ s = g.firstSets.ofSyms (g.rest i.advance) := by
  simp only [seeds, List.mem_flatMap, Prod.exists]
  constructor
  · rintro ⟨q, st, k, i, xs, hplace, hmem⟩
    obtain ⟨hst, hi, rfl, rfl⟩ := mem_places_ofCfg_iff.1 hplace
    split at hmem
    · next n rest heq =>
      injection heq with hq heq
      injection heq with hs heq
      injection heq with hk heq
      injection heq with hii hrest
      subst hq hs hk hii
      obtain ⟨m, hm, heq⟩ := List.mem_map.1 hmem
      obtain ⟨rfl, rfl⟩ := Prod.mk.inj heq
      obtain ⟨j, hj, rfl⟩ := (mem_predictedSlots_iff hst).1 hm
      refine ⟨q, i, hi, j, (mem_predicted_of_rest hrest).2 hj, rfl, ?_⟩
      rw [Cfg.rest_advance_of_rest hrest]
      rfl
    · cases hmem
  · rintro ⟨q, i, hi, j, hj, rfl, rfl⟩
    obtain ⟨st, hst⟩ := exists_state_of_mem hi
    obtain ⟨n, hrest, hn⟩ := exists_rest_of_predicted hj
    refine ⟨q, st, _, i, _, mem_places_ofCfg_iff.2 ⟨hst, hi, rfl, hrest.symm⟩, ?_⟩
    exact List.mem_map.2 ⟨_, (mem_predictedSlots_iff hst).2 ⟨j, hn, rfl⟩, rfl⟩

/-- Along a link an item predicts another one or gives way to itself advanced. -/
def Links (g : Cfg) (q : Nat) (i : Item) (q' : Nat) (i' : Item) : Prop :=
  q' = q ∧ i' ∈ g.predicted i ∧ g.Derives (g.rest i.advance) [] ∨
    ∃ x, g.next? i = some x ∧ g.goTo q x = some q' ∧ i' = i.advance

theorem mem_links_iff {n m : Nat} :
    (n, m) ∈ (ofCfg g).flow.links ↔ ∃ q, ∃ i ∈ g.items q, ∃ q' i', Links g q i q' i' ∧
      n = slotOf g q i ∧ m = slotOf g q' i' := by
  simp only [flow, links, List.mem_flatMap, Prod.exists]
  constructor
  · rintro ⟨q, st, k, i, xs, hplace, hmem⟩
    obtain ⟨hst, hi, rfl, rfl⟩ := mem_places_ofCfg_iff.1 hplace
    split at hmem
    · cases hmem
    · next x rest heq =>
      injection heq with hq heq
      injection heq with hs heq
      injection heq with hk heq
      injection heq with hii hrest
      subst hq hs hk hii
      have hnext := Cfg.next?_of_rest hrest
      obtain ⟨p, hp, heq⟩ := List.mem_map.1 hmem
      obtain ⟨rfl, rfl⟩ := Prod.mk.inj heq
      rcases List.mem_append.1 hp with hp | hp
      · cases x with
        | terminal t => cases hp
        | nonterminal n =>
          simp only at hp
          split at hp
          · next hv =>
            obtain ⟨j, hj, rfl⟩ := (mem_predictedSlots_iff hst).1 hp
            rw [← Cfg.rest_advance_of_rest hrest] at hv
            exact ⟨q, i, hi, q, j, .inl ⟨rfl, (mem_predicted_of_rest hrest).2 hj,
              Cfg.vanish_iff_derives.1 hv⟩, rfl, rfl⟩
          · cases hp
      · obtain ⟨q', hgoto, rfl⟩ := (mem_advancedSlot_iff hst).1 hp
        exact ⟨q, i, hi, q', i.advance, .inr ⟨x, hnext, hgoto, rfl⟩, rfl, rfl⟩
  · rintro ⟨q, i, hi, q', i', hlink, rfl, rfl⟩
    obtain ⟨st, hst⟩ := exists_state_of_mem hi
    rcases hlink with ⟨rfl, hj, hnil⟩ | ⟨x, hx, hgoto, rfl⟩
    · obtain ⟨n, hrest, hn⟩ := exists_rest_of_predicted hj
      refine ⟨q', st, _, i, _, mem_places_ofCfg_iff.2 ⟨hst, hi, rfl, hrest.symm⟩, ?_⟩
      have hv : (ofCfg g).firstSets.vanish (g.rest i.advance) = true :=
        Cfg.vanish_iff_derives.2 hnil
      refine List.mem_map.2 ⟨_, List.mem_append_left _ ?_, rfl⟩
      simp only [hv, if_true]
      exact (mem_predictedSlots_iff hst).2 ⟨i', hn, rfl⟩
    · have hrest := Cfg.next?_eq_some_iff.1 hx
      refine ⟨q, st, _, i, _, mem_places_ofCfg_iff.2 ⟨hst, hi, rfl, hrest.symm⟩, ?_⟩
      refine List.mem_map.2 ⟨_, List.mem_append_right _ ?_, rfl⟩
      exact (mem_advancedSlot_iff hst).2 ⟨q', hgoto, rfl⟩

theorem Links.mem_items (hg : 0 < g.rules.size) {q q' : Nat} {i i' : Item}
    (h : Links g q i q' i') (hi : i ∈ g.items q) : i' ∈ g.items q' := by
  rcases h with ⟨rfl, hj, -⟩ | ⟨x, hx, hgoto, rfl⟩
  · exact Cfg.predicted_mem_items hi hj
  · exact Cfg.advance_mem_items hg hgoto hi hx

theorem slot_start (g : Cfg) : (ofCfg g).slot 0 0 = slotOf g 0 .start := by
  have hidx : (g.items 0).idxOf Item.start = 0 := by
    rw [Cfg.items_of_kernel g.kernels_zero]
    obtain ⟨rest, hrest⟩ := discover_extends g.predicted (1 + g.rules.size) [Item.start]
    have hclosure : g.closure [Item.start] = [Item.start] ++ rest := hrest.symm
    simp [hclosure]
  simp [slotOf, hidx]

theorem mem_flow_seeds_iff {n : Nat} {s : IdSet} :
    (n, s) ∈ (ofCfg g).flow.seeds ↔
      n = slotOf g 0 .start ∧ s = .singleton 0 ∨ (n, s) ∈ (ofCfg g).seeds := by
  rw [flow, List.mem_cons, Prod.mk.injEq, slot_start]

theorem seed_lt {n : Nat} {s : IdSet} (h : (n, s) ∈ (ofCfg g).flow.seeds) :
    n < (ofCfg g).flow.size := by
  rcases mem_flow_seeds_iff.1 h with ⟨rfl, -⟩ | h
  · exact slotOf_lt g.start_mem_items
  · obtain ⟨q, i, hi, j, hj, rfl, -⟩ := mem_seeds_iff.1 h
    exact slotOf_lt (Cfg.predicted_mem_items hi hj)

theorem link_lt (hg : 0 < g.rules.size) {n m : Nat} (h : (n, m) ∈ (ofCfg g).flow.links) :
    m < (ofCfg g).flow.size := by
  obtain ⟨q, i, hi, p, i', hlink, -, rfl⟩ := mem_links_iff.1 h
  exact slotOf_lt (hlink.mem_items hg hi)

theorem exists_path_of_reaches (hg : 0 < g.rules.size)
    (hlhs : ∀ {n r}, r ∈ g.rulesOf n → n < g.nonterminals) {n t : Nat}
    (h : (ofCfg g).flow.Reaches n t) :
    ∃ q, ∃ i ∈ g.items q, n = slotOf g q i ∧ ∃ γ, g.Path γ q ∧ g.LookaheadAfter γ i t := by
  induction h with
  | @seed n s t hs ht =>
    rcases mem_flow_seeds_iff.1 hs with ⟨rfl, rfl⟩ | hs
    · obtain rfl := IdSet.mem_singleton.1 ht
      exact ⟨0, .start, g.start_mem_items, rfl, [], .nil, .start⟩
    · obtain ⟨q, i, hi, j, hj, rfl, rfl⟩ := mem_seeds_iff.1 hs
      obtain ⟨γ, hγ⟩ := Cfg.exists_path hg (Cfg.lt_size_of_mem_items hi)
      have hbegins := (Cfg.mem_ofSyms_iff_begins hlhs).1 ht
      exact ⟨q, j, Cfg.predicted_mem_items hi hj, rfl, γ, hγ,
        .begins (Cfg.itemAfter_of_mem hg hγ hi) hj hbegins⟩
  | link hl _ ih =>
    obtain ⟨q, i, hi, p, i', hlink, rfl, rfl⟩ := mem_links_iff.1 hl
    obtain ⟨q₁, i₁, hi₁, hslot, γ, hγ, hla⟩ := ih
    obtain ⟨rfl, rfl⟩ := slotOf_inj hi hi₁ hslot
    refine ⟨p, i', Links.mem_items hg hlink hi, rfl, ?_⟩
    rcases hlink with ⟨rfl, hj, hnil⟩ | ⟨x, hx, hgoto, rfl⟩
    · exact ⟨γ, hγ, .inherit hla hj hnil⟩
    · exact ⟨γ ++ [x], hγ.snoc hgoto, .advance hla hx⟩

theorem reaches_of_lookaheadAfter (hg : 0 < g.rules.size)
    (hlhs : ∀ {n r}, r ∈ g.rulesOf n → n < g.nonterminals) {γ : List Sym} {i : Item} {t : Nat}
    (h : g.LookaheadAfter γ i t) {q : Nat} (hq : g.Path γ q) :
    (ofCfg g).flow.Reaches (slotOf g q i) t := by
  induction h generalizing q with
  | start =>
    rw [hq.eq_zero]
    exact .seed (mem_flow_seeds_iff.2 (.inl ⟨rfl, rfl⟩)) (IdSet.mem_singleton.2 rfl)
  | advance h hx ih =>
    obtain ⟨p, hp, hgoto⟩ := hq.of_snoc
    have hi := h.itemAfter.mem_items hg hp
    exact .link (mem_links_iff.2 ⟨p, _, hi, q, _, .inr ⟨_, hx, hgoto, rfl⟩, rfl, rfl⟩) (ih hp)
  | begins h hj ht =>
    have hseed := mem_seeds_iff.2 ⟨q, _, h.mem_items hg hq, _, hj, rfl, rfl⟩
    exact .seed (mem_flow_seeds_iff.2 (.inr hseed)) ((Cfg.mem_ofSyms_iff_begins hlhs).2 ht)
  | inherit h hj hnil ih =>
    have hi := h.itemAfter.mem_items hg hq
    exact .link (mem_links_iff.2 ⟨q, _, hi, q, _, .inl ⟨rfl, hj, hnil⟩, rfl, rfl⟩) (ih hq)

end Automaton

namespace LookaheadAutomaton

variable {g : Cfg}

open Automaton (slotOf)

theorem mem_lookahead_iff_reaches (hg : 0 < g.rules.size) {q : Nat} {i : Item} {t : Nat} :
    t ∈ (ofCfg g).lookahead q ((g.items q).idxOf i) ↔
      (Automaton.ofCfg g).flow.Reaches (slotOf g q i) t := by
  simp only [lookahead, ofCfg, slotOf]
  exact Flow.mem_solve_iff (fun _ => Automaton.seed_lt) fun _ => Automaton.link_lt hg

theorem mem_lookahead_iff (hg : 0 < g.rules.size)
    (hlhs : ∀ {n r}, r ∈ g.rulesOf n → n < g.nonterminals) {q : Nat} {i : Item}
    (hi : i ∈ g.items q) {t : Nat} :
    t ∈ (ofCfg g).lookahead q ((g.items q).idxOf i) ↔
      ∃ γ, g.Path γ q ∧ g.LookaheadAfter γ i t := by
  rw [mem_lookahead_iff_reaches hg]
  constructor
  · intro h
    obtain ⟨q', i', hi', hslot, γ, hγ, hla⟩ := Automaton.exists_path_of_reaches hg hlhs h
    obtain ⟨rfl, rfl⟩ := Automaton.slotOf_inj hi hi' hslot
    exact ⟨γ, hγ, hla⟩
  · rintro ⟨γ, hγ, hla⟩
    exact Automaton.reaches_of_lookaheadAfter hg hlhs hla hγ

end LookaheadAutomaton

/-- The items of a state are those that each path to it leads to, and the lookaheads of an item are
those that it has along any of these paths. -/
theorem Grammar.IsAssembled.lookahead_merges_paths {ν : Type} {g : Grammar ν} (h : g.IsAssembled)
    {q : Nat} {s : State} (hs : (LookaheadAutomaton.ofCfg g.cfg).states[q]? = some s) :
    (∀ γ, g.cfg.Path γ q → ∀ i, i ∈ s.items ↔ g.cfg.ItemAfter γ i) ∧
      ∀ k i, s.items[k]? = some i → ∀ t, t ∈ (LookaheadAutomaton.ofCfg g.cfg).lookahead q k ↔
        ∃ γ, g.cfg.Path γ q ∧ g.cfg.LookaheadAfter γ i t := by
  have hwf := h.wellFormed.cfg
  have hsize := Cfg.lt_size_of_mem_rulesOf hwf.zero_mem
  have hstate : g.cfg.states[q]? = some s := hs
  have hitems : s.items = g.cfg.items q := by simp [Cfg.items, hstate]
  rw [hitems]
  refine ⟨fun γ hγ i => Cfg.mem_items_iff_itemAfter hsize hγ, fun k i hi t => ?_⟩
  obtain ⟨hk, rfl⟩ := List.getElem?_eq_some_iff.1 hi
  have hiff := LookaheadAutomaton.mem_lookahead_iff (t := t) hsize hwf.lt_nonterminals
    (List.getElem_mem hk)
  rwa [(g.cfg.nodup_items q).idxOf_getElem k hk] at hiff

/-- After a number the sum can go on. -/
theorem Sums.lookaheadAfter_number :
    ∃ γ, grammar.cfg.Path γ 2 ∧ grammar.cfg.LookaheadAfter γ ⟨2, 1⟩ 2 := by
  have hmerges := isAssembled.lookahead_merges_paths (Array.getElem?_eq_getElem
    (by decide +kernel : 2 < (LookaheadAutomaton.ofCfg grammar.cfg).states.size))
  exact (hmerges.2 0 ⟨2, 1⟩ (by decide +kernel) 2).1 (by decide +kernel)

end Lalr
