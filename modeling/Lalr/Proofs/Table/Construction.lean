import Lalr.Proofs.Automaton.States
import Lalr.Proofs.Cfg.Passes
import Lalr.Proofs.Grammar.First
import Lalr.Table.Build
import Mathlib.Data.Finset.Powerset

/-!
The construction of a table with loops that have no bound. Closures and states are found by walking
along lists that grow under way, sets by passes that are repeated as long as they change something.
Every loop ends, and the table is the one that is built.
-/

namespace Lalr

namespace Cfg

def closureLoop (g : Cfg) (kernel : List Item) : Part (List Item) :=
  walk (fun i => .some (g.predicted i)) (0, kernel)

def followsLoop (g : Cfg) (kernel : List Item) : Part (List (List Item)) := do
  return (g.successors (← g.closureLoop kernel)).map (·.2)

def kernelsLoop (g : Cfg) : Part (List (List Item)) := walk g.followsLoop (0, [[.start]])

def stateLoop (g : Cfg) (kernels : List (List Item)) (kernel : List Item) : Part State := do
  let items ← g.closureLoop kernel
  return ⟨kernel, items, (g.successors items).map fun (x, kernel) => (x, kernels.idxOf kernel)⟩

def statesLoop (g : Cfg) : Part (Array State) := do
  let kernels ← g.kernelsLoop
  return (← kernels.mapM (g.stateLoop kernels)).toArray

def firstSetsLoop (g : Cfg) : Part FirstSets := do
  let nullable ← g.markLoop
  return ⟨nullable, ← g.firstLoop nullable⟩

end Cfg

def LookaheadAutomaton.construct (g : Cfg) : Part LookaheadAutomaton := do
  let firstSets ← g.firstSetsLoop
  let states ← g.statesLoop
  let a : Automaton := ⟨g, firstSets, states, maxItems states⟩
  return ⟨a, ← a.flow.spread⟩

def Grammar.construct {ν : Type} (g : Grammar ν) : Part (Except BuildError (Table ν)) := do
  let a ← LookaheadAutomaton.construct g.cfg
  let verdicts := (Array.range a.states.size).map (a.verdicts g.ranking g.terminals.size)
  return (Analysis.mk g a verdicts).build

namespace Cfg

variable {g : Cfg}

theorem closureLoop_eq {kernel : List Item} (h : kernel.Nodup) :
    g.closureLoop kernel = .some (g.closure kernel) :=
  walk_eq_discover (g.closable kernel) (fun _ _ => rfl)
    (fun i _ => predicted_subset_closable kernel i) h (List.subset_append_left _ _)
    (by simp [closable])

theorem followsLoop_eq {kernel : List Item} (h : kernel.Nodup) :
    g.followsLoop kernel = .some (g.follows kernel) := by
  simp [followsLoop, closureLoop_eq h, follows]

theorem nodup_of_mem_allKernels {kernel : List Item} (h : kernel ∈ g.allKernels) :
    kernel.Nodup :=
  (List.mem_sublists.1 h).nodup (Item.ascending_sort g.allItems).nodup

theorem kernelsLoop_eq (hg : 0 < g.rules.size) : g.kernelsLoop = .some g.kernels := by
  have hstart : [[Item.start]] ⊆ g.allKernels := by
    simpa using start_mem_allKernels hg
  exact walk_eq_discover g.allKernels (fun _ h => followsLoop_eq (nodup_of_mem_allKernels h))
    (fun _ => follows_subset) (List.nodup_singleton _) hstart g.length_allKernels_le

theorem stateLoop_eq {kernels : List (List Item)} {kernel : List Item} (h : kernel.Nodup) :
    g.stateLoop kernels kernel = .some (g.stateOf kernels kernel) := by
  simp [stateLoop, closureLoop_eq h, stateOf]

theorem statesLoop_eq (hg : 0 < g.rules.size) : g.statesLoop = .some g.states := by
  have hstates : g.kernels.mapM (g.stateLoop g.kernels) =
      .some (g.kernels.map (g.stateOf g.kernels)) :=
    mapM_of_forall fun _ h => stateLoop_eq (nodup_of_mem_kernels h)
  simp [statesLoop, kernelsLoop_eq hg, hstates, states]

theorem firstSetsLoop_eq (g : Cfg) : g.firstSetsLoop = .some g.firstSets := by
  simp [firstSetsLoop, markLoop_eq, firstLoop_eq, firstSets]

/-- The kernels are different sets of items. -/
theorem size_states_le (hg : 0 < g.rules.size) :
    g.states.size ≤ g.allItems.toFinset.powerset.card := by
  have hkernels : g.kernels ⊆ g.allKernels := by
    intro kernel h
    refine (leads_of_mem_discover h).induction (P := (· ∈ g.allKernels)) (fun k hk => ?_)
      fun _ _ hk hnext => follows_subset hk hnext
    rw [List.mem_singleton.1 hk]
    exact start_mem_allKernels hg
  have hsort : (Item.sort g.allItems).length = g.allItems.toFinset.card := by
    rw [← List.toFinset_card_of_nodup (Item.ascending_sort g.allItems).nodup]
    congr 1
    ext i
    simp
  calc g.states.size = g.kernels.length := size_states g
    _ ≤ g.allKernels.length := (g.nodup_kernels.subperm hkernels).length_le
    _ = 2 ^ (Item.sort g.allItems).length := List.length_sublists _
    _ = g.allItems.toFinset.powerset.card := by rw [hsort, Finset.card_powerset]

end Cfg

theorem LookaheadAutomaton.construct_eq {g : Cfg} (hg : 0 < g.rules.size) :
    construct g = .some (.ofCfg g) := by
  simp [construct, Cfg.firstSetsLoop_eq, Cfg.statesLoop_eq hg, Flow.spread_eq, ofCfg,
    Automaton.ofCfg]

theorem Grammar.construct_eq {ν : Type} {g : Grammar ν} (hg : 0 < g.cfg.rules.size) :
    g.construct = .some g.build := by
  simp [construct, LookaheadAutomaton.construct_eq hg, build, Analysis.ofGrammar]

/-- The loops end, each with what it is to find, and there are no more states than sets of items.
A pass after which a loop goes round again has put something new to what is there. -/
structure Grammar.ConstructionEnds {ν : Type} (g : Grammar ν) : Prop where
  construct : g.construct = .some g.build
  nullable : g.cfg.markLoop = .some g.cfg.nullable
  first : g.cfg.firstLoop g.cfg.nullable = .some g.cfg.firstFlow.solve
  closure {kernel : List Item} : kernel.Nodup →
    g.cfg.closureLoop kernel = .some (g.cfg.closure kernel)
  kernels : g.cfg.kernelsLoop = .some g.cfg.kernels
  lookaheads :
    (Automaton.ofCfg g.cfg).flow.spread = .some (LookaheadAutomaton.ofCfg g.cfg).lookaheads
  size_states_le : g.cfg.states.size ≤ g.cfg.allItems.toFinset.powerset.card
  gathers_nullable : Gathers (fun (known : IdSet) n => n ∈ known) g.cfg.markPass
  gathers_first (nullable : IdSet) : Gathers Flow.Has (g.cfg.firstPass nullable)
  gathers_lookaheads : Gathers (fun x : Flow.Spreading => Flow.Has x.sets)
    (Automaton.ofCfg g.cfg).flow.spreadPass

theorem Grammar.IsAssembled.construction_ends {ν : Type} {g : Grammar ν} (h : g.IsAssembled) :
    g.ConstructionEnds := by
  obtain ⟨p, hp, -⟩ := h.exists_production_zero
  have hrules : 0 < g.cfg.rules.size := by
    simpa [cfg] using (Array.getElem?_eq_some_iff.1 hp).1
  exact
    { construct := construct_eq hrules
      nullable := g.cfg.markLoop_eq
      first := g.cfg.firstLoop_eq
      closure := Cfg.closureLoop_eq
      kernels := Cfg.kernelsLoop_eq hrules
      lookaheads := by rw [Flow.spread_eq, LookaheadAutomaton.ofCfg]
      size_states_le := Cfg.size_states_le hrules
      gathers_nullable := g.cfg.gathers_markPass
      gathers_first := g.cfg.gathers_firstPass
      gathers_lookaheads := (Automaton.ofCfg g.cfg).flow.gathers_spreadPass }

/-- Where rules lead back to themselves, and where they have no end, the loops end. -/
theorem Circles.loops_end : grammar.IsAssembled ∧ grammar.construct = .some grammar.build ∧
    grammar.cfg.markLoop = .some ((IdSet.singleton 0).insert 1) := by
  have hassembled : grammar.IsAssembled :=
    ⟨declarations, spec, Except.eq_ok_get _ _, Except.eq_ok_get _ _⟩
  have hends := Grammar.IsAssembled.construction_ends hassembled
  have hnullable : grammar.cfg.nullable = (IdSet.singleton 0).insert 1 := by decide +kernel
  exact ⟨hassembled, hends.construct, hnullable ▸ hends.nullable⟩

end Lalr
