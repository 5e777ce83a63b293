import Lalr.Proofs.Cfg.First
import Lalr.Proofs.Spreading

/-!
The nonterminals that vanish and the first sets, by passes over the rules that are repeated as long
as one of them changes something. Neither loop has a bound, and both end with what the grammar's
sets were defined to be.
-/

namespace Lalr

/-- Marks the nonterminal of a rule if it is not marked, and all symbols of the rule are. -/
def markRule (state : IdSet × Bool) (r : Rule) : IdSet × Bool :=
  if r.lhs ∉ state.1 ∧ vanish state.1 r.rhs = true then (state.1.insert r.lhs, true) else state

/-- Pours into a slot, and reports if the slot did not have it all. -/
def pourNew (state : Array IdSet × Bool) (slot : Nat) (s : IdSet) : Array IdSet × Bool :=
  let sets := Flow.pour state.1 slot s
  (sets, state.2 || decide (sets ≠ state.1))

/-- What a symbol at the front of a rule gives to the set of its nonterminal. -/
def addFront (lhs : Nat) (state : Array IdSet × Bool) : Sym → Array IdSet × Bool
  | .terminal t => pourNew state lhs (.singleton t)
  | .nonterminal n => if n = lhs then state else pourNew state lhs (state.1.getD n ∅)

namespace Cfg

def markPass (g : Cfg) (known : IdSet) : IdSet × Bool :=
  g.rules.toList.foldl markRule (known, false)

def markLoop (g : Cfg) : Part IdSet := repeatWhile g.markPass ∅

def firstPass (g : Cfg) (nullable : IdSet) (sets : Array IdSet) : Array IdSet × Bool :=
  g.rules.toList.foldl (fun state r => (fronts nullable r.rhs).foldl (addFront r.lhs) state)
    (sets, false)

def firstLoop (g : Cfg) (nullable : IdSet) : Part (Array IdSet) :=
  repeatWhile (g.firstPass nullable) (.replicate g.nonterminals ∅)

end Cfg

/-! Steps report what they add. -/

theorem brings_markRule : Brings (fun (known : IdSet) n => n ∈ known) markRule where
  keeps {state r n} hn := by
    simp only [markRule]
    split
    · exact IdSet.mem_insert.2 (.inl hn)
    · exact hn
  gains {known r} hreport := by
    simp only [markRule] at hreport ⊢
    split
    · next h => exact ⟨r.lhs, IdSet.mem_insert.2 (.inr rfl), h.1⟩
    · next h =>
      rw [if_neg h] at hreport
      cases hreport

theorem reports_markRule : Reports markRule where
  keeps {known r} := by
    simp only [markRule]
    split <;> rfl
  unchanged {known r} hreport := by
    simp only [markRule] at hreport ⊢
    split
    · next h =>
      rw [if_pos h] at hreport
      cases hreport
    · rfl

theorem has_pourNew {state : Array IdSet × Bool} {slot : Nat} {s : IdSet} {x : Nat × Nat}
    (h : Flow.Has state.1 x) : Flow.Has (pourNew state slot s).1 x := Flow.below_pour _ _ _ _ _ h

theorem exists_has_of_pourNew {sets : Array IdSet} {slot : Nat} {s : IdSet}
    (h : (pourNew (sets, false) slot s).2 = true) :
    ∃ x, Flow.Has (pourNew (sets, false) slot s).1 x ∧ ¬ Flow.Has sets x :=
  Flow.exists_has_of_ne (by simpa [pourNew] using h)

theorem pour_eq_of_pourNew {sets : Array IdSet} {slot : Nat} {s : IdSet}
    (h : (pourNew (sets, false) slot s).2 = false) : Flow.pour sets slot s = sets := by
  simpa [pourNew] using h

theorem brings_addFront (lhs : Nat) : Brings Flow.Has (addFront lhs) where
  keeps {state x _} hx := by
    cases x with
    | terminal t => exact has_pourNew hx
    | nonterminal n =>
      simp only [addFront]
      split
      · exact hx
      · exact has_pourNew hx
  gains {sets x} hreport := by
    cases x with
    | terminal t => exact exists_has_of_pourNew hreport
    | nonterminal n =>
      simp only [addFront] at hreport ⊢
      split
      · next h =>
        rw [if_pos h] at hreport
        cases hreport
      · next h =>
        rw [if_neg h] at hreport
        exact exists_has_of_pourNew hreport

theorem reports_addFront (lhs : Nat) : Reports (addFront lhs) where
  keeps {sets x} := by
    cases x with
    | terminal t => rfl
    | nonterminal n =>
      simp only [addFront]
      split <;> rfl
  unchanged {sets x} hreport := by
    cases x with
    | terminal t => exact pour_eq_of_pourNew hreport
    | nonterminal n =>
      simp only [addFront] at hreport ⊢
      split
      · rfl
      · next h =>
        rw [if_neg h] at hreport
        exact pour_eq_of_pourNew hreport

namespace Cfg

theorem gathers_markPass (g : Cfg) : Gathers (fun (known : IdSet) n => n ∈ known) g.markPass :=
  brings_markRule.gathers g.rules.toList

theorem gathers_firstPass (g : Cfg) (nullable : IdSet) :
    Gathers Flow.Has (g.firstPass nullable) :=
  (Brings.foldl (fun r : Rule => fronts nullable r.rhs) fun r => brings_addFront r.lhs).gathers
    g.rules.toList

/-! The nonterminals that vanish. -/

variable {g : Cfg}

theorem vanish_mono {known more : IdSet} (h : ∀ n ∈ known, n ∈ more) {xs : List Sym}
    (hxs : vanish known xs = true) : vanish more xs = true := by
  rw [vanish_iff_forall] at hxs ⊢
  intro x hx
  cases x with
  | terminal t => exact hxs _ hx
  | nonterminal n => exact h n (hxs _ hx)

theorem mem_nullable_of_rule {r : Rule} (hr : r ∈ g.rules.toList)
    (hv : vanish g.nullable r.rhs = true) : r.lhs ∈ g.nullable := by
  obtain ⟨k, hk, hrhs⟩ := exists_of_mem_rules hr
  rw [← vanishing_nullable]
  exact mem_vanishing_iff.2 (.inr ⟨k, hk, hrhs ▸ hv⟩)

theorem markPass_nullable {known : IdSet} (h : ∀ n ∈ known, n ∈ g.nullable) :
    ∀ n ∈ (g.markPass known).1, n ∈ g.nullable := by
  refine List.foldlRecOn (motive := fun state => ∀ n ∈ state.1, n ∈ g.nullable)
    (b := (known, false)) g.rules.toList markRule h fun state hstate r hr n hn => ?_
  simp only [markRule] at hn
  split at hn
  · next hmark =>
    rcases IdSet.mem_insert.1 hn with hn | rfl
    · exact hstate n hn
    · exact mem_nullable_of_rule hr (vanish_mono hstate hmark.2)
  · exact hstate n hn

/-- A pass that marks nothing finds no rule that has all its symbols marked, but not its
nonterminal. -/
theorem mem_of_markPass {known : IdSet} (h : (g.markPass known).2 = false) {r : Rule}
    (hr : r ∈ g.rules.toList) (hv : vanish known r.rhs = true) : r.lhs ∈ known := by
  have hstep := (reports_markRule.of_foldl h).2 r hr
  simp only [markRule] at hstep
  by_contra hnot
  rw [if_pos ⟨hnot, hv⟩] at hstep
  exact Bool.noConfusion (congrArg Prod.snd hstep)

theorem nullable_of_closed {known : IdSet}
    (h : ∀ r ∈ g.rules.toList, vanish known r.rhs = true → r.lhs ∈ known) :
    ∀ n ∈ g.nullable, n ∈ known := by
  refine saturate_induction (P := fun s => ∀ n ∈ s, n ∈ known) (fun s hs n hn => ?_)
    fun n hn => absurd hn (IdSet.not_mem_empty n)
  rcases mem_vanishing_iff.1 hn with hn | ⟨r, hr, hv⟩
  · exact hs n hn
  · obtain ⟨rule, hrule, rfl, hrhs⟩ := exists_mem_rules hr
    exact h rule hrule (vanish_mono hs (hrhs ▸ hv))

/-- The loop ends, and it ends with the nonterminals that vanish. -/
theorem markLoop_eq (g : Cfg) : g.markLoop = .some g.nullable := by
  have hall : ∀ known : IdSet, (∀ n ∈ known, n ∈ g.nullable) → ∀ n, n ∈ known →
      n ∈ g.nullable.toList.toFinset := by
    intro known hknown n hn
    exact List.mem_toFinset.2 (IdSet.mem_toList.2 (hknown n hn))
  obtain ⟨known, hknown, hreport, hrun⟩ := g.gathers_markPass.exists_repeatWhile _
    (fun _ => markPass_nullable) hall fun n hn => absurd hn (IdSet.not_mem_empty n)
  have hsame : (g.markPass known).1 = known := (reports_markRule.of_foldl hreport).1
  have hclosed := nullable_of_closed fun _ => mem_of_markPass hreport
  have hnullable : known = g.nullable := IdSet.ext fun n => ⟨hknown n, hclosed n⟩
  rw [markLoop, hrun, hsame, hnullable]

/-! The first sets. -/

theorem within_addFront {n k : Nat} (hk : k ∈ g.rulesOf n) {x : Sym}
    (hx : x ∈ fronts g.nullable (g.rhs k)) {state : Array IdSet × Bool}
    (h : g.firstFlow.Within state.1) : g.firstFlow.Within (addFront n state x).1 := by
  cases x with
  | terminal t =>
    have hseed : (n, .singleton t) ∈ g.firstFlow.seeds := mem_firstFlow_seeds.2 ⟨k, hk, t, hx, rfl⟩
    exact h.pour fun hlt _ ha => Flow.mem_solve_of_seed hseed hlt ha
  | nonterminal m =>
    have hlink : (m, n) ∈ g.firstFlow.links := mem_firstFlow_links.2 ⟨k, hk, hx⟩
    simp only [addFront]
    split
    · exact h
    · exact h.pour fun hlt a ha => Flow.mem_solve_of_link hlink hlt (h.2 m a ha)

theorem within_firstPass {sets : Array IdSet} (h : g.firstFlow.Within sets) :
    g.firstFlow.Within (g.firstPass g.nullable sets).1 := by
  refine List.foldlRecOn (motive := fun state : Array IdSet × Bool => g.firstFlow.Within state.1)
    g.rules.toList _ h fun state hstate r hr => ?_
  obtain ⟨k, hk, hrhs⟩ := exists_of_mem_rules hr
  exact List.foldlRecOn (motive := fun state : Array IdSet × Bool => g.firstFlow.Within state.1)
    (fronts g.nullable r.rhs) _ hstate fun _ hstate x hx => within_addFront hk (hrhs ▸ hx) hstate

theorem addFront_of_firstPass {nullable : IdSet} {sets : Array IdSet}
    (h : (g.firstPass nullable sets).2 = false) :
    (g.firstPass nullable sets).1 = sets ∧ ∀ n, ∀ r ∈ g.rulesOf n,
      ∀ x ∈ fronts nullable (g.rhs r), addFront n (sets, false) x = (sets, false) := by
  have hrules := (Reports.foldl (fun r : Rule => fronts nullable r.rhs)
    fun r => reports_addFront r.lhs).of_foldl h
  refine ⟨hrules.1, fun n r hr x hx => ?_⟩
  obtain ⟨rule, hrule, rfl, hrhs⟩ := exists_mem_rules hr
  have hfronts :
      ((fronts nullable rule.rhs).foldl (addFront rule.lhs) (sets, false)).2 = false := by
    rw [hrules.2 rule hrule]
  exact ((reports_addFront rule.lhs).of_foldl hfronts).2 x (hrhs ▸ hx)

/-- The loop ends, and it ends with the first sets. -/
theorem firstLoop_eq (g : Cfg) : g.firstLoop g.nullable = .some g.firstFlow.solve := by
  have hpass : ∀ sets, g.firstFlow.Within sets →
      g.firstFlow.Within (g.firstPass g.nullable sets).1 := fun _ => within_firstPass
  have hrange : ∀ sets, g.firstFlow.Within sets → ∀ y, Flow.Has sets y →
      y ∈ Finset.range g.firstFlow.size ×ˢ Finset.range g.firstFlow.width := by
    intro sets hsets y hy
    simpa using hsets.partial.in_range hy
  have hempty : g.firstFlow.Within (.replicate g.nonterminals ∅) := by
    refine ⟨by simp [firstFlow], fun i a ha => ?_⟩
    by_cases hi : i < g.nonterminals <;> simp [hi] at ha
  obtain ⟨sets, hsets, hreport, hrun⟩ :=
    (g.gathers_firstPass g.nullable).exists_repeatWhile _ hpass hrange hempty
  obtain ⟨hsame, hfronts⟩ := addFront_of_firstPass hreport
  have hsolve : sets = g.firstFlow.solve := by
    refine hsets.eq_solve (fun n s hs hn a ha => ?_) (fun m n hl hn a ha => ?_)
    · obtain ⟨r, hr, t, ht, rfl⟩ := mem_firstFlow_seeds.1 hs
      have hpour := congrArg Prod.fst (hfronts n r hr _ ht)
      exact Flow.mem_of_pour_eq hpour (hsets.1.symm ▸ hn) ha
    · obtain ⟨r, hr, hm⟩ := mem_firstFlow_links.1 hl
      have hpour := congrArg Prod.fst (hfronts n r hr _ hm)
      by_cases hmn : m = n
      · exact hmn ▸ ha
      · rw [addFront, if_neg hmn] at hpour
        exact Flow.mem_of_pour_eq hpour (hsets.1.symm ▸ hn) ha
  rw [firstLoop, hrun, hsame, hsolve]

end Cfg
end Lalr
