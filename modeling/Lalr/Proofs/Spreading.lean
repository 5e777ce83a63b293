import Lalr.Proofs.Flow
import Lalr.Proofs.Loops

/-!
Sets that spread along links slot by slot, in a loop without a bound. A slot is settled once its set
was passed on, and no longer so when the set changes. The loop ends, since it goes round again only
if a set got something new, and what it ends with is the solution.
-/

namespace Lalr.Flow

/-- The slot has the number. -/
def Has (sets : Array IdSet) (x : Nat × Nat) : Prop := x.2 ∈ sets.getD x.1 ∅

variable {sets : Array IdSet} {slot : Nat} {s : IdSet}

theorem exists_has_of_ne (h : pour sets slot s ≠ sets) :
    ∃ x, Has (pour sets slot s) x ∧ ¬ Has sets x := by
  obtain ⟨i, a, ha, hnot⟩ := exists_new_of_ne (size_pour sets slot s) (below_pour sets slot s) h
  exact ⟨(i, a), ha, hnot⟩

theorem mem_of_pour_eq (h : pour sets slot s = sets) (hslot : slot < sets.size) {a : Nat}
    (ha : a ∈ s) : a ∈ sets.getD slot ∅ := by
  rw [← h]
  exact mem_pour.2 (.inr ⟨rfl, hslot, ha⟩)

/-! The spreading of sets. -/

/-- The sets of all slots, and which of them were passed on as they are. -/
structure Spreading where
  sets : Array IdSet
  settled : Array Bool

/-- Passes a set on to a slot. It reports a change, and then the slot is not settled any more. -/
def passOn (s : IdSet) (x : Spreading × Bool) (slot : Nat) : Spreading × Bool :=
  let sets := pour x.1.sets slot s
  if sets = x.1.sets then x else (⟨sets, x.1.settled.setIfInBounds slot false⟩, true)

def targets (f : Flow) (slot : Nat) : List Nat := (f.links.filter (·.1 = slot)).map (·.2)

/-- Settles a slot that is not settled. -/
def visit (f : Flow) (x : Spreading × Bool) (slot : Nat) : Spreading × Bool :=
  if x.1.settled.getD slot false then x
  else (f.targets slot).foldl (passOn (x.1.sets.getD slot ∅))
    ({ x.1 with settled := x.1.settled.setIfInBounds slot true }, x.2)

def spreadPass (f : Flow) (x : Spreading) : Spreading × Bool :=
  (List.range f.size).foldl f.visit (x, false)

def spread (f : Flow) : Part (Array IdSet) :=
  (repeatWhile f.spreadPass ⟨f.initial, .replicate f.size false⟩).map Spreading.sets

variable {f : Flow}

theorem reports_passOn (s : IdSet) : Reports (passOn s) where
  keeps := by
    intro x slot
    simp only [passOn]
    split <;> rfl
  unchanged {x slot} hreport := by
    simp only [passOn] at hreport ⊢
    split
    · rfl
    · next hne =>
      rw [if_neg hne] at hreport
      cases hreport

theorem brings_passOn (s : IdSet) : Brings (fun x : Spreading => Has x.sets) (passOn s) where
  keeps {x slot _} hx := by
    simp only [passOn]
    split
    · exact hx
    · exact below_pour _ _ _ _ _ hx
  gains {x slot} hreport := by
    simp only [passOn] at hreport ⊢
    split
    · next heq =>
      rw [if_pos heq] at hreport
      cases hreport
    · next hne => exact exists_has_of_ne hne

theorem brings_visit (f : Flow) : Brings (fun x : Spreading => Has x.sets) f.visit where
  keeps {x slot _} hx := by
    simp only [visit]
    split
    · exact hx
    · exact (brings_passOn _).keeps_foldl _ hx
  gains {x slot} hreport := by
    simp only [visit] at hreport ⊢
    split
    · next hsettled =>
      rw [if_pos hsettled] at hreport
      cases hreport
    · next hsettled =>
      rw [if_neg hsettled] at hreport
      exact ((brings_passOn _).gathers _).gains hreport

theorem gathers_spreadPass (f : Flow) : Gathers (fun x : Spreading => Has x.sets) f.spreadPass :=
  (brings_visit f).gathers (List.range f.size)

/-! What a slot that is settled has, the slots after it have too. -/

theorem getD_setIfInBounds (settled : Array Bool) (i k : Nat) (v : Bool) :
    (settled.setIfInBounds i v).getD k false =
      if i = k ∧ i < settled.size then v else settled.getD k false := by
  by_cases hk : k < settled.size
  · by_cases hik : i = k <;> simp [hk, hik]
  · have hik : ¬ (i = k ∧ i < settled.size) := fun h => hk (h.1 ▸ h.2)
    simp [hk, hik]

namespace Spreading

structure Sound (f : Flow) (x : Spreading) : Prop where
  within : f.Within x.sets
  seeded : Below f.initial x.sets
  size_settled : x.settled.size = f.size
  closed {i j : Nat} : x.settled.getD i false = true → (i, j) ∈ f.links → j < f.size →
    ∀ a ∈ x.sets.getD i ∅, a ∈ x.sets.getD j ∅

/-- The set of a slot is being passed on, and there are still these slots to pass it on to. -/
structure Passing (f : Flow) (slot : Nat) (s : IdSet) (ahead : List Nat) (x : Spreading) :
    Prop where
  within : f.Within x.sets
  seeded : Below f.initial x.sets
  size_settled : x.settled.size = f.size
  closed {i j : Nat} : i ≠ slot → x.settled.getD i false = true → (i, j) ∈ f.links → j < f.size →
    ∀ a ∈ x.sets.getD i ∅, a ∈ x.sets.getD j ∅
  eq_set : x.settled.getD slot false = true → x.sets.getD slot ∅ = s
  passed {j : Nat} : x.settled.getD slot false = true → (slot, j) ∈ f.links → j < f.size →
    j ∈ ahead ∨ ∀ a ∈ s, a ∈ x.sets.getD j ∅

variable {j : Nat} {ahead : List Nat}

theorem Passing.passOn {x : Spreading × Bool} (h : x.1.Passing f slot s (j :: ahead))
    (hs : j < f.size → ∀ a ∈ s, a ∈ f.solve.getD j ∅) :
    (Flow.passOn s x j).1.Passing f slot s ahead := by
  simp only [Flow.passOn]
  split
  · next heq =>
    refine ⟨h.within, h.seeded, h.size_settled, h.closed, h.eq_set, fun {k} hsettled hl hk => ?_⟩
    rcases h.passed hsettled hl hk with hmem | hpassed
    · rcases List.mem_cons.1 hmem with rfl | hmem
      · exact .inr fun a ha => mem_of_pour_eq heq (h.within.1.symm ▸ hk) ha
      · exact .inl hmem
    · exact .inr hpassed
  · -- A slot that is still settled is not the one that changed.
    have hkept : ∀ {i}, (x.1.settled.setIfInBounds j false).getD i false = true →
        x.1.settled.getD i false = true ∧
          ∀ a, a ∈ (pour x.1.sets j s).getD i ∅ ↔ a ∈ x.1.sets.getD i ∅ := by
      intro i hi
      rw [getD_setIfInBounds] at hi
      split at hi
      · cases hi
      · next hne =>
        refine ⟨hi, fun a => mem_pour.trans (or_iff_left ?_)⟩
        rintro ⟨rfl, hlt, -⟩
        exact hne ⟨rfl, by rwa [h.size_settled, ← h.within.1]⟩
    refine ⟨h.within.pour hs, h.seeded.trans (below_pour _ _ _),
      by simpa using h.size_settled, fun hi hsettled hl hk a ha => ?_, fun hsettled => ?_,
      fun {k} hsettled hl hk => ?_⟩
    · obtain ⟨hsettled, hsame⟩ := hkept hsettled
      exact below_pour _ _ _ _ _ (h.closed hi hsettled hl hk a ((hsame a).1 ha))
    · obtain ⟨hsettled, hsame⟩ := hkept hsettled
      exact (IdSet.ext hsame).trans (h.eq_set hsettled)
    · rcases h.passed (hkept hsettled).1 hl hk with hmem | hpassed
      · rcases List.mem_cons.1 hmem with rfl | hmem
        · exact .inr fun a ha => mem_pour.2 (.inr ⟨rfl, h.within.1.symm ▸ hk, ha⟩)
        · exact .inl hmem
      · exact .inr fun a ha => below_pour _ _ _ _ _ (hpassed a ha)

theorem Passing.foldl {x : Spreading × Bool} (h : x.1.Passing f slot s ahead)
    (hs : ∀ j ∈ ahead, j < f.size → ∀ a ∈ s, a ∈ f.solve.getD j ∅) :
    (ahead.foldl (Flow.passOn s) x).1.Passing f slot s [] := by
  induction ahead generalizing x with
  | nil => exact h
  | cons j ahead ih =>
    rw [List.forall_mem_cons] at hs
    exact ih (h.passOn hs.1) hs.2

theorem Sound.visit {x : Spreading × Bool} (h : x.1.Sound f) (slot : Nat) :
    (f.visit x slot).1.Sound f := by
  simp only [Flow.visit]
  split
  · exact h
  · have hpassing : (Spreading.mk x.1.sets (x.1.settled.setIfInBounds slot true)).Passing f slot
        (x.1.sets.getD slot ∅) (f.targets slot) := by
      refine ⟨h.within, h.seeded, by simpa using h.size_settled, fun hi hsettled => ?_,
        fun _ => rfl, fun _ hl _ => .inl ?_⟩
      · rw [getD_setIfInBounds, if_neg fun heq => hi heq.1.symm] at hsettled
        exact h.closed hsettled
      · simpa [targets] using hl
    have hsolve : ∀ j ∈ f.targets slot, j < f.size → ∀ a ∈ x.1.sets.getD slot ∅,
        a ∈ f.solve.getD j ∅ := by
      intro j hj hlt a ha
      have hl : (slot, j) ∈ f.links := by simpa [targets] using hj
      exact mem_solve_of_link hl hlt (h.within.2 slot a ha)
    have hpassed := hpassing.foldl (x := (_, x.2)) hsolve
    refine ⟨hpassed.within, hpassed.seeded, hpassed.size_settled,
      fun {i j} hsettled hl hj a ha => ?_⟩
    by_cases hi : i = slot
    · subst hi
      rw [hpassed.eq_set hsettled] at ha
      exact (hpassed.passed hsettled hl hj).resolve_left List.not_mem_nil a ha
    · exact hpassed.closed hi hsettled hl hj a ha

theorem Sound.spreadPass {x : Spreading} (h : x.Sound f) : (f.spreadPass x).1.Sound f :=
  List.foldlRecOn (motive := fun x => x.1.Sound f) (List.range f.size) f.visit h
    fun _ hx slot _ => hx.visit slot

theorem Sound.initial (f : Flow) :
    ({ sets := f.initial, settled := .replicate f.size false } : Spreading).Sound f where
  within := .initial f
  seeded := .refl _
  size_settled := by simp
  closed {i j} hsettled := by
    by_cases hi : i < f.size <;> simp [hi] at hsettled

/-! A pass that reports nothing settles every slot. -/

theorem settled_foldl_passOn (s : IdSet) (js : List Nat) {x : Spreading × Bool}
    (h : (js.foldl (Flow.passOn s) x).2 = false) : js.foldl (Flow.passOn s) x = x := by
  obtain ⟨x, _ | _⟩ := x
  · exact Prod.ext ((reports_passOn s).of_foldl h).1 h
  · rw [(reports_passOn s).foldl_true] at h
    cases h

theorem of_visit {x : Spreading × Bool} (h : (f.visit x slot).2 = false) :
    x.2 = false ∧ (f.visit x slot).1.settled.size = x.1.settled.size ∧
      ∀ i < x.1.settled.size, x.1.settled.getD i false = true ∨ i = slot →
        (f.visit x slot).1.settled.getD i false = true := by
  simp only [Flow.visit] at h ⊢
  split
  · next hsettled =>
    rw [if_pos hsettled] at h
    exact ⟨h, rfl, fun i _ hi => hi.elim id fun heq => heq ▸ hsettled⟩
  · next hsettled =>
    rw [if_neg hsettled] at h
    have hpassed := settled_foldl_passOn _ _ h
    rw [hpassed] at h ⊢
    refine ⟨h, Array.size_setIfInBounds, fun i hlt hi => ?_⟩
    rw [getD_setIfInBounds]
    by_cases heq : i = slot
    · rw [if_pos ⟨heq.symm, heq ▸ hlt⟩]
    · rw [if_neg fun h => heq h.1.symm]
      exact hi.resolve_right heq

theorem of_foldl_visit {slots : List Nat} {x : Spreading × Bool}
    (h : (slots.foldl f.visit x).2 = false) :
    x.2 = false ∧ ∀ i < x.1.settled.size, x.1.settled.getD i false = true ∨ i ∈ slots →
      (slots.foldl f.visit x).1.settled.getD i false = true := by
  induction slots generalizing x with
  | nil => exact ⟨h, fun i _ hi => hi.resolve_right List.not_mem_nil⟩
  | cons slot slots ih =>
    obtain ⟨hvisit, hrest⟩ := ih h
    obtain ⟨hreport, hsize, hsettled⟩ := of_visit hvisit
    refine ⟨hreport, fun i hlt hi => hrest i (hsize ▸ hlt) ?_⟩
    rcases hi with hi | hi
    · exact .inl (hsettled i hlt (.inl hi))
    · rcases List.mem_cons.1 hi with rfl | hi
      · exact .inl (hsettled i hlt (.inr rfl))
      · exact .inr hi

theorem Sound.sets_eq_solve {x : Spreading} (h : x.Sound f)
    (hsettled : ∀ i < f.size, x.settled.getD i false = true) : x.sets = f.solve := by
  refine h.within.eq_solve (fun i s hs hi a ha => ?_) (fun i j hl hj a ha => ?_)
  · exact h.seeded i a (mem_initial.2 ⟨hi, s, hs, ha⟩)
  · have hi : i < f.size := by
      by_contra hi
      simp [h.within.1, hi] at ha
    exact h.closed (hsettled i hi) hl hj a ha

end Spreading

/-- The loop ends, and it ends with the solution. -/
theorem spread_eq (f : Flow) : f.spread = .some f.solve := by
  have hpass : ∀ x : Spreading, x.Sound f → (f.spreadPass x).1.Sound f := fun _ h => h.spreadPass
  have hrange : ∀ x : Spreading, x.Sound f → ∀ y, Has x.sets y →
      y ∈ Finset.range f.size ×ˢ Finset.range f.width := by
    intro x hx y hy
    simpa using hx.within.partial.in_range hy
  obtain ⟨x, hx, hreport, hrun⟩ :=
    f.gathers_spreadPass.exists_repeatWhile _ hpass hrange (Spreading.Sound.initial f)
  have hsettled : ∀ i < f.size, (f.spreadPass x).1.settled.getD i false = true := by
    intro i hi
    have hlt : i < x.settled.size := by rwa [hx.size_settled]
    exact (Spreading.of_foldl_visit hreport).2 i hlt (.inr (List.mem_range.2 hi))
  rw [spread, hrun, Part.map_some, hx.spreadPass.sets_eq_solve hsettled]

end Lalr.Flow
