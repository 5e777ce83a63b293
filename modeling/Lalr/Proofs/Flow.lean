import Lalr.Flow
import Lalr.Proofs.Saturation
import Mathlib.Data.Finset.Prod

/-!
The solution of a flow is the least one: a slot holds exactly what comes to it from a seed along
links.
-/

namespace Lalr.Flow

/-- The number comes to the slot from a seed. -/
inductive Reaches (f : Flow) : Nat → Nat → Prop
  | seed {i s a} : (i, s) ∈ f.seeds → a ∈ s → Reaches f i a
  | link {i j a} : (i, j) ∈ f.links → Reaches f i a → Reaches f j a

/-- Each slot of the first has at most what it has in the second. -/
def Below (s t : Array IdSet) : Prop := ∀ i a, a ∈ s.getD i ∅ → a ∈ t.getD i ∅

theorem Below.refl (s : Array IdSet) : Below s s := fun _ _ h => h

theorem Below.trans {s t u : Array IdSet} (h : Below s t) (h' : Below t u) : Below s u :=
  fun i a ha => h' i a (h i a ha)

theorem Below.antisymm {s t : Array IdSet} (hsize : s.size = t.size) (h : Below s t)
    (h' : Below t s) : s = t := by
  apply Array.ext hsize
  intro i hi hi'
  apply IdSet.ext
  intro a
  have hs : s.getD i ∅ = s[i] := by simp [hi]
  have ht : t.getD i ∅ = t[i] := by simp [hi']
  exact ⟨fun ha => ht ▸ h i a (hs ▸ ha), fun ha => hs ▸ h' i a (ht ▸ ha)⟩

@[simp] theorem mem_pour {sets : Array IdSet} {slot i a : Nat} {s : IdSet} :
    a ∈ (pour sets slot s).getD i ∅ ↔
      a ∈ sets.getD i ∅ ∨ i = slot ∧ i < sets.size ∧ a ∈ s := by
  by_cases hi : i < sets.size
  · by_cases hslot : slot = i
    · subst hslot
      simp [pour, hi, Array.getElem_modify]
    · simp [pour, hi, Array.getElem_modify, hslot, Ne.symm hslot]
  · simp [pour, hi]

theorem below_pour (sets : Array IdSet) (slot : Nat) (s : IdSet) : Below sets (pour sets slot s) :=
  fun _ _ h => mem_pour.2 (.inl h)

def along (sets : Array IdSet) (l : Nat × Nat) : Array IdSet := pour sets l.2 (sets.getD l.1 ∅)

theorem pass_eq (f : Flow) (sets : Array IdSet) : f.pass sets = f.links.foldl along sets := rfl

@[simp] theorem below_foldl_along (links : List (Nat × Nat)) (sets : Array IdSet) :
    Below sets (links.foldl along sets) := by
  induction links generalizing sets with
  | nil => exact .refl sets
  | cons l links ih => exact (below_pour _ _ _).trans (ih _)

theorem mem_of_foldl_along {links : List (Nat × Nat)} {sets : Array IdSet}
    (h : links.foldl along sets = sets) {i j a : Nat} (hl : (i, j) ∈ links) (hj : j < sets.size)
    (ha : a ∈ sets.getD i ∅) : a ∈ sets.getD j ∅ := by
  induction links with
  | nil => cases hl
  | cons l links ih =>
    have hfirst : along sets l = sets := by
      apply Below.antisymm (by simp [along])
      · intro i a hi
        rw [← h]
        exact below_foldl_along links (along sets l) i a hi
      · exact below_pour _ _ _
    rw [List.foldl_cons, hfirst] at h
    rcases List.mem_cons.1 hl with rfl | hl
    · rw [← hfirst]
      exact mem_pour.2 (.inr ⟨rfl, hj, ha⟩)
    · exact ih h hl

theorem mem_foldl_pour {seeds : List (Nat × IdSet)} {sets : Array IdSet} {i a : Nat} :
    a ∈ (seeds.foldl (fun sets (i, s) => pour sets i s) sets).getD i ∅ ↔
      a ∈ sets.getD i ∅ ∨ i < sets.size ∧ ∃ s, (i, s) ∈ seeds ∧ a ∈ s := by
  induction seeds generalizing sets with
  | nil => simp
  | cons x seeds ih =>
    simp only [List.foldl_cons, ih, mem_pour, size_pour, List.mem_cons]
    constructor
    · rintro ((h | ⟨rfl, hi, h⟩) | ⟨hi, s, hs, h⟩)
      · exact .inl h
      · exact .inr ⟨hi, _, .inl rfl, h⟩
      · exact .inr ⟨hi, s, .inr hs, h⟩
    · rintro (h | ⟨hi, s, rfl | hs, h⟩)
      · exact .inl (.inl h)
      · exact .inl (.inr ⟨rfl, hi, h⟩)
      · exact .inr ⟨hi, s, hs, h⟩

theorem mem_initial {f : Flow} {i a : Nat} :
    a ∈ f.initial.getD i ∅ ↔ i < f.size ∧ ∃ s, (i, s) ∈ f.seeds ∧ a ∈ s := by
  rw [initial, mem_foldl_pour]
  by_cases hi : i < f.size <;> simp [hi]

theorem le_foldl_max {β : Type} (size : β → Nat) (xs : List β) (w : Nat) :
    w ≤ xs.foldl (fun w x => max w (size x)) w := by
  induction xs generalizing w with
  | nil => exact Nat.le_refl w
  | cons x xs ih => exact (Nat.le_max_left _ _).trans (ih _)

theorem le_foldl_max_of_mem {β : Type} (size : β → Nat) {xs : List β} {x : β} (h : x ∈ xs)
    (w : Nat) : size x ≤ xs.foldl (fun w x => max w (size x)) w := by
  induction xs generalizing w with
  | nil => cases h
  | cons y xs ih =>
    rcases List.mem_cons.1 h with rfl | h
    · exact (Nat.le_max_right _ _).trans (le_foldl_max size xs _)
    · exact ih h _

theorem Reaches.lt_width {f : Flow} {i a : Nat} (h : f.Reaches i a) : a < f.width := by
  induction h with
  | seed hs ha =>
    exact (IdSet.lt_bound ha).trans_le
      (le_foldl_max_of_mem (fun x : Nat × IdSet => x.2.bound) hs 0)
  | link _ _ ih => exact ih

/-- Every slot has a set, and nothing is in it but what comes to it from a seed. -/
def Partial (f : Flow) (sets : Array IdSet) : Prop :=
  sets.size = f.size ∧ ∀ i a, a ∈ sets.getD i ∅ → f.Reaches i a

theorem Partial.initial (f : Flow) : f.Partial f.initial := by
  refine ⟨size_initial f, fun i a h => ?_⟩
  obtain ⟨_, s, hs, ha⟩ := mem_initial.1 h
  exact .seed hs ha

theorem Partial.pass {f : Flow} {sets : Array IdSet} (h : f.Partial sets) :
    f.Partial (f.pass sets) := by
  rw [pass_eq]
  refine List.foldlRecOn (motive := f.Partial) f.links along h fun sets h l hl => ⟨?_, ?_⟩
  · simpa [along] using h.1
  · intro i a ha
    rcases mem_pour.1 ha with ha | ⟨rfl, _, ha⟩
    · exact h.2 i a ha
    · exact .link hl (h.2 _ a ha)

theorem Partial.in_range {f : Flow} {sets : Array IdSet} (h : f.Partial sets) {i a : Nat}
    (ha : a ∈ sets.getD i ∅) : i < f.size ∧ a < f.width := by
  refine ⟨?_, (h.2 i a ha).lt_width⟩
  by_contra hi
  have hsize : ¬ i < sets.size := by rwa [h.1]
  rw [Array.getD_eq_getD_getElem?, Array.getElem?_eq_none (Nat.le_of_not_lt hsize)] at ha
  exact IdSet.not_mem_empty a ha

def filled (f : Flow) (sets : Array IdSet) : Finset (Nat × Nat) :=
  (Finset.range f.size ×ˢ Finset.range f.width).filter fun x => x.2 ∈ sets.getD x.1 ∅

theorem mem_filled {f : Flow} {sets : Array IdSet} {i a : Nat} :
    (i, a) ∈ f.filled sets ↔ (i < f.size ∧ a < f.width) ∧ a ∈ sets.getD i ∅ := by
  simp only [filled, Finset.mem_filter, Finset.mem_product, Finset.mem_range]

theorem card_filled_le (f : Flow) (sets : Array IdSet) :
    (f.filled sets).card ≤ f.size * f.width :=
  (Finset.card_filter_le _ _).trans_eq (by simp)

/-- More slots and numbers are filled where something is new. -/
theorem card_filled_lt {f : Flow} {sets new : Array IdSet} (hnew : f.Partial new)
    (hbelow : Below sets new) {i a : Nat} (ha : a ∈ new.getD i ∅) (hnot : a ∉ sets.getD i ∅) :
    (f.filled sets).card < (f.filled new).card := by
  apply Finset.card_lt_card
  refine ⟨fun ⟨j, b⟩ hx => ?_, fun hsub => ?_⟩
  · rw [mem_filled] at hx ⊢
    exact ⟨hx.1, hbelow j b hx.2⟩
  · have hmem := hsub (mem_filled.2 ⟨hnew.in_range ha, ha⟩)
    exact hnot (mem_filled.1 hmem).2

/-- Sets that differ from what is below them have something new. -/
theorem exists_new_of_ne {sets new : Array IdSet} (hsize : new.size = sets.size)
    (hbelow : Below sets new) (hne : new ≠ sets) :
    ∃ i a, a ∈ new.getD i ∅ ∧ a ∉ sets.getD i ∅ := by
  by_contra hnone
  push Not at hnone
  exact hne (Below.antisymm hsize hnone hbelow)

theorem card_filled_pass {f : Flow} {sets : Array IdSet} (h : f.Partial sets)
    (hne : f.pass sets ≠ sets) : (f.filled sets).card < (f.filled (f.pass sets)).card := by
  have hbelow : Below sets (f.pass sets) := below_foldl_along f.links sets
  obtain ⟨i, a, ha, hnot⟩ := exists_new_of_ne (size_pass f sets) hbelow hne
  exact card_filled_lt h.pass hbelow ha hnot

theorem partial_solve (f : Flow) : f.Partial f.solve :=
  saturate_induction (P := f.Partial) (fun _ h => h.pass) (.initial f)

theorem pass_solve (f : Flow) : f.pass f.solve = f.solve := by
  have hlimit : f.size * f.width < f.size * f.width + 1 + (f.filled f.initial).card := by omega
  exact saturate_fixed (fun sets => (f.filled sets).card) (fun _ h => h.pass)
    (fun _ h => card_filled_pass h) (fun _ _ => f.card_filled_le _) (Partial.initial f) hlimit

theorem below_solve (f : Flow) : Below f.initial f.solve :=
  saturate_induction (P := Below f.initial)
    (fun _ h => h.trans (below_foldl_along f.links _)) (.refl _)

/-- Every slot has a set, and nothing is in it but what the solution has there. -/
def Within (f : Flow) (sets : Array IdSet) : Prop := sets.size = f.size ∧ Below sets f.solve

theorem Within.partial {f : Flow} {sets : Array IdSet} (h : f.Within sets) : f.Partial sets :=
  ⟨h.1, fun i a ha => (partial_solve f).2 i a (h.2 i a ha)⟩

theorem Within.initial (f : Flow) : f.Within f.initial := ⟨size_initial f, below_solve f⟩

theorem Within.pour {f : Flow} {sets : Array IdSet} (h : f.Within sets) {slot : Nat} {s : IdSet}
    (hs : slot < f.size → ∀ a ∈ s, a ∈ f.solve.getD slot ∅) : f.Within (pour sets slot s) := by
  refine ⟨(size_pour _ _ _).trans h.1, fun i a ha => ?_⟩
  rcases mem_pour.1 ha with ha | ⟨rfl, hi, ha⟩
  · exact h.2 i a ha
  · exact hs (h.1 ▸ hi) a ha

theorem mem_solve_of_seed {f : Flow} {i a : Nat} {s : IdSet} (hs : (i, s) ∈ f.seeds)
    (hi : i < f.size) (ha : a ∈ s) : a ∈ f.solve.getD i ∅ :=
  below_solve f _ _ (mem_initial.2 ⟨hi, s, hs, ha⟩)

theorem mem_solve_of_link {f : Flow} {i j a : Nat} (hl : (i, j) ∈ f.links) (hj : j < f.size)
    (ha : a ∈ f.solve.getD i ∅) : a ∈ f.solve.getD j ∅ :=
  mem_of_foldl_along (pass_solve f) hl (by simpa using hj) ha

/-- Sets within the solution that take in all seeds and all that comes along links are it. -/
theorem Within.eq_solve {f : Flow} {sets : Array IdSet} (h : f.Within sets)
    (hseeds : ∀ i s, (i, s) ∈ f.seeds → i < f.size → ∀ a ∈ s, a ∈ sets.getD i ∅)
    (hlinks : ∀ i j, (i, j) ∈ f.links → j < f.size → ∀ a ∈ sets.getD i ∅, a ∈ sets.getD j ∅) :
    sets = f.solve := by
  have hinitial : f.initial.size = f.size ∧ Below f.initial sets := by
    refine ⟨size_initial f, fun i a ha => ?_⟩
    obtain ⟨hi, s, hs, ha⟩ := mem_initial.1 ha
    exact hseeds i s hs hi a ha
  have hpass : ∀ t : Array IdSet, t.size = f.size ∧ Below t sets →
      (f.pass t).size = f.size ∧ Below (f.pass t) sets := by
    intro t ht
    rw [pass_eq]
    refine List.foldlRecOn (motive := fun t : Array IdSet => t.size = f.size ∧ Below t sets) f.links
      along ht fun t ht l hl => ⟨by simpa [along] using ht.1, fun i a ha => ?_⟩
    rcases mem_pour.1 ha with ha | ⟨rfl, hi, ha⟩
    · exact ht.2 i a ha
    · exact hlinks _ _ hl (ht.1 ▸ hi) a (ht.2 _ a ha)
  exact Below.antisymm (h.1.trans f.size_solve.symm) h.2 (saturate_induction hpass hinitial).2

/-- Where seeds and links end in slots, a slot of the solution has what comes to it. -/
theorem mem_solve_iff {f : Flow} (hseeds : ∀ x ∈ f.seeds, x.1 < f.size)
    (hlinks : ∀ x ∈ f.links, x.2 < f.size) {i a : Nat} :
    a ∈ f.solve.getD i ∅ ↔ f.Reaches i a := by
  refine ⟨(partial_solve f).2 i a, fun h => ?_⟩
  induction h with
  | seed hs ha => exact mem_solve_of_seed hs (hseeds _ hs) ha
  | link hl _ ih => exact mem_solve_of_link hl (hlinks _ hl) ih

end Lalr.Flow
