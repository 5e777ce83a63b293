/-!
Finite sets of small numbers, kept as the bits of one number. Two sets with the same members are
equal, and a set does not know how many numbers there are.
-/

namespace Lalr

structure IdSet where
  bits : Nat
  deriving DecidableEq

namespace IdSet

instance : EmptyCollection IdSet := ⟨⟨0⟩⟩

instance : Inhabited IdSet := ⟨∅⟩

def contains (s : IdSet) (i : Nat) : Bool := s.bits.testBit i

instance : Membership Nat IdSet := ⟨fun s i => s.contains i = true⟩

instance (i : Nat) (s : IdSet) : Decidable (i ∈ s) :=
  inferInstanceAs (Decidable (s.contains i = true))

def singleton (i : Nat) : IdSet := ⟨1 <<< i⟩

def union (s t : IdSet) : IdSet := ⟨s.bits ||| t.bits⟩

instance : Union IdSet := ⟨union⟩

def insert (s : IdSet) (i : Nat) : IdSet := s ∪ singleton i

/-- Above every member. -/
def bound (s : IdSet) : Nat := s.bits.log2 + 1

/-- In ascending order. -/
def toList (s : IdSet) : List Nat := (List.range s.bound).filter s.contains

theorem mem_def {s : IdSet} {i : Nat} : i ∈ s ↔ s.bits.testBit i = true := Iff.rfl

@[ext] theorem ext {s t : IdSet} (h : ∀ i, i ∈ s ↔ i ∈ t) : s = t := by
  cases s with | mk a =>
  cases t with | mk b =>
  exact congrArg IdSet.mk (Nat.eq_of_testBit_eq fun i => Bool.eq_iff_iff.2 (h i))

@[simp] theorem not_mem_empty (i : Nat) : i ∉ (∅ : IdSet) := by
  simp [mem_def, EmptyCollection.emptyCollection]

@[simp] theorem mem_union {s t : IdSet} {i : Nat} : i ∈ s ∪ t ↔ i ∈ s ∨ i ∈ t := by
  simp [mem_def, Union.union, union]

@[simp] theorem mem_singleton {i j : Nat} : i ∈ singleton j ↔ i = j := by
  simp only [mem_def, singleton, Nat.shiftLeft_eq, Nat.one_mul, Nat.testBit_two_pow]
  exact ⟨fun h => (of_decide_eq_true h).symm, fun h => decide_eq_true h.symm⟩

@[simp] theorem mem_insert {s : IdSet} {i j : Nat} : i ∈ s.insert j ↔ i ∈ s ∨ i = j := by
  simp [insert]

theorem lt_bound {s : IdSet} {i : Nat} (h : i ∈ s) : i < s.bound := by
  have := Nat.ge_two_pow_of_testBit h
  have h0 : s.bits ≠ 0 := fun h' => by simp [mem_def, h'] at h
  exact Nat.lt_succ_of_le ((Nat.le_log2 h0).2 this)

@[simp] theorem mem_toList {s : IdSet} {i : Nat} : i ∈ s.toList ↔ i ∈ s := by
  simp only [toList, List.mem_filter, List.mem_range]
  exact ⟨fun h => h.2, fun h => ⟨lt_bound h, h⟩⟩

end IdSet
end Lalr
