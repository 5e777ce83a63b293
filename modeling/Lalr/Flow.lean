import Lalr.IdSet
import Lalr.Saturation

/-!
Sets that flow along links between numbered slots. The solution gives each slot what was put into
the slots from which links lead to it.
-/

namespace Lalr

structure Flow where
  size : Nat
  seeds : List (Nat × IdSet)
  links : List (Nat × Nat)

namespace Flow

def pour (sets : Array IdSet) (slot : Nat) (s : IdSet) : Array IdSet := sets.modify slot (· ∪ s)

def initial (f : Flow) : Array IdSet :=
  f.seeds.foldl (fun sets (i, s) => pour sets i s) (.replicate f.size ∅)

/-- Once along every link. -/
def pass (f : Flow) (sets : Array IdSet) : Array IdSet :=
  f.links.foldl (fun sets (i, j) => pour sets j (sets.getD i ∅)) sets

/-- Above every number in a seed. -/
def width (f : Flow) : Nat := f.seeds.foldl (fun w (_, s) => max w s.bound) 0

/-- A pass that changes anything puts a number into a slot that did not have it. -/
def solve (f : Flow) : Array IdSet := saturate f.pass (f.size * f.width + 1) f.initial

@[simp] theorem size_pour (sets : Array IdSet) (slot : Nat) (s : IdSet) :
    (pour sets slot s).size = sets.size := by simp [pour]

@[simp] theorem size_initial (f : Flow) : f.initial.size = f.size :=
  List.foldlRecOn (motive := fun sets : Array IdSet => sets.size = f.size) f.seeds _ (by simp)
    fun _ h _ _ => by simpa using h

@[simp] theorem size_pass (f : Flow) (sets : Array IdSet) : (f.pass sets).size = sets.size :=
  List.foldlRecOn (motive := fun new : Array IdSet => new.size = sets.size) f.links _ rfl
    fun _ h _ _ => by simpa using h

/-- Every slot has a set in the solution. -/
@[simp] theorem size_solve (f : Flow) : f.solve.size = f.size :=
  saturate_induction (P := fun sets : Array IdSet => sets.size = f.size)
    (fun _ h => by simpa using h) (by simp)

end Flow
end Lalr
