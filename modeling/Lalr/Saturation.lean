/-!
Two ways to compute what a finite process settles on: repeating a pass until it changes nothing,
and exploring from a start until nothing new is found.
-/

namespace Lalr

variable {α : Type} [DecidableEq α]

/-- Repeats the pass until it changes nothing, that many times at most. -/
def saturate (pass : α → α) : Nat → α → α
  | 0, a => a
  | n + 1, a =>
    let b := pass a
    if b = a then a else saturate pass n b

/-- The elements of `done` were explored already, those of `queue` are to be explored in turn; each
puts the successors that nobody found before it at the end of the queue. The bound is on the number
of elements explored. -/
def explore (next : α → List α) : Nat → (done queue : List α) → List α
  | 0, done, queue => done ++ queue
  | _, done, [] => done
  | n + 1, done, x :: queue =>
    let known := done ++ x :: queue
    let fresh := ((next x).filter (· ∉ known)).eraseDups
    explore next n (done ++ [x]) (queue ++ fresh)

/-- All that can be reached from the start, in order of discovery. -/
def discover (next : α → List α) (bound : Nat) (start : List α) : List α :=
  explore next bound [] start

theorem saturate_induction {P : α → Prop} {pass : α → α} (hpass : ∀ a, P a → P (pass a)) :
    ∀ {n a}, P a → P (saturate pass n a)
  | 0, _, h => h
  | n + 1, a, h => by
    simp only [saturate]
    split
    · exact h
    · exact saturate_induction hpass (hpass a h)

/-- What was found stays where it is. -/
theorem explore_extends (next : α → List α) :
    ∀ n done queue, done ++ queue <+: explore next n done queue
  | 0, _, _ => List.prefix_rfl
  | _ + 1, _, [] => by simp [explore]
  | n + 1, done, x :: queue => by
    refine List.IsPrefix.trans ?_ (explore_extends next n _ _)
    rw [← List.append_assoc, ← List.append_cons]
    exact List.prefix_append _ _

theorem discover_extends (next : α → List α) (bound : Nat) (start : List α) :
    start <+: discover next bound start := explore_extends next bound [] start

end Lalr
