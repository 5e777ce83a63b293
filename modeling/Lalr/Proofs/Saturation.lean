import Lalr.Proofs.Lists
import Lalr.Saturation
import Mathlib.Data.List.Perm.Subperm
import Mathlib.Logic.Relation

/-!
What exploring and repeating settle on. Where there are no more elements than the bound, exploring
finds exactly what the start leads to; where a measure grows with each pass that changes something,
repeating ends in a fixed point.
-/

namespace Lalr

variable {α : Type}

/-- The start leads to the element in some number of steps. -/
def Leads (next : α → List α) (start : List α) (x : α) : Prop :=
  ∃ s ∈ start, Relation.ReflTransGen (fun a b => b ∈ next a) s x

theorem Leads.of_mem {next : α → List α} {start : List α} {x : α} (h : x ∈ start) :
    Leads next start x := ⟨x, h, .refl⟩

theorem Leads.step {next : α → List α} {start : List α} {x y : α} (h : Leads next start x)
    (hy : y ∈ next x) : Leads next start y := by
  obtain ⟨s, hs, hx⟩ := h
  exact ⟨s, hs, hx.tail hy⟩

theorem Leads.induction {next : α → List α} {start : List α} {P : α → Prop}
    (hstart : ∀ x ∈ start, P x) (hnext : ∀ x y, P x → y ∈ next x → P y) {x : α}
    (h : Leads next start x) : P x := by
  obtain ⟨s, hs, hx⟩ := h
  induction hx with
  | refl => exact hstart s hs
  | tail _ hy ih => exact hnext _ _ ih hy

section Explore

variable [DecidableEq α] {next : α → List α}

theorem leads_of_mem_explore {start : List α} {y : α} :
    ∀ n done queue, (∀ x ∈ done ++ queue, Leads next start x) →
      y ∈ explore next n done queue → Leads next start y
  | 0, _, _, h, hy => h y hy
  | _ + 1, _, [], h, hy => h y (by simpa [explore] using hy)
  | n + 1, done, x :: queue, h, hy => by
    refine leads_of_mem_explore n _ _ (fun z hz => ?_) hy
    simp only [List.mem_append, List.mem_singleton, List.mem_eraseDups, List.mem_filter] at hz
    rcases hz with (hz | rfl) | hz | hz
    · exact h z (by simp [hz])
    · exact h z (by simp)
    · exact h z (by simp [hz])
    · exact (h x (by simp)).step hz.1

theorem nodup_explore :
    ∀ n (done queue : List α), (done ++ queue).Nodup → (explore next n done queue).Nodup
  | 0, _, _, h => h
  | _ + 1, _, [], h => by simpa [explore] using h
  | n + 1, done, x :: queue, h => by
    refine nodup_explore n _ _ ?_
    rw [← List.append_assoc, List.append_assoc done, List.singleton_append]
    exact nodup_append_fresh h _

/-- While elements are left to be explored, fewer were explored than there are. -/
theorem explore_closed {all : List α} (hnext : ∀ x ∈ all, next x ⊆ all) :
    ∀ n (done queue : List α), (done ++ queue).Nodup → done ++ queue ⊆ all →
      all.length ≤ n + done.length → (∀ x ∈ done, next x ⊆ done ++ queue) →
      ∀ x ∈ explore next n done queue, next x ⊆ explore next n done queue
  | 0, done, queue, hnodup, hsub, hlen, hdone => by
    have hle : (done ++ queue).length ≤ all.length := (hnodup.subperm hsub).length_le
    have hqueue : queue = [] := by
      apply List.eq_nil_of_length_eq_zero
      simp only [List.length_append] at hle
      omega
    subst hqueue
    simpa [explore] using hdone
  | _ + 1, done, [], _, _, _, hdone => by simpa [explore] using hdone
  | n + 1, done, x :: queue, hnodup, hsub, hlen, hdone => by
    have hx : x ∈ all := hsub (by simp)
    refine explore_closed hnext n _ _ ?_ (fun z hz => ?_) ?_ fun z hz y hy => ?_
    · rw [← List.append_assoc, List.append_assoc done, List.singleton_append]
      exact nodup_append_fresh hnodup _
    · simp only [List.mem_append, List.mem_singleton, List.mem_eraseDups, List.mem_filter] at hz
      rcases hz with (hz | rfl) | hz | hz
      · exact hsub (by simp [hz])
      · exact hx
      · exact hsub (by simp [hz])
      · exact hnext x hx hz.1
    · simp only [List.length_append, List.length_singleton]
      omega
    · by_cases hknown : y ∈ done ++ x :: queue
      · simp only [List.mem_append, List.mem_cons] at hknown ⊢
        tauto
      · rcases List.mem_append.1 hz with hz | hz
        · exact absurd (hdone z hz hy) hknown
        · rw [List.mem_singleton] at hz
          subst hz
          simp only [List.mem_append, List.mem_eraseDups, List.mem_filter]
          exact .inr (.inr ⟨hy, by simpa using hknown⟩)

theorem nodup_discover {bound : Nat} {start : List α} (h : start.Nodup) :
    (discover next bound start).Nodup := nodup_explore bound [] start (by simpa using h)

theorem leads_of_mem_discover {bound : Nat} {start : List α} {x : α}
    (h : x ∈ discover next bound start) : Leads next start x :=
  leads_of_mem_explore bound [] start (fun _ h => .of_mem (by simpa using h)) h

theorem discover_closed (all : List α) (hnext : ∀ x ∈ all, next x ⊆ all)
    {bound : Nat} {start : List α} (hnodup : start.Nodup) (hstart : start ⊆ all)
    (hbound : all.length ≤ bound) :
    ∀ x ∈ discover next bound start, next x ⊆ discover next bound start :=
  explore_closed hnext bound [] start (by simpa using hnodup) (by simpa using hstart)
    (by simpa using hbound) (by simp)

/-- A bound above the number of elements is no bound. -/
theorem mem_discover_iff (all : List α) (hnext : ∀ x ∈ all, next x ⊆ all)
    {bound : Nat} {start : List α} (hnodup : start.Nodup) (hstart : start ⊆ all)
    (hbound : all.length ≤ bound) {x : α} :
    x ∈ discover next bound start ↔ Leads next start x := by
  constructor
  · exact leads_of_mem_discover
  · exact Leads.induction (fun x hx => (discover_extends next bound start).subset hx)
      fun x y hx hy => discover_closed all hnext hnodup hstart hbound x hx hy

end Explore

/-- A pass that changes something leaves less to be changed. -/
theorem saturate_fixed [DecidableEq α] {P : α → Prop} {pass : α → α} (size : α → Nat)
    {limit : Nat} (hpass : ∀ a, P a → P (pass a))
    (hgrows : ∀ a, P a → pass a ≠ a → size a < size (pass a))
    (hlimit : ∀ a, P a → size a ≤ limit) :
    ∀ {n a}, P a → limit < n + size a → pass (saturate pass n a) = saturate pass n a
  | 0, a, ha, hn => absurd (hlimit a ha) (by omega)
  | n + 1, a, ha, hn => by
    simp only [saturate]
    split
    · assumption
    · next hne =>
      have := hgrows a ha hne
      exact saturate_fixed size hpass hgrows hlimit (hpass a ha) (by omega)

end Lalr
