import Mathlib.Data.List.Forall2
import Mathlib.Data.List.Nodup

/-!
Lists as finite sets and finite maps.
-/

namespace Lalr

variable {α β : Type}

theorem map_fst_filterMap {γ : Type} (f : α → Option β) (h : α → β → γ) (xs : List α) :
    (xs.filterMap fun x => (f x).map fun y => (x, h x y)).map (·.1) =
      xs.filter fun x => (f x).isSome := by
  induction xs with
  | nil => rfl
  | cons x xs ih => cases hx : f x <;> simp [hx, ih]

theorem mapM_of_forall {m : Type → Type} [Monad m] [LawfulMonad m] {f : α → m β} {f' : α → β}
    {xs : List α} (h : ∀ x ∈ xs, f x = pure (f' x)) : xs.mapM f = pure (xs.map f') := by
  induction xs with
  | nil => rfl
  | cons x xs ih =>
    rw [List.forall_mem_cons] at h
    simp [h.1, ih h.2]

theorem zipIdx_map_range (f : Nat → β) (n : Nat) :
    ((List.range n).map f).zipIdx = (List.range n).map fun i => (f i, i) := by
  apply List.ext_getElem <;> simp

theorem exists_append_of_forall₂ {R : α → β → Prop} {xs : List α} {ys zs : List β}
    (h : List.Forall₂ R xs (ys ++ zs)) :
    ∃ us vs, xs = us ++ vs ∧ List.Forall₂ R us ys ∧ List.Forall₂ R vs zs :=
  ⟨_, _, (List.take_append_drop ys.length xs).symm, List.forall₂_take_append xs ys zs h,
    List.forall₂_drop_append xs ys zs h⟩

/-- From which end one looks does not matter where there is one thing to be found at most. -/
theorem findSome?_reverse {f : α → Option β} {xs : List α}
    (h : xs.Pairwise fun x y => f x = none ∨ f y = none) :
    xs.reverse.findSome? f = xs.findSome? f := by
  induction h with
  | nil => rfl
  | @cons x xs hx _ ih =>
    rw [List.reverse_cons, List.findSome?_append, ih, List.findSome?_singleton, List.findSome?_cons]
    cases hfx : f x with
    | none => rw [Option.or_none]
    | some y =>
      have hnone : xs.findSome? f = none := by
        rw [List.findSome?_eq_none_iff]
        exact fun z hz => (hx z hz).resolve_left (by simp [hfx])
      rw [hnone, Option.none_or]

theorem of_findSome?_reverse {f : α → Option β} {xs : List α} {y : β}
    (h : xs.reverse.findSome? f = some y) :
    ∃ before x after, xs = before ++ x :: after ∧ f x = some y ∧ ∀ z ∈ after, f z = none := by
  obtain ⟨after, x, before, heq, hx, hafter⟩ := List.findSome?_eq_some_iff.1 h
  refine ⟨before.reverse, x, after.reverse, ?_, hx, fun z hz => hafter z (List.mem_reverse.1 hz)⟩
  rw [List.reverse_eq_iff.1 heq]
  simp

variable [DecidableEq α]

theorem nodup_eraseDups (xs : List α) : xs.eraseDups.Nodup := by
  match xs with
  | [] => simp
  | x :: xs =>
    rw [List.eraseDups_cons, List.nodup_cons]
    exact ⟨by simp [List.mem_eraseDups], nodup_eraseDups _⟩
termination_by xs.length
decreasing_by exact Nat.lt_succ_of_le (List.length_filter_le _ _)

theorem nodup_append_fresh {known : List α} (h : known.Nodup) (xs : List α) :
    (known ++ (xs.filter (· ∉ known)).eraseDups).Nodup := by
  refine List.Nodup.append h (nodup_eraseDups _) fun x hx hfresh => ?_
  rw [List.mem_eraseDups, List.mem_filter] at hfresh
  simp [hx] at hfresh

theorem lookup_graph (f : α → β) (xs : List α) (x : α) :
    (xs.map fun y => (y, f y)).lookup x = if x ∈ xs then some (f x) else none := by
  induction xs with
  | nil => rfl
  | cons y ys ih =>
    by_cases hxy : x = y
    · subst hxy
      simp
    · have hbeq : (x == y) = false := by simpa using hxy
      rw [List.map_cons, List.lookup_cons, hbeq]
      simp [ih, hxy]

theorem idxOf?_eq (xs : List α) (x : α) :
    xs.idxOf? x = if x ∈ xs then some (xs.idxOf x) else none := by
  induction xs with
  | nil => rfl
  | cons y ys ih =>
    by_cases hxy : y = x
    · subst hxy
      simp [List.idxOf?_cons]
    · have hyx : x ≠ y := Ne.symm hxy
      rw [List.idxOf?_cons, ih, List.idxOf_cons_ne _ hxy]
      by_cases hmem : x ∈ ys <;> simp [hmem, hxy, hyx]

theorem idxOf?_eq_some {xs : List α} {x : α} {i : Nat} :
    xs.idxOf? x = some i ↔ x ∈ xs ∧ xs.idxOf x = i := by
  rw [idxOf?_eq]
  split <;> simp_all

/-! Lists that begin alike number their elements alike. -/

theorem eraseDups_isPrefix (xs ys : List α) : xs.eraseDups <+: (xs ++ ys).eraseDups := by
  rw [List.eraseDups_append]
  exact List.prefix_append _ _

theorem idxOf_of_isPrefix {xs ys : List α} (h : xs <+: ys) {x : α} (hx : x ∈ xs) :
    ys.idxOf x = xs.idxOf x := by
  obtain ⟨zs, rfl⟩ := h
  exact List.idxOf_append_of_mem hx

theorem length_le_idxOf {xs ys : List α} (h : xs <+: ys) {x : α} (hx : x ∉ xs) :
    xs.length ≤ ys.idxOf x := by
  obtain ⟨zs, rfl⟩ := h
  rw [List.idxOf_append_of_notMem hx]
  exact Nat.le_add_right _ _

end Lalr
