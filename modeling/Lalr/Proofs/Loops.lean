import Lalr.Proofs.Saturation
import Mathlib.Data.Finset.Card
import Mathlib.Data.PFun

/-!
Loops without a bound. They have a result where they end, and none where they do not. A loop that
goes round again only if a measure grew ends where the measure is bounded; a walk along a list that
it makes longer ends where there are finitely many elements to put there.
-/

namespace Lalr

variable {α β : Type}

/-- Goes round again as long as the pass reports that it got anywhere. -/
def repeatWhile (pass : α → α × Bool) : α →. α :=
  PFun.fix fun a => .some (if (pass a).2 then .inr (pass a).1 else .inl (pass a).1)

theorem repeatWhile_of_true {pass : α → α × Bool} {a : α} (h : (pass a).2 = true) :
    repeatWhile pass a = repeatWhile pass (pass a).1 :=
  PFun.fix_fwd_eq (by rw [if_pos h, Part.mem_some_iff])

theorem repeatWhile_of_false {pass : α → α × Bool} {a : α} (h : (pass a).2 = false) :
    repeatWhile pass a = .some (pass a).1 :=
  Part.eq_some_iff.2 (PFun.fix_stop (by simp [h]))

/-- The loop ends, and what it ends with was left by a pass that got nowhere. -/
theorem exists_repeatWhile {P : α → Prop} (pass : α → α × Bool) (size : α → Nat) {limit : Nat}
    (hpass : ∀ a, P a → P (pass a).1)
    (hgrows : ∀ a, P a → (pass a).2 = true → size a < size (pass a).1)
    (hlimit : ∀ a, P a → size a ≤ limit) {a : α} (ha : P a) :
    ∃ b, P b ∧ (pass b).2 = false ∧ repeatWhile pass a = .some (pass b).1 := by
  cases hreport : (pass a).2 with
  | false => exact ⟨a, ha, hreport, repeatWhile_of_false hreport⟩
  | true =>
    have hsize := hgrows a ha hreport
    have hbound := hlimit _ (hpass a ha)
    obtain ⟨b, hb, hend, hrun⟩ := exists_repeatWhile pass size hpass hgrows hlimit (hpass a ha)
    exact ⟨b, hb, hend, (repeatWhile_of_true hreport).trans hrun⟩
termination_by limit - size a
decreasing_by omega

/-! Passes made of steps. -/

/-- A step that changes something reports it, and what was reported stays reported. -/
structure Reports (step : α × Bool → β → α × Bool) : Prop where
  keeps {a : α} {b : β} : (step (a, true) b).2 = true
  unchanged {a : α} {b : β} : (step (a, false) b).2 = false → (step (a, false) b).1 = a

namespace Reports

variable {step : α × Bool → β → α × Bool}

theorem foldl_true (h : Reports step) (bs : List β) (a : α) :
    (bs.foldl step (a, true)).2 = true := by
  induction bs generalizing a with
  | nil => rfl
  | cons b bs ih =>
    have hstep : step (a, true) b = ((step (a, true) b).1, true) := Prod.ext rfl h.keeps
    rw [List.foldl_cons, hstep]
    exact ih _

/-- Where nothing is reported, no step changed anything. -/
theorem of_foldl (h : Reports step) {bs : List β} {a : α}
    (hfold : (bs.foldl step (a, false)).2 = false) :
    (bs.foldl step (a, false)).1 = a ∧ ∀ b ∈ bs, step (a, false) b = (a, false) := by
  induction bs with
  | nil => exact ⟨rfl, nofun⟩
  | cons b bs ih =>
    rw [List.foldl_cons] at hfold ⊢
    cases hreport : (step (a, false) b).2 with
    | true =>
      have hstep : step (a, false) b = ((step (a, false) b).1, true) := Prod.ext rfl hreport
      rw [hstep, h.foldl_true] at hfold
      cases hfold
    | false =>
      have hstep : step (a, false) b = (a, false) := Prod.ext (h.unchanged hreport) hreport
      rw [hstep] at hfold ⊢
      exact ⟨(ih hfold).1, List.forall_mem_cons.2 ⟨hstep, (ih hfold).2⟩⟩

/-- Steps that are made of steps report what these do. -/
theorem foldl {γ : Type} {step : γ → α × Bool → β → α × Bool} (parts : γ → List β)
    (h : ∀ c, Reports (step c)) : Reports fun s c => (parts c).foldl (step c) s where
  keeps := (h _).foldl_true _ _
  unchanged hfold := ((h _).of_foldl hfold).1

end Reports

/-- What is there stays there, and a pass that reports that it got anywhere brought something
new. -/
structure Gathers {ι : Type} (has : α → ι → Prop) (pass : α → α × Bool) : Prop where
  keeps {a : α} {x : ι} : has a x → has (pass a).1 x
  gains {a : α} : (pass a).2 = true → ∃ x, has (pass a).1 x ∧ ¬ has a x

/-- Where there is only so much to gather, the loop ends. -/
theorem Gathers.exists_repeatWhile {ι : Type} {has : α → ι → Prop} {pass : α → α × Bool}
    (h : Gathers has pass) (all : Finset ι) {P : α → Prop} (hpass : ∀ a, P a → P (pass a).1)
    (hall : ∀ a, P a → ∀ x, has a x → x ∈ all) {a : α} (ha : P a) :
    ∃ b, P b ∧ (pass b).2 = false ∧ repeatWhile pass a = .some (pass b).1 := by
  classical
  refine Lalr.exists_repeatWhile pass (fun a => (all.filter (has a)).card) hpass
    (fun a ha hreport => ?_) (fun a _ => Finset.card_filter_le all (has a)) ha
  obtain ⟨x, hx, hnot⟩ := h.gains hreport
  have hmem : x ∈ all := hall _ (hpass a ha) x hx
  apply Finset.card_lt_card
  refine ⟨fun y hy => ?_, fun hsub => ?_⟩
  · rw [Finset.mem_filter] at hy ⊢
    exact ⟨hy.1, h.keeps hy.2⟩
  · exact hnot (Finset.mem_filter.1 (hsub (Finset.mem_filter.2 ⟨hmem, hx⟩))).2

/-- The same of the steps that a pass is made of. -/
structure Brings {ι : Type} (has : α → ι → Prop) (step : α × Bool → β → α × Bool) : Prop where
  keeps {s : α × Bool} {b : β} {x : ι} : has s.1 x → has (step s b).1 x
  gains {a : α} {b : β} : (step (a, false) b).2 = true →
    ∃ x, has (step (a, false) b).1 x ∧ ¬ has a x

namespace Brings

variable {ι : Type} {has : α → ι → Prop} {step : α × Bool → β → α × Bool}

theorem keeps_foldl (h : Brings has step) (bs : List β) {s : α × Bool} {x : ι} (hx : has s.1 x) :
    has (bs.foldl step s).1 x :=
  List.foldlRecOn (motive := fun s => has s.1 x) bs step hx fun _ hs _ _ => h.keeps hs

theorem gathers (h : Brings has step) (bs : List β) :
    Gathers has fun a => bs.foldl step (a, false) where
  keeps hx := h.keeps_foldl bs hx
  gains {a} hreport := by
    induction bs generalizing a with
    | nil => cases hreport
    | cons b bs ih =>
      rw [List.foldl_cons] at hreport ⊢
      rcases hstep : step (a, false) b with ⟨a', _ | _⟩
      · rw [hstep] at hreport
        obtain ⟨x, hx, hnot⟩ := ih hreport
        refine ⟨x, hx, fun ha => hnot ?_⟩
        have hkept := h.keeps (b := b) (s := (a, false)) ha
        rwa [hstep] at hkept
      · obtain ⟨x, hx, hnot⟩ := h.gains (a := a) (b := b) (by rw [hstep])
        rw [hstep] at hx
        exact ⟨x, h.keeps_foldl bs hx, hnot⟩

theorem foldl {γ : Type} {step : γ → α × Bool → β → α × Bool} (parts : γ → List β)
    (h : ∀ c, Brings has (step c)) : Brings has fun s c => (parts c).foldl (step c) s where
  keeps hx := (h _).keeps_foldl _ hx
  gains hreport := ((h _).gathers _).gains hreport

end Brings

/-! A walk along a list that grows under way. -/

section Walk

variable [DecidableEq α]

/-- Puts an element at the end of a list, unless it is there. -/
def addNew (xs : List α) (x : α) : List α := if x ∈ xs then xs else xs ++ [x]

/-- Walks along the list from a place in it on. What comes of an element is put at the end if it is
new, and so is still ahead. -/
def walk (next : α → Part (List α)) : Nat × List α →. List α :=
  PFun.fix fun (i, xs) => match xs[i]? with
    | none => .some (.inl xs)
    | some x => (next x).map fun found => .inr (i + 1, found.foldl addNew xs)

theorem walk_of_none {next : α → Part (List α)} {i : Nat} {xs : List α} (h : xs[i]? = none) :
    walk next (i, xs) = .some xs :=
  Part.eq_some_iff.2 (PFun.fix_stop (by simp [h]))

theorem walk_of_some {next : α → Part (List α)} {i : Nat} {xs found : List α} {x : α}
    (h : xs[i]? = some x) (hfound : next x = .some found) :
    walk next (i, xs) = walk next (i + 1, found.foldl addNew xs) :=
  PFun.fix_fwd_eq (by simp [h, hfound])

theorem foldl_addNew (ys xs : List α) :
    ys.foldl addNew xs = xs ++ (ys.filter (· ∉ xs)).eraseDups := by
  induction ys generalizing xs with
  | nil => simp
  | cons y ys ih =>
    by_cases hy : y ∈ xs
    · simp [addNew, hy, ih]
    · have hfilter : (ys.filter (· ∉ xs)).filter (fun z => !z == y) =
          ys.filter (· ∉ xs ++ [y]) := by
        rw [List.filter_filter]
        refine List.filter_congr fun z _ => ?_
        by_cases hz : z ∈ xs <;> by_cases hzy : z = y <;> simp [hz, hzy]
      have hnew : (y :: ys).filter (· ∉ xs) = y :: ys.filter (· ∉ xs) := by simp [hy]
      rw [List.foldl_cons, addNew, if_neg hy, ih, hnew, List.eraseDups_cons, hfilter]
      simp

/-- The walk finds what exploring finds, whose bound the number of elements makes good. -/
theorem walk_eq_explore {all : List α} {next' : α → Part (List α)} {next : α → List α}
    (hresult : ∀ x ∈ all, next' x = .some (next x)) (hnext : ∀ x ∈ all, next x ⊆ all) :
    ∀ n (done queue : List α), (done ++ queue).Nodup → done ++ queue ⊆ all →
      all.length ≤ n + done.length →
      walk next' (done.length, done ++ queue) = .some (explore next n done queue)
  | 0, done, queue, hnodup, hsub, hlen => by
    have hle : (done ++ queue).length ≤ all.length := (hnodup.subperm hsub).length_le
    exact walk_of_none (List.getElem?_eq_none (by omega))
  | n + 1, done, [], _, _, _ => by
    rw [walk_of_none (List.getElem?_eq_none (by simp)), List.append_nil]
    rfl
  | n + 1, done, x :: queue, hnodup, hsub, hlen => by
    have hx : x ∈ all := hsub (by simp)
    have hget : (done ++ x :: queue)[done.length]? = some x := by simp
    have hfound : ∀ z ∈ (next x).filter (· ∉ done ++ x :: queue), z ∈ all :=
      fun z hz => hnext x hx (List.mem_filter.1 hz).1
    have hmoved : ∀ fresh, done ++ x :: queue ++ fresh = done ++ [x] ++ (queue ++ fresh) := by
      simp
    have hlength : done.length + 1 = (done ++ [x]).length := by simp
    rw [walk_of_some hget (hresult x hx), foldl_addNew, hmoved, hlength]
    refine walk_eq_explore hresult hnext n _ _ ?_ (fun z hz => ?_) ?_
    · rw [← hmoved]
      exact nodup_append_fresh hnodup _
    · rw [← hmoved, List.mem_append, List.mem_eraseDups] at hz
      exact hz.elim (fun hz => hsub hz) (hfound z)
    · rw [← hlength]
      omega

/-- Where there are no more elements than the bound, the walk ends with all that is discovered. -/
theorem walk_eq_discover (all : List α) {next' : α → Part (List α)} {next : α → List α}
    (hresult : ∀ x ∈ all, next' x = .some (next x)) (hnext : ∀ x ∈ all, next x ⊆ all)
    {bound : Nat} {start : List α} (hnodup : start.Nodup) (hstart : start ⊆ all)
    (hbound : all.length ≤ bound) : walk next' (0, start) = .some (discover next bound start) :=
  walk_eq_explore hresult hnext bound [] start (by simpa using hnodup) (by simpa using hstart)
    (by simpa using hbound)

end Walk
end Lalr
