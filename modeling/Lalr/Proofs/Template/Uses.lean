import Lalr.Grammar.Basic
import Lalr.Proofs.Template.Captures
import Lalr.Proofs.Template.Compile
import Lalr.Proofs.Template.Requests
import Mathlib.Data.List.GetD

/-!
Preparing a template in one walk from front to back. The uses of each capture are counted first, and
the walk counts them down again, so that it knows the last of them when it gets there. It makes the
code that is made from back to front, and so what it makes runs as the plain evaluator does.
-/

namespace Lalr

variable {ν σ V : Type}

/-- How often each capture is used, by its index. -/
abbrev Uses := List Nat

namespace Uses

/-- One use more. Where the list is too short for the index, it is made longer. -/
def count (uses : Uses) (i : Nat) : Uses :=
  (uses ++ List.replicate (i + 1 - uses.length) 0).modify i (· + 1)

/-- One use less, and whether it was the last one. There is no result where none was counted. -/
def spend (uses : Uses) (i : Nat) : Option (Bool × Uses) :=
  match uses[i]? with
  | some (n + 1) => some (n == 0, uses.set i n)
  | _ => none

end Uses

namespace Expr

mutual

/-- Code for an expression, given the uses from it on, with those that are left after it. -/
def prepare (uses : Uses) : Expr → Option (Code × Uses)
  | .capture i => do
    let (last, uses) ← uses.spend i
    return (if last then .take i else .copy i, uses)
  | .bound i => some (.bound i, uses)
  | .literal l => some (.literal l, uses)
  | .list items => do
    let (items, uses) ← prepareAll uses items
    return (.list items, uses)
  | .call h args => do
    let (args, uses) ← prepareAll uses args
    return (.call h args, uses)
  | .method r m args => do
    let (r, uses) ← r.prepare uses
    let (args, uses) ← prepareAll uses args
    return (.method r m args, uses)
  | .field r f => do
    let (r, uses) ← r.prepare uses
    return (.field r f, uses)

def prepareAll (uses : Uses) : List Expr → Option (List Code × Uses)
  | [] => some ([], uses)
  | e :: es => do
    let (c, uses) ← e.prepare uses
    let (cs, uses) ← prepareAll uses es
    return (c :: cs, uses)

end

end Expr

namespace Template

/-- The uses of all captures; those of the rule's symbols are there even if they are none. -/
def uses (t : Template) (arity : Nat) : Uses := t.captures.foldl Uses.count (List.replicate arity 0)

def prepare (t : Template) (arity : Nat) : Option Program := do
  let (bindings, uses) ← Expr.prepareAll (t.uses arity) (t.bindings.map (·.2))
  let (result, _) ← t.result.prepare uses
  return ⟨bindings, result⟩

end Template

/-! Uses, counted and spent. -/

namespace Uses

/-- The first uses are those of these captures, and then the second. -/
def Splits (uses : Uses) (captures : List Nat) (rest : Uses) : Prop :=
  uses.length = rest.length ∧ ∀ i, uses.getD i 0 = captures.count i + rest.getD i 0

theorem Splits.nil {uses rest : Uses} (h : uses.Splits [] rest) : uses = rest := by
  refine List.ext_getElem h.1 fun i hi hi' => ?_
  simpa [hi, hi'] using h.2 i

theorem Splits.append {uses rest : Uses} {captures captures' : List Nat}
    (h : uses.Splits (captures ++ captures') rest) :
    ∃ mid, uses.Splits captures mid ∧ mid.Splits captures' rest := by
  have hsum : ∀ i, uses.getD i 0 = captures.count i + (captures'.count i + rest.getD i 0) := by
    intro i
    rw [h.2 i, List.count_append, Nat.add_assoc]
  let mid : Uses := (List.range rest.length).map fun i => captures'.count i + rest.getD i 0
  have hmid : ∀ i, mid.getD i 0 = captures'.count i + rest.getD i 0 := by
    intro i
    by_cases hi : i < rest.length
    · simp [mid, hi]
    · -- Nothing is used beyond the end of the list, and so nothing of the parts is.
      have huses : uses.getD i 0 = 0 := List.getD_eq_default _ _ (h.1 ▸ Nat.le_of_not_lt hi)
      have hzero : captures'.count i + rest.getD i 0 = 0 := by
        have := hsum i
        omega
      rw [hzero]
      exact List.getD_eq_default _ _ (by simpa [mid] using hi)
  exact ⟨mid, ⟨by simp [mid, h.1], fun i => by rw [hmid, hsum]⟩, by simp [mid], hmid⟩

/-- A use that was counted can be spent, and it is the last one just if no other is left. -/
theorem Splits.spend {uses rest : Uses} {i : Nat} (h : uses.Splits [i] rest) :
    uses.spend i = some (rest.getD i 0 == 0, rest) := by
  have hi : uses.getD i 0 = rest.getD i 0 + 1 := by simpa [Nat.add_comm] using h.2 i
  have hget : uses[i]? = some (rest.getD i 0 + 1) := by
    cases hu : uses[i]? with
    | none => simp [hu] at hi
    | some n => simpa [hu] using hi
  have hset : uses.set i (rest.getD i 0) = rest := by
    refine Splits.nil ⟨by simpa using h.1, fun j => ?_⟩
    have hj := h.2 j
    by_cases hij : i = j
    · subst hij
      simp [(List.getElem?_eq_some_iff.1 hget).1]
    · simpa [List.getElem?_set_ne hij, List.count_cons, hij] using hj
  rw [Uses.spend, hget]
  exact congrArg (fun uses => some (_, uses)) hset

end Uses

/-! The walk from front to back makes the code that is made from back to front. -/

/-- Exactly the captures in the set are used. -/
def Uses.Of (uses : Uses) (used : IdSet) : Prop := ∀ i, i ∈ used ↔ 0 < uses.getD i 0

namespace Expr

mutual

/-- Where the uses after an expression are those that code was made for, so are those from it on,
and the code for it is the same. -/
theorem prepare_of_splits (e : Expr) {uses rest : Uses} {later : IdSet}
    (h : uses.Splits e.captures rest) (hlater : rest.Of later) :
    e.prepare uses = some ((e.compile later).1, rest) ∧ uses.Of (e.compile later).2 := by
  cases e with
  | capture i =>
    rw [captures_capture] at h
    refine ⟨?_, fun j => ?_⟩
    · by_cases hi : i ∈ later
      · have hpos := (hlater i).1 hi
        have hne : (rest.getD i 0 == 0) = false := by
          rw [beq_eq_false_iff_ne]
          exact Nat.ne_of_gt hpos
        have hcontains : later.contains i = true := hi
        simp only [prepare, h.spend, compile, hne, hcontains]
        rfl
      · have hzero : rest.getD i 0 = 0 := Nat.eq_zero_of_not_pos fun hpos => hi ((hlater i).2 hpos)
        have hcontains : later.contains i = false := (Bool.not_eq_true _).mp hi
        simp only [prepare, h.spend, compile, hzero, hcontains]
        rfl
    · simp only [compile, IdSet.mem_insert, hlater j, h.2 j]
      by_cases hij : i = j
      · simp [hij, Nat.add_comm 1]
      · simp [hij, Ne.symm hij]
  | bound i =>
    obtain rfl := Uses.Splits.nil h
    exact ⟨rfl, hlater⟩
  | literal l =>
    obtain rfl := Uses.Splits.nil h
    exact ⟨rfl, hlater⟩
  | list items =>
    rw [captures_list] at h
    obtain ⟨hitems, huses⟩ := prepareAll_of_splits items h hlater
    exact ⟨by simp [prepare, hitems, compile], huses⟩
  | call helper args =>
    rw [captures_call] at h
    obtain ⟨hargs, huses⟩ := prepareAll_of_splits args h hlater
    exact ⟨by simp [prepare, hargs, compile], huses⟩
  | method receiver name args =>
    rw [captures_method] at h
    obtain ⟨mid, hreceiver, hargs⟩ := h.append
    obtain ⟨hargs, hmid⟩ := prepareAll_of_splits args hargs hlater
    obtain ⟨hreceiver, huses⟩ := prepare_of_splits receiver hreceiver hmid
    exact ⟨by simp [prepare, hreceiver, hargs, compile], huses⟩
  | field receiver name =>
    rw [captures_field] at h
    obtain ⟨hreceiver, huses⟩ := prepare_of_splits receiver h hlater
    exact ⟨by simp [prepare, hreceiver, compile], huses⟩

theorem prepareAll_of_splits (es : List Expr) {uses rest : Uses} {later : IdSet}
    (h : uses.Splits (capturesOf es) rest) (hlater : rest.Of later) :
    prepareAll uses es = some ((compileAll later es).1, rest) ∧
      uses.Of (compileAll later es).2 := by
  cases es with
  | nil =>
    obtain rfl := Uses.Splits.nil h
    exact ⟨rfl, hlater⟩
  | cons e es =>
    rw [capturesOf_cons] at h
    obtain ⟨mid, he, hes⟩ := h.append
    obtain ⟨hes, hmid⟩ := prepareAll_of_splits es hes hlater
    obtain ⟨he, huses⟩ := prepare_of_splits e he hmid
    exact ⟨by simp [prepareAll, he, hes, compileAll], huses⟩

end

end Expr

namespace Template

/-- Of two uses the first copies and the second takes. -/
example : (⟨[], .call "Pair" [.capture 0, .capture 0]⟩ : Template).prepare 1 =
    some ⟨[], .call "Pair" [.copy 0, .take 0]⟩ := by rfl

end Template
end Lalr
