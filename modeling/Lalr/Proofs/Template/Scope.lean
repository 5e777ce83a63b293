import Lalr.Proofs.Grammar.Declarations
import Lalr.Proofs.Lists
import Lalr.Template.Eval

/-!
Templates that were read from text are in scope: a binding is used only after it was made, and a
capture is one of the rule's symbols.
-/

namespace Lalr

namespace Expr

/-- All bindings that are used are among the first ones. -/
def Bounded (bounds : Nat) (e : Expr) : Prop := ∀ i, .bound i ∈ e.nodes → i < bounds

def AllBounded (bounds : Nat) (es : List Expr) : Prop := ∀ i, .bound i ∈ nodesOf es → i < bounds

variable {bounds : Nat} {e : Expr} {es : List Expr}

@[simp] theorem bounded_capture (i : Nat) : (capture i).Bounded bounds := by
  simp [Bounded, nodes]

@[simp] theorem bounded_bound {i : Nat} : (bound i).Bounded bounds ↔ i < bounds := by
  simp [Bounded, nodes]

@[simp] theorem bounded_literal (l : Literal) : (literal l).Bounded bounds := by
  simp [Bounded, nodes]

@[simp] theorem bounded_list : (list es).Bounded bounds ↔ AllBounded bounds es := by
  simp [Bounded, AllBounded, nodes]

@[simp] theorem bounded_call {helper : String} :
    (call helper es).Bounded bounds ↔ AllBounded bounds es := by
  simp [Bounded, AllBounded, nodes]

@[simp] theorem bounded_method {name : String} :
    (method e name es).Bounded bounds ↔ e.Bounded bounds ∧ AllBounded bounds es := by
  simp [Bounded, AllBounded, nodes, or_imp, forall_and]

@[simp] theorem bounded_field {name : String} :
    (field e name).Bounded bounds ↔ e.Bounded bounds := by
  simp [Bounded, nodes]

@[simp] theorem allBounded_nil : AllBounded bounds [] := by simp [AllBounded, nodesOf]

@[simp] theorem allBounded_cons :
    AllBounded bounds (e :: es) ↔ e.Bounded bounds ∧ AllBounded bounds es := by
  simp [Bounded, AllBounded, nodesOf, or_imp, forall_and]

end Expr

namespace Template

open Lalr.Expr (AllBounded)

theorem latest?_lt {names : List String} {x : String} {i : Nat} (h : latest? names x = some i) :
    i < names.length := by
  obtain ⟨j, hj, rfl⟩ := Option.map_eq_some_iff.1 h
  obtain ⟨hmem, -⟩ := idxOf?_eq_some.1 hj
  have hpos : 0 < names.length := List.length_pos_of_mem (List.mem_reverse.1 hmem)
  omega

/-- What the readers of expressions make of names is in scope, up to a depth. -/
structure ReadsBounded (names : List String) (n : Nat) : Prop where
  expr {ls rest : List Lexeme} {e : Expr} :
    readExpr names n ls = .ok (e, rest) → e.Bounded names.length
  members {ls rest : List Lexeme} {e e' : Expr} : e.Bounded names.length →
    readMembers names e n ls = .ok (e', rest) → e'.Bounded names.length
  args {close : Char} {ls rest : List Lexeme} {es : List Expr} :
    readArgs names close n ls = .ok (es, rest) → AllBounded names.length es
  items {close : Char} {ls rest : List Lexeme} {es : List Expr} :
    readItems names close n ls = .ok (es, rest) → AllBounded names.length es
  primary {ls rest : List Lexeme} {e : Expr} :
    readPrimary names n ls = .ok (e, rest) → e.Bounded names.length

theorem readsBounded (names : List String) (n : Nat) : ReadsBounded names n := by
  induction n with
  | zero => constructor <;> intros <;> contradiction
  | succ n ih =>
    constructor
    case expr =>
      intro ls rest e h
      obtain ⟨⟨e₀, rest₀⟩, hprimary, hmembers⟩ := Except.bind_eq_ok.1 h
      exact ih.members (ih.primary hprimary) hmembers
    case members =>
      intro ls rest e e' he h
      unfold readMembers at h
      split at h
      · contradiction
      · next heq =>
        obtain rfl := Nat.succ.inj heq
        obtain ⟨⟨x, rest₁⟩, -, h⟩ := Except.bind_eq_ok.1 h
        dsimp only at h
        split at h
        · obtain ⟨⟨args, rest₂⟩, hargs, h⟩ := Except.bind_eq_ok.1 h
          exact ih.members (Expr.bounded_method.2 ⟨he, ih.args hargs⟩) h
        · exact ih.members (Expr.bounded_field.2 he) h
      · cases h
        exact he
    case args =>
      intro close ls rest es h
      unfold readArgs at h
      split at h
      · cases h
        exact Expr.allBounded_nil
      · exact ih.items h
    case items =>
      intro close ls rest es h
      obtain ⟨⟨e, rest₁⟩, he, h⟩ := Except.bind_eq_ok.1 h
      dsimp only at h
      split at h
      · obtain ⟨⟨es, rest₂⟩, hes, h⟩ := Except.bind_eq_ok.1 h
        cases h
        exact Expr.allBounded_cons.2 ⟨ih.expr he, ih.items hes⟩
      · obtain ⟨rest₂, -, h⟩ := Except.bind_eq_ok.1 h
        cases h
        exact Expr.allBounded_cons.2 ⟨ih.expr he, Expr.allBounded_nil⟩
    case primary =>
      intro ls rest e h
      unfold readPrimary at h
      split at h
      · cases h
        exact Expr.bounded_capture _
      · cases h
        exact Expr.bounded_literal _
      · cases h
        exact Expr.bounded_literal _
      · obtain ⟨⟨items, rest₁⟩, hitems, h⟩ := Except.bind_eq_ok.1 h
        cases h
        exact Expr.bounded_list.2 (ih.args hitems)
      · obtain ⟨⟨e₁, rest₁⟩, he, h⟩ := Except.bind_eq_ok.1 h
        obtain ⟨rest₂, -, h⟩ := Except.bind_eq_ok.1 h
        cases h
        exact ih.expr he
      · split at h
        · cases h
          exact Expr.bounded_literal _
        · next hlatest =>
          cases h
          exact Expr.bounded_bound.2 (latest?_lt hlatest)
        · obtain ⟨⟨path, rest₁⟩, -, h⟩ := Except.bind_eq_ok.1 h
          dsimp only at h
          split at h
          · obtain ⟨⟨args, rest₂⟩, hargs, h⟩ := Except.bind_eq_ok.1 h
            cases h
            exact Expr.bounded_call.2 (ih.args hargs)
          · cases h
      · cases h
      · cases h

/-- Each binding uses those before it only. -/
def BindingsBounded (bindings : List (String × Expr)) : Prop :=
  ∀ k x (e : Expr), bindings[k]? = some (x, e) → e.Bounded k

theorem BindingsBounded.snoc {bindings : List (String × Expr)} (h : BindingsBounded bindings)
    (x : String) {e : Expr} (he : e.Bounded bindings.length) :
    BindingsBounded (bindings ++ [(x, e)]) := by
  intro k y e' hk
  by_cases hlt : k < bindings.length
  · rw [List.getElem?_append_left hlt] at hk
    exact h k y e' hk
  · rw [List.getElem?_append_right (Nat.le_of_not_lt hlt), List.getElem?_singleton] at hk
    split at hk
    · cases hk
      rwa [show k = bindings.length by omega]
    · cases hk

theorem bindingsBounded_of_readBindings {n : Nat} {bindings bindings' : List (String × Expr)}
    {ls rest : List Lexeme} (hbindings : BindingsBounded bindings)
    (h : readBindings n bindings ls = .ok (bindings', rest)) : BindingsBounded bindings' := by
  induction n generalizing bindings ls with
  | zero =>
    cases h
    exact hbindings
  | succ n ih =>
    unfold readBindings at h
    split at h
    · obtain rfl := Nat.succ.inj ‹n + 1 = Nat.succ _›
      obtain ⟨⟨x, rest₁⟩, -, h⟩ := Except.bind_eq_ok.1 h
      obtain ⟨rest₂, -, h⟩ := Except.bind_eq_ok.1 h
      obtain ⟨⟨e, rest₃⟩, he, h⟩ := Except.bind_eq_ok.1 h
      obtain ⟨rest₄, -, h⟩ := Except.bind_eq_ok.1 h
      have hbounded := (readsBounded _ _).expr he
      rw [List.length_map] at hbounded
      exact ih (hbindings.snoc x hbounded) h
    · cases h
      exact hbindings

/-- Whatever is read uses a binding only after it was made. -/
theorem bounded_of_readTemplate {ls rest : List Lexeme} {t : Template}
    (h : readTemplate ls = .ok (t, rest)) :
    BindingsBounded t.bindings ∧ t.result.Bounded t.bindings.length := by
  unfold readTemplate at h
  split at h
  · cases h
  · obtain ⟨⟨bindings, rest₁⟩, hbindings, h⟩ := Except.bind_eq_ok.1 h
    obtain ⟨⟨result, rest₂⟩, hresult, h⟩ := Except.bind_eq_ok.1 h
    obtain ⟨rest₃, -, h⟩ := Except.bind_eq_ok.1 h
    cases h
    have hbounded := (readsBounded _ _).expr hresult
    rw [List.length_map] at hbounded
    exact ⟨bindingsBounded_of_readBindings (by simp [BindingsBounded]) hbindings, hbounded⟩
  · obtain ⟨⟨result, rest₁⟩, hresult, h⟩ := Except.bind_eq_ok.1 h
    cases h
    exact ⟨by simp [BindingsBounded], (readsBounded _ _).expr hresult⟩

/-- All that the template refers to is there: the symbols of a rule with that many of them, bindings
that were made before, and helpers of the given names. -/
structure InScope (arity : Nat) (helpers : List String) (t : Template) : Prop where
  capture {i : Nat} : i ∈ t.captures → i < arity
  bindings : BindingsBounded t.bindings
  result : t.result.Bounded t.bindings.length
  helper {h : String} : h ∈ t.helpers → h ∈ helpers

theorem InScope.mono {arity : Nat} {helpers helpers' : List String} {t : Template}
    (h : t.InScope arity helpers) (hsub : helpers ⊆ helpers') : t.InScope arity helpers' :=
  ⟨h.capture, h.bindings, h.result, fun hh => hsub (h.helper hh)⟩

theorem inScope_of_ofText {text : String} {arity : Nat} {t : Template}
    (h : ofText text arity = .ok t) : t.InScope arity t.helpers := by
  obtain ⟨t', hparse, h⟩ := Except.bind_eq_ok.1 h
  obtain ⟨ls, -, hparse⟩ := Except.bind_eq_ok.1 (Except.mapError_eq_ok.1 hparse)
  obtain ⟨⟨t'', rest⟩, hread, hparse⟩ := Except.bind_eq_ok.1 (Except.mapError_eq_ok.1 hparse)
  obtain ⟨hbindings, hresult⟩ := bounded_of_readTemplate hread
  cases rest with
  | cons l rest => cases hparse
  | nil =>
    cases hparse
    split at h
    · cases h
    · next hnone =>
      cases h
      exact ⟨fun hi => by simpa using List.find?_eq_none.1 hnone _ hi, hbindings, hresult, id⟩

theorem nodes_passThrough : passThrough.nodes = [.capture 0] := by
  simp [passThrough, nodes, Expr.nodes]

theorem inScope_passThrough {arity : Nat} (h : arity ≠ 0) (helpers : List String) :
    passThrough.InScope arity helpers where
  capture hi := by
    rw [captures, nodes_passThrough] at hi
    obtain rfl : _ = 0 := by simpa [Expr.captured?] using hi
    exact Nat.pos_of_ne_zero h
  bindings := by simp [passThrough, BindingsBounded]
  result := Expr.bounded_capture 0
  helper hh := by simp [Template.helpers, nodes_passThrough, Expr.called?] at hh

end Template
end Lalr
