import Lalr.Parser.Basic

/-!
What it comes to that a parser is given a token or the end of input. To parse a list of tokens is to
push those before the end of input one by one, and then to finish.
-/

namespace Lalr

variable {ν σ V : Type}

/-- The tokens before the first that ends the input. -/
def inputOf (ts : List (Token V)) : List (Token V) :=
  ts.takeWhile (·.terminal ≠ Grammar.endName)

/-- Where the input ends: at the token that ends it, or else where the last token is. -/
def endOf (here : Location) : List (Token V) → Location
  | [] => here
  | t :: ts => if t.terminal = Grammar.endName then t.location else endOf t.location ts

/-- The place of the first token that ends the input, or else of the last token. -/
theorem endOf_eq (here : Location) (ts : List (Token V)) :
    endOf here ts = (((ts.find? (·.terminal = Grammar.endName)).or ts.getLast?).map
      Token.location).getD here := by
  induction ts generalizing here with
  | nil => rfl
  | cons t ts ih =>
    rw [endOf]
    split
    · next hend => simp [hend]
    · next hend =>
      rw [ih, List.find?_cons_of_neg (by simpa using hend), List.getLast?_cons]
      cases ts.find? (·.terminal = Grammar.endName) with
      | none => cases ts.getLast? <;> rfl
      | some t' => rfl

namespace Parser

/-- Takes tokens one by one until one of them fails. -/
def push (m : Machine ν σ V) (p : Parser σ V) :
    List (Token V) → Option (Except ParseError Unit × Parser σ V)
  | [] => some (.ok (), p)
  | t :: ts => do
    match ← p.addToken m t with
    | (.ok (), p) => p.push m ts
    | (.error e, p) => return (.error e, p)

variable {m : Machine ν σ V} {p p' : Parser σ V}

/-- The ways in which a token is taken or not. -/
inductive Added (m : Machine ν σ V) (p : Parser σ V) (t : Token V) :
    Except ParseError Unit → Parser σ V → Prop
  | unknown : Added m p t (.error (.unknownTerminal t.terminal t.location)) p.reset
  | taken {a ending c} (ha : m.table.grammar.terminal? t.terminal = some a) (hne : a ≠ 0)
      (hfeed : p.feed m (.token a t.value) t.location = some (.ok ending, c)) :
      Added m p t (.ok ()) { context := c, stack := ending.stack, location := t.location }
  | failed {a e c} (ha : m.table.grammar.terminal? t.terminal = some a)
      (hfeed : p.feed m (.token a t.value) t.location = some (.error e, c)) :
      Added m p t (.error e) { context := c }

/-- The ways in which the end of input is taken or not. -/
inductive Finished (m : Machine ν σ V) (p : Parser σ V) (here : Location) :
    Except ParseError V → Parser σ V → Prop
  | accepted {v below c} (hfeed : p.feed m .endOfInput here = some (.ok (.accepted v below), c)) :
      Finished m p here (.ok v) { context := c }
  | shifted {stack c} (hfeed : p.feed m .endOfInput here = some (.ok (.shifted stack), c)) :
      Finished m p here (.error .noValue) { context := c }
  | failed {e c} (hfeed : p.feed m .endOfInput here = some (.error e, c)) :
      Finished m p here (.error e) { context := c }

theorem added {t : Token V} {result : Except ParseError Unit}
    (h : p.addToken m t = some (result, p')) : p.Added m t result p' := by
  unfold addToken at h
  split at h
  · cases h
    exact .unknown
  · cases h
    exact .unknown
  · next hne ha =>
    obtain ⟨⟨ending, c⟩, hfeed, h⟩ := Option.bind_eq_some_iff.1 h
    cases ending with
    | ok ending =>
      cases h
      exact .taken ha hne hfeed
    | error e =>
      cases h
      exact .failed ha hfeed

theorem finished {here : Location} {result : Except ParseError V}
    (h : p.finish m here = some (result, p')) : p.Finished m here result p' := by
  obtain ⟨⟨ending, c⟩, hfeed, h⟩ := Option.bind_eq_some_iff.1 h
  rcases ending with e | _ | _
  · cases h
    exact .failed hfeed
  · cases h
    exact .shifted hfeed
  · cases h
    exact .accepted hfeed

@[simp] theorem push_nil : p.push m [] = some (.ok (), p) := rfl

theorem location_of_addToken {t : Token V} (h : p.addToken m t = some (.ok (), p')) :
    p'.location = t.location := by
  cases added h
  rfl

theorem push_cons_of_ok {t : Token V} {ts : List (Token V)}
    (h : p.addToken m t = some (.ok (), p')) : p.push m (t :: ts) = p'.push m ts := by
  simp [push, h]

theorem push_cons_of_error {t : Token V} {ts : List (Token V)} {e : ParseError}
    (h : p.addToken m t = some (.error e, p')) : p.push m (t :: ts) = some (.error e, p') := by
  simp [push, h]

theorem push_cons_of_none {t : Token V} {ts : List (Token V)} (h : p.addToken m t = none) :
    p.push m (t :: ts) = none := by
  simp [push, h]

/-- The first token is not taken, or else it is and the others are pushed. -/
theorem of_push_cons {t : Token V} {ts : List (Token V)} {result : Except ParseError Unit}
    (h : p.push m (t :: ts) = some (result, p')) :
    (∃ e, result = .error e ∧ p.addToken m t = some (.error e, p')) ∨
      ∃ q, p.addToken m t = some (.ok (), q) ∧ q.push m ts = some (result, p') := by
  rcases hadd : p.addToken m t with _ | ⟨e | u, q⟩
  · rw [push_cons_of_none hadd] at h
    cases h
  · rw [push_cons_of_error hadd] at h
    cases h
    exact .inl ⟨e, rfl, rfl⟩
  · rw [push_cons_of_ok hadd] at h
    exact .inr ⟨q, rfl, h⟩

theorem push_append (ts ts' : List (Token V)) :
    p.push m (ts ++ ts') = (do
      match ← p.push m ts with
      | (.ok (), p) => p.push m ts'
      | (.error e, p) => return (.error e, p)) := by
  induction ts generalizing p with
  | nil => rfl
  | cons t ts ih =>
    rw [List.cons_append]
    rcases h : p.addToken m t with _ | ⟨e | u, p'⟩
    · rw [push_cons_of_none h, push_cons_of_none h]
      rfl
    · rw [push_cons_of_error h, push_cons_of_error h]
      rfl
    · rw [push_cons_of_ok h, push_cons_of_ok h, ih]

theorem push_append_of_ok {ts : List (Token V)} (h : p.push m ts = some (.ok (), p'))
    (ts' : List (Token V)) : p.push m (ts ++ ts') = p'.push m ts' := by
  rw [push_append, h]
  rfl

theorem push_append_of_error {ts : List (Token V)} {e : ParseError}
    (h : p.push m ts = some (.error e, p')) (ts' : List (Token V)) :
    p.push m (ts ++ ts') = some (.error e, p') := by
  rw [push_append, h]
  rfl

theorem addTokens_eq (ts : List (Token V)) :
    p.addTokens m ts = (do
      match ← p.push m (inputOf ts) with
      | (.ok (), p') => p'.finish m (endOf p.location ts)
      | (.error e, p') => return (.error e, p')) := by
  induction ts generalizing p with
  | nil => rfl
  | cons t ts ih =>
    by_cases hend : t.terminal = Grammar.endName
    · simp [addTokens, inputOf, endOf, hend]
    · have hinput : inputOf (t :: ts) = t :: inputOf ts := by simp [inputOf, hend]
      have hlocation : endOf p.location (t :: ts) = endOf t.location ts := by simp [endOf, hend]
      rw [hinput, hlocation, addTokens, if_neg hend]
      rcases h : p.addToken m t with _ | ⟨e | u, p'⟩
      · rw [push_cons_of_none h]
        rfl
      · rw [push_cons_of_error h]
        rfl
      · rw [push_cons_of_ok h, ← location_of_addToken h, ← ih]
        rfl

end Parser
end Lalr
