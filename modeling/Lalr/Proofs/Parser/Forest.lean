import Lalr.Parser.Basic
import Lalr.Proofs.Cfg.Derivation

/-!
Derivation trees over tokens, and their values: the actions of the rules are run in post-order from
left to right, each on the values of the trees below it.
-/

namespace Lalr

variable {ν σ V : Type}

/-- Trees side by side. At the root of the first is a token, with the terminal that it counts as, or
a rule with the trees of its right-hand side. -/
inductive Forest (V : Type)
  | nil
  | leaf (terminal : Nat) (token : Token V) (rest : Forest V)
  | node (rule : Nat) (children rest : Forest V)

/-- The forest is a derivation from the symbols, one tree for each of them. -/
inductive Cfg.Derivation (g : Cfg) : List Sym → Forest V → Prop
  | nil : Derivation g [] .nil
  | leaf {xs f} (a : Nat) (token : Token V) (h : Derivation g xs f) :
      Derivation g (.terminal a :: xs) (.leaf a token f)
  | node {n r xs c f} (hr : r ∈ g.rulesOf n) (hc : Derivation g (g.rhs r) c)
      (h : Derivation g xs f) : Derivation g (.nonterminal n :: xs) (.node r c f)

namespace Forest

def append : Forest V → Forest V → Forest V
  | nil, f => f
  | leaf a token rest, f => leaf a token (rest.append f)
  | node r children rest, f => node r children (rest.append f)

instance : Append (Forest V) := ⟨append⟩

/-- The tokens from left to right, with the terminals that they count as. -/
def leaves : Forest V → List (Nat × Token V)
  | nil => []
  | leaf a token rest => (a, token) :: rest.leaves
  | node _ children rest => children.leaves ++ rest.leaves

/-- Where the first token stands, or else what comes next. -/
def start : Forest V → Location → Location
  | nil, next => next
  | leaf _ token _, _ => token.location
  | node _ children rest, next => children.start (rest.start next)

/-- The values of the trees. A rule stands where its first token does, or where the next one does
if there is none. -/
def run (m : Machine ν σ V) : Forest V → Location → Parsing σ (List V)
  | nil, _ => pure []
  | leaf _ token rest, next => do
    let values ← rest.run m next
    return token.value :: values
  | node r children rest, next => do
    let here := rest.start next
    let arguments ← children.run m here
    let value ← m.perform r arguments (children.start here)
    let values ← rest.run m next
    return value :: values

@[simp] theorem leaves_nil : (nil : Forest V).leaves = [] := rfl

@[simp] theorem leaves_leaf (a : Nat) (token : Token V) (f : Forest V) :
    (leaf a token f).leaves = (a, token) :: f.leaves := rfl

@[simp] theorem leaves_node (r : Nat) (c f : Forest V) :
    (node r c f).leaves = c.leaves ++ f.leaves := rfl

@[simp] theorem start_nil (next : Location) : (nil : Forest V).start next = next := rfl

@[simp] theorem start_leaf (a : Nat) (token : Token V) (f : Forest V) (next : Location) :
    (leaf a token f).start next = token.location := rfl

@[simp] theorem start_node (r : Nat) (c f : Forest V) (next : Location) :
    (node r c f).start next = c.start (f.start next) := rfl

@[simp] theorem nil_append (f : Forest V) : nil ++ f = f := rfl

@[simp] theorem leaf_append (a : Nat) (token : Token V) (f f' : Forest V) :
    leaf a token f ++ f' = leaf a token (f ++ f') := rfl

@[simp] theorem node_append (r : Nat) (c f f' : Forest V) :
    node r c f ++ f' = node r c (f ++ f') := rfl

@[simp] theorem append_nil (f : Forest V) : f ++ nil = f := by
  induction f with
  | nil => rfl
  | leaf a token rest ih => simp [ih]
  | node r c rest _ ih => simp [ih]

@[simp] theorem append_assoc (f f' f'' : Forest V) : f ++ f' ++ f'' = f ++ (f' ++ f'') := by
  induction f with
  | nil => rfl
  | leaf a token rest ih => simp [ih]
  | node r c rest _ ih => simp [ih]

@[simp] theorem leaves_append (f f' : Forest V) : (f ++ f').leaves = f.leaves ++ f'.leaves := by
  induction f with
  | nil => rfl
  | leaf a token rest ih => simp [ih]
  | node r c rest _ ih => simp [ih]

@[simp] theorem start_append (f f' : Forest V) (next : Location) :
    (f ++ f').start next = f.start (f'.start next) := by
  induction f with
  | nil => rfl
  | leaf a token rest _ => rfl
  | node r c rest _ ih => simp [ih]

theorem start_eq (f : Forest V) (next : Location) :
    f.start next = (f.leaves.head?.map (·.2.location)).getD next := by
  induction f generalizing next with
  | nil => rfl
  | leaf a token rest _ => rfl
  | node r c rest ihc ih =>
    rw [start_node, leaves_node, ihc, ih]
    cases c.leaves <;> rfl

theorem run_append (m : Machine ν σ V) (f f' : Forest V) (next : Location) :
    (f ++ f').run m next = do
      let values ← f.run m (f'.start next)
      let values' ← f'.run m next
      return values ++ values' := by
  induction f with
  | nil => simp [run]
  | leaf a token rest ih => simp [run, ih]
  | node r c rest _ ih => simp [run, ih]

end Forest

/-! Running the actions on a context. -/

theorem Parsing.run_pure {α : Type} (a : α) (context : σ) :
    (pure a : Parsing σ α).run.run context = (.ok a, context) := rfl

theorem Parsing.run_bind {α β : Type} (x : Parsing σ α) (f : α → Parsing σ β) (context : σ) :
    (x >>= f).run.run context = match x.run.run context with
      | (.ok a, context) => (f a).run.run context
      | (.error e, context) => (.error e, context) := by
  simp only [ExceptT.run_bind, StateT.run_bind]
  rcases h : StateT.run (ExceptT.run x) context with ⟨_ | a, context'⟩ <;> rfl

theorem Parsing.run_bind_of_ok {α β : Type} {x : Parsing σ α} {f : α → Parsing σ β}
    {context context' : σ} {a : α} (h : x.run.run context = (.ok a, context')) :
    (x >>= f).run.run context = (f a).run.run context' := by
  rw [run_bind, h]

theorem Parsing.run_bind_of_error {α β : Type} {x : Parsing σ α} {f : α → Parsing σ β}
    {context context' : σ} {e : ParseError} (h : x.run.run context = (.error e, context')) :
    (x >>= f).run.run context = (.error e, context') := by
  rw [run_bind, h]

theorem Machine.perform_run (m : Machine ν σ V) (r : Nat) (values : List V) (here : Location)
    (context : σ) :
    (m.perform r values here).run.run context = match (m.act r values).run.run context with
      | (.ok v, context) => (.ok v, context)
      | (.error cause, context) => (.error (.action (m.table.ruleText r) here cause), context) := by
  have hrun : (m.perform r values here).run.run context =
      Prod.map (Except.mapError (.action (m.table.ruleText r) here)) id
        ((m.act r values).run.run context) := rfl
  rw [hrun]
  rcases (m.act r values).run.run context with ⟨_ | _, _⟩ <;> rfl

theorem Machine.perform_error {m : Machine ν σ V} {r : Nat} {values : List V} {here : Location}
    {context context' : σ} {e : ParseError}
    (h : (m.perform r values here).run.run context = (.error e, context')) :
    ∃ cause, e = .action (m.table.ruleText r) here cause ∧
      (m.act r values).run.run context = (.error cause, context') := by
  rw [perform_run] at h
  split at h
  · cases h
  · next hact =>
    cases h
    exact ⟨_, rfl, hact⟩

namespace Forest

theorem run_error {m : Machine ν σ V} {f : Forest V} {next : Location} {context context' : σ}
    {e : ParseError} (h : (f.run m next).run.run context = (.error e, context')) :
    ∃ r here cause, e = .action (m.table.ruleText r) here cause := by
  induction f generalizing next context with
  | nil => cases h
  | leaf a token rest ih =>
    rw [run, Parsing.run_bind] at h
    split at h
    · cases h
    · next hrest =>
      cases h
      exact ih hrest
  | node r c rest ihc ih =>
    rw [run, Parsing.run_bind] at h
    split at h
    · rw [Parsing.run_bind] at h
      split at h
      · rw [Parsing.run_bind] at h
        split at h
        · cases h
        · next hrest =>
          cases h
          exact ih hrest
      · next hperform =>
        cases h
        obtain ⟨cause, he, -⟩ := m.perform_error hperform
        exact ⟨r, _, cause, he⟩
    · next hc =>
      cases h
      exact ihc hc

end Forest

namespace Cfg.Derivation

variable {g : Cfg} {xs ys : List Sym} {f f' : Forest V}

theorem append (h : g.Derivation xs f) (h' : g.Derivation ys f') :
    g.Derivation (xs ++ ys) (f ++ f') := by
  induction h with
  | nil => exact h'
  | leaf a token _ ih => exact .leaf a token ih
  | node hr hc _ _ ih => exact .node hr hc ih

theorem yields (h : g.Derivation xs f) :
    g.Yields xs (f.leaves.map fun x => .terminal x.1) := by
  induction h with
  | nil => exact .nil
  | leaf a token _ ih => exact .keep _ ih
  | node hr _ _ ihc ih =>
    rw [Forest.leaves, List.map_append]
    exact .expand hr ihc ih

end Cfg.Derivation

theorem Cfg.Yields.exists_derivation {g : Cfg} {xs w : List Sym} (h : g.Yields xs w)
    {leaves : List (Nat × Token V)} (hw : w = leaves.map fun x => .terminal x.1) :
    ∃ f, g.Derivation xs f ∧ f.leaves = leaves := by
  induction h generalizing leaves with
  | nil =>
    obtain rfl := List.map_eq_nil_iff.1 hw.symm
    exact ⟨.nil, .nil, rfl⟩
  | keep x _ ih =>
    cases leaves with
    | nil => cases hw
    | cons y leaves =>
      obtain ⟨rfl, htail⟩ := List.cons.inj hw
      obtain ⟨f, hf, rfl⟩ := ih htail
      exact ⟨.leaf y.1 y.2 f, .leaf y.1 y.2 hf, rfl⟩
  | expand hr _ _ ihu ihw =>
    obtain ⟨l₁, l₂, rfl, hleft, hright⟩ := List.map_eq_append_iff.1 hw.symm
    obtain ⟨c, hc, rfl⟩ := ihu hleft.symm
    obtain ⟨f, hf, rfl⟩ := ihw hright.symm
    exact ⟨.node _ c f, .node hr hc hf, rfl⟩

end Lalr
