import Lalr.Template.Program

/-!
Prepared templates run as the plain evaluator does. A value is taken out of its slot only where it
is not used again, so that it is there for every use.
-/

namespace Lalr

variable {ν σ V α β : Type}

/-- From the first slots, whatever is run does what `y` does and leaves the second. -/
def Running.Does (x : Running σ V α) (slots : Slots V) (y : Acting σ α) (slots' : Slots V) :
    Prop := x.run slots = (·, slots') <$> y

namespace Running.Does

variable {x : Running σ V α} {y : Acting σ α} {f : α → Running σ V β} {g : α → Acting σ β}
  {slots slots' slots'' : Slots V}

theorem pure (a : α) (slots : Slots V) :
    Does (Pure.pure a : Running σ V α) slots (Pure.pure a) slots := by
  simp [Does]

theorem bind (h : Does x slots y slots') (hf : ∀ a, Does (f a) slots' (g a) slots'') :
    Does (x >>= f) slots (y >>= g) slots'' := by
  simp only [Does] at h hf ⊢
  simp only [StateT.run_bind, h, bind_map_left, hf, map_bind]

theorem asked (x : Building σ α) (slots : Slots V) :
    Does (liftM (Lalr.asked x) : Running σ V α) slots (Lalr.asked x) slots := by
  simp [Does]

end Running.Does

/-- The slots still have the captured values that are in use. -/
def Slots.Hold (slots : Slots V) (captures : List V) (used : IdSet) : Prop :=
  ∀ i ∈ used, slots[i]?.join = captures[i]?

namespace Expr

variable {captures : List V}

mutual

/-- Code that is run on slots which hold what is used from the expression on does what the
expression does, and leaves what is used later. -/
theorem exists_does_compile (sem : Semantics ν σ V) (e : Expr) (later : IdSet) {slots : Slots V}
    (h : slots.Hold captures (e.compile later).2) :
    ∃ slots' : Slots V, slots'.Hold captures later ∧ ∀ bounds,
      ((e.compile later).1.run sem bounds).Does slots (e.eval sem captures bounds) slots' := by
  cases e with
  | capture i =>
    have hi : slots[i]?.join = captures[i]? := h i (by simp [compile])
    simp only [compile]
    split
    · refine ⟨slots, fun j hj => h j (by simp [compile, hj]), fun bounds => ?_⟩
      simp only [Running.Does, Code.run, eval, StateT.run_bind, StateT.run_get, pure_bind, hi]
      cases captures[i]? <;> rfl
    · next hlater =>
      refine ⟨slots.set i none, fun j hj => ?_, fun bounds => ?_⟩
      · have hne : i ≠ j := fun heq => hlater (heq ▸ hj)
        rw [List.getElem?_set_ne hne]
        exact h j (by simp [compile, hj])
      · simp only [Running.Does, Code.run, eval, StateT.run_bind, StateT.run_get, pure_bind, hi]
        cases captures[i]? <;> rfl
  | bound i =>
    refine ⟨slots, h, fun bounds => ?_⟩
    simp only [Running.Does, compile, Code.run, eval]
    cases bounds[i]? <;> rfl
  | literal l => exact ⟨slots, h, fun _ => .asked _ _⟩
  | list items =>
    obtain ⟨slots', hslots', hitems⟩ := exists_does_compileAll sem items later h
    exact ⟨slots', hslots', fun bounds => (hitems bounds).bind fun _ => .asked _ _⟩
  | call helper args =>
    obtain ⟨slots', hslots', hargs⟩ := exists_does_compileAll sem args later h
    exact ⟨slots', hslots', fun bounds => (hargs bounds).bind fun _ => .asked _ _⟩
  | method receiver name args =>
    obtain ⟨slots₁, hslots₁, hreceiver⟩ := exists_does_compile sem receiver _ h
    obtain ⟨slots', hslots', hargs⟩ := exists_does_compileAll sem args later hslots₁
    exact ⟨slots', hslots', fun bounds =>
      (hreceiver bounds).bind fun _ => (hargs bounds).bind fun _ => .asked _ _⟩
  | field receiver name =>
    obtain ⟨slots', hslots', hreceiver⟩ := exists_does_compile sem receiver later h
    exact ⟨slots', hslots', fun bounds => (hreceiver bounds).bind fun _ => .asked _ _⟩

theorem exists_does_compileAll (sem : Semantics ν σ V) (es : List Expr) (later : IdSet)
    {slots : Slots V} (h : slots.Hold captures (compileAll later es).2) :
    ∃ slots' : Slots V, slots'.Hold captures later ∧ ∀ bounds,
      (Code.runAll sem bounds (compileAll later es).1).Does slots
        (evalAll sem captures bounds es) slots' := by
  cases es with
  | nil => exact ⟨slots, h, fun _ => .pure _ _⟩
  | cons e es =>
    -- The first expression is evaluated first and compiled last.
    obtain ⟨slots₁, hslots₁, he⟩ := exists_does_compile sem e _ h
    obtain ⟨slots', hslots', hes⟩ := exists_does_compileAll sem es later hslots₁
    exact ⟨slots', hslots', fun bounds =>
      (he bounds).bind fun _ => (hes bounds).bind fun _ => .pure _ _⟩

end

theorem exists_does_bindings (sem : Semantics ν σ V) (es : List Expr) (later : IdSet)
    {slots : Slots V} (h : slots.Hold captures (compileAll later es).2) :
    ∃ slots' : Slots V, slots'.Hold captures later ∧ ∀ bounds,
      (Code.runBindings sem bounds (compileAll later es).1).Does slots
        (evalBindings sem captures bounds es) slots' := by
  induction es generalizing slots with
  | nil => exact ⟨slots, h, fun _ => .pure _ _⟩
  | cons e es ih =>
    obtain ⟨slots₁, hslots₁, he⟩ := exists_does_compile sem e _ h
    obtain ⟨slots', hslots', hes⟩ := ih hslots₁
    exact ⟨slots', hslots', fun bounds => (he bounds).bind fun v => hes (bounds ++ [v])⟩

end Expr

/-- A prepared template does what the template does. -/
theorem Template.run_compile (sem : Semantics ν σ V) (captures : List V) (t : Template) :
    t.compile.run sem captures = t.eval sem captures := by
  have hhold : ∀ used, Slots.Hold (captures.map some) captures used := by
    intro used i _
    rw [List.getElem?_map]
    cases captures[i]? <;> rfl
  obtain ⟨slots₁, hslots₁, hbindings⟩ :=
    Expr.exists_does_bindings sem (t.bindings.map (·.2)) (t.result.compile ∅).2 (hhold _)
  obtain ⟨slots', -, hresult⟩ := Expr.exists_does_compile sem t.result ∅ hslots₁
  have hsteps : (t.compile.steps sem).Does (captures.map some) (t.eval sem captures) slots' :=
    (hbindings []).bind hresult
  calc t.compile.run sem captures
      = Prod.fst <$> (t.compile.steps sem).run (captures.map some) := rfl
    _ = t.eval sem captures := by rw [hsteps]; simp

end Lalr
