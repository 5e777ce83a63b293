import Lalr.Proofs.Template.Scope

/-!
What a template asks of the semantics. Requests are noted down in the context along with their
answers, which changes nothing else. Where a template is in scope, it fails only with a request that
is refused, and it calls only the helpers that it names.
-/

namespace Lalr

variable {ν σ σ' V α β : Type}

inductive Request (V : Type)
  | literal (value : Literal)
  | list (items : List V)
  | call (helper : String) (args : List V)
  | method (receiver : V) (name : String) (args : List V)
  | field (receiver : V) (name : String)

/-- Requests with their answers, the earliest first. -/
abbrev Requests (V : Type) := List (Request V × Except Refusal V)

def noted (request : Request V) (x : Building σ V) : Building (σ × Requests V) V :=
  fun (c, log) => ((x.run.run c).1, (x.run.run c).2, log ++ [(request, (x.run.run c).1)])

/-- Notes down what templates ask for. -/
def Semantics.noting (sem : Semantics ν σ V) : Semantics ν (σ × Requests V) V where
  literal l := noted (.literal l) (sem.literal l)
  list items := noted (.list items) (sem.list items)
  call helper args := noted (.call helper args) (sem.call helper args)
  method receiver name args := noted (.method receiver name args) (sem.method receiver name args)
  field receiver name := noted (.field receiver name) (sem.field receiver name)
  native f values := fun (c, log) =>
    (((sem.native f values).run.run c).1, ((sem.native f values).run.run c).2, log)

/-! Noting down makes no difference. -/

/-- What `x` does on contexts is what `y` does on the parts that `g` leaves of them. -/
def Follows (g : σ' → σ) (x : Acting σ' α) (y : Acting σ α) : Prop :=
  ∀ c, y.run.run (g c) = Prod.map id g (x.run.run c)

namespace Follows

variable {g : σ' → σ}

theorem pure (a : α) : Follows g (Pure.pure a : Acting σ' α) (Pure.pure a) := fun _ => rfl

theorem throw (e : ActionError) :
    Follows g (MonadExcept.throw e : Acting σ' α) (MonadExcept.throw e) := fun _ => rfl

theorem bind {x : Acting σ' α} {y : Acting σ α} {f : α → Acting σ' β} {f' : α → Acting σ β}
    (h : Follows g x y) (hf : ∀ a, Follows g (f a) (f' a)) :
    Follows g (x >>= f) (y >>= f') := by
  intro c
  simp only [ExceptT.run_bind, StateT.run_bind, h c]
  rcases hx : x.run.run c with ⟨e | a, c'⟩
  · rfl
  · exact hf a c'

theorem noted (request : Request V) (x : Building σ V) :
    Follows Prod.fst (asked (noted request x)) (asked x) := fun _ => rfl

end Follows

namespace Expr

mutual

theorem eval_noting (sem : Semantics ν σ V) (captures bounds : List V) (e : Expr) :
    Follows Prod.fst (e.eval sem.noting captures bounds) (e.eval sem captures bounds) := by
  cases e with
  | capture i =>
    simp only [eval]
    split
    · exact .pure _
    · exact .throw _
  | bound i =>
    simp only [eval]
    split
    · exact .pure _
    · exact .throw _
  | literal l => exact .noted _ _
  | list items => exact (evalAll_noting sem captures bounds items).bind fun _ => .noted _ _
  | call helper args => exact (evalAll_noting sem captures bounds args).bind fun _ => .noted _ _
  | method receiver name args =>
    exact (eval_noting sem captures bounds receiver).bind fun _ =>
      (evalAll_noting sem captures bounds args).bind fun _ => .noted _ _
  | field receiver name =>
    exact (eval_noting sem captures bounds receiver).bind fun _ => .noted _ _

theorem evalAll_noting (sem : Semantics ν σ V) (captures bounds : List V) (es : List Expr) :
    Follows Prod.fst (evalAll sem.noting captures bounds es) (evalAll sem captures bounds es) := by
  cases es with
  | nil => exact .pure _
  | cons e es =>
    exact (eval_noting sem captures bounds e).bind fun _ =>
      (evalAll_noting sem captures bounds es).bind fun _ => .pure _

end

theorem evalBindings_noting (sem : Semantics ν σ V) (captures bounds : List V) (es : List Expr) :
    Follows Prod.fst (evalBindings sem.noting captures bounds es)
      (evalBindings sem captures bounds es) := by
  induction es generalizing bounds with
  | nil => exact .pure _
  | cons e es ih => exact (eval_noting sem captures bounds e).bind fun _ => ih _

end Expr

theorem Template.eval_noting (sem : Semantics ν σ V) (captures : List V) (t : Template) :
    Follows Prod.fst (t.eval sem.noting captures) (t.eval sem captures) :=
  (Expr.evalBindings_noting sem captures [] _).bind fun bounds =>
    t.result.eval_noting sem captures bounds

/-! What is asked for. -/

/-- The value is as expected, or else the last request was refused, and that is the reason. -/
def Answered (P : α → Prop) (asked : Requests V) : Except ActionError α → Prop
  | .ok a => P a
  | .error cause => ∃ refusal request, cause = .refused refusal ∧
      asked.getLast? = some (request, .error refusal)

/-- All helpers that are called are among the given ones, and only a refused request is in the way
of a value, which is as expected. -/
def Asks (helpers : List String) (P : α → Prop) (x : Acting (σ × Requests V) α) : Prop :=
  ∀ c log, ∃ result c' asked, x.run.run (c, log) = (result, c', log ++ asked) ∧
    Answered P asked result ∧
    ∀ helper args answer, (.call helper args, answer) ∈ asked → helper ∈ helpers

namespace Asks

variable {helpers : List String} {P : α → Prop} {Q : β → Prop}

theorem pure {a : α} (h : P a) : Asks helpers P (Pure.pure a : Acting (σ × Requests V) α) :=
  fun c log => ⟨.ok a, c, [], by rw [List.append_nil]; rfl, h, nofun⟩

theorem bind {x : Acting (σ × Requests V) α} {f : α → Acting (σ × Requests V) β}
    (h : Asks helpers P x) (hf : ∀ a, P a → Asks helpers Q (f a)) : Asks helpers Q (x >>= f) := by
  intro c log
  obtain ⟨result, c₁, asked₁, hx, hresult, hcalls₁⟩ := h c log
  cases result with
  | error cause =>
    refine ⟨.error cause, c₁, asked₁, ?_, hresult, hcalls₁⟩
    simp only [ExceptT.run_bind, StateT.run_bind, hx]
    rfl
  | ok a =>
    obtain ⟨result, c₂, asked₂, hfa, hresult, hcalls₂⟩ := hf a hresult c₁ (log ++ asked₁)
    refine ⟨result, c₂, asked₁ ++ asked₂, ?_, ?_, fun helper args answer hmem => ?_⟩
    · simp only [ExceptT.run_bind, StateT.run_bind, hx]
      rw [← List.append_assoc]
      exact hfa
    · cases result with
      | ok b => exact hresult
      | error cause =>
        obtain ⟨refusal, request, hcause, hlast⟩ := hresult
        exact ⟨refusal, request, hcause, by rw [List.getLast?_append, hlast]; rfl⟩
    · rcases List.mem_append.1 hmem with hmem | hmem
      · exact hcalls₁ helper args answer hmem
      · exact hcalls₂ helper args answer hmem

theorem noted {request : Request V} (x : Building σ V)
    (h : ∀ helper args, request = .call helper args → helper ∈ helpers) :
    Asks helpers (fun _ => True) (asked (noted request x)) := by
  intro c log
  refine ⟨(x.run.run c).1.mapError .refused, (x.run.run c).2, [(request, (x.run.run c).1)], rfl, ?_,
    fun helper args answer hmem => ?_⟩
  · cases (x.run.run c).1 with
    | ok v => exact trivial
    | error refusal => exact ⟨refusal, request, rfl, rfl⟩
  · rw [List.mem_singleton] at hmem
    exact h helper args (congrArg Prod.fst hmem).symm

end Asks

namespace Expr

/-- What the node itself refers to is there. -/
def RefersTo (captures bounds : Nat) (helpers : List String) : Expr → Prop
  | .capture i => i < captures
  | .bound i => i < bounds
  | .call helper _ => helper ∈ helpers
  | .literal _ | .list _ | .method _ _ _ | .field _ _ => True

variable {helpers : List String} {captures bounds : List V}

mutual

theorem asks_eval (sem : Semantics ν σ V) (e : Expr)
    (h : ∀ x ∈ e.nodes, x.RefersTo captures.length bounds.length helpers) :
    Asks helpers (fun _ => True) (e.eval sem.noting captures bounds) := by
  cases e with
  | capture i =>
    have hi : i < captures.length := h (.capture i) (by simp [nodes])
    simp only [eval, List.getElem?_eq_getElem hi]
    exact .pure trivial
  | bound i =>
    have hi : i < bounds.length := h (.bound i) (by simp [nodes])
    simp only [eval, List.getElem?_eq_getElem hi]
    exact .pure trivial
  | literal l => exact .noted _ nofun
  | list items =>
    rw [nodes, List.forall_mem_cons] at h
    exact (asks_evalAll sem items h.2).bind fun _ _ => .noted _ nofun
  | call helper args =>
    rw [nodes, List.forall_mem_cons] at h
    refine (asks_evalAll sem args h.2).bind fun _ _ => .noted _ fun helper' args' heq => ?_
    cases heq
    exact h.1
  | method receiver name args =>
    rw [nodes, List.forall_mem_cons, List.forall_mem_append] at h
    exact (asks_eval sem receiver h.2.1).bind fun _ _ =>
      (asks_evalAll sem args h.2.2).bind fun _ _ => .noted _ nofun
  | field receiver name =>
    rw [nodes, List.forall_mem_cons] at h
    exact (asks_eval sem receiver h.2).bind fun _ _ => .noted _ nofun

theorem asks_evalAll (sem : Semantics ν σ V) (es : List Expr)
    (h : ∀ x ∈ nodesOf es, x.RefersTo captures.length bounds.length helpers) :
    Asks helpers (fun _ => True) (evalAll sem.noting captures bounds es) := by
  cases es with
  | nil => exact .pure trivial
  | cons e es =>
    rw [nodesOf, List.forall_mem_append] at h
    exact (asks_eval sem e h.1).bind fun _ _ =>
      (asks_evalAll sem es h.2).bind fun _ _ => .pure trivial

end

theorem asks_evalBindings (sem : Semantics ν σ V) (es : List Expr) (bounds : List V)
    (h : ∀ k (e : Expr), es[k]? = some e →
      ∀ x ∈ e.nodes, x.RefersTo captures.length (bounds.length + k) helpers) :
    Asks helpers (·.length = bounds.length + es.length)
      (evalBindings sem.noting captures bounds es) := by
  induction es generalizing bounds with
  | nil => exact .pure rfl
  | cons e es ih =>
    refine (asks_eval sem e (h 0 e rfl)).bind fun v _ => ?_
    have hlength : bounds.length + (e :: es).length = (bounds ++ [v]).length + es.length := by
      simp only [List.length_append, List.length_cons, List.length_nil]
      omega
    rw [hlength]
    refine ih (bounds ++ [v]) fun k e' he' => ?_
    rw [List.length_append, List.length_singleton, Nat.add_assoc, Nat.add_comm 1]
    exact h (k + 1) e' he'

end Expr

namespace Template

theorem InScope.refersTo {arity bounds : Nat} {helpers : List String} {t : Template}
    (h : t.InScope arity helpers) {e : Expr} (hsub : e.nodes ⊆ t.nodes) (he : e.Bounded bounds) :
    ∀ x ∈ e.nodes, x.RefersTo arity bounds helpers := by
  intro x hx
  cases x with
  | capture i => exact h.capture (List.mem_filterMap.2 ⟨.capture i, hsub hx, rfl⟩)
  | bound i => exact he i hx
  | call helper args => exact h.helper (List.mem_filterMap.2 ⟨.call helper args, hsub hx, rfl⟩)
  | literal l => exact trivial
  | list items => exact trivial
  | method receiver name args => exact trivial
  | field receiver name => exact trivial

/-- A template in scope comes to a value unless a request is refused, and it calls only the helpers
that are there. -/
theorem InScope.asks_eval {helpers : List String} {captures : List V} {t : Template}
    (h : t.InScope captures.length helpers) (sem : Semantics ν σ V) :
    Asks helpers (fun _ => True) (t.eval sem.noting captures) := by
  refine (Expr.asks_evalBindings sem (t.bindings.map (·.2)) [] fun k e hk => ?_).bind
    fun bounds hbounds => Expr.asks_eval sem t.result (h.refersTo ?_ ?_)
  · rw [List.getElem?_map] at hk
    obtain ⟨⟨x, e⟩, hbinding, rfl⟩ := Option.map_eq_some_iff.1 hk
    rw [List.length_nil, Nat.zero_add]
    refine h.refersTo (fun y hy => ?_) (h.bindings k x e hbinding)
    exact List.mem_append_left _ (List.mem_flatMap.2 ⟨_, List.mem_of_getElem? hbinding, hy⟩)
  · exact List.subset_append_right _ _
  · rw [hbounds, List.length_nil, Nat.zero_add, List.length_map]
    exact h.result

end Template
end Lalr
