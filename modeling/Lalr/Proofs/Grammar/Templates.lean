import Lalr.Proofs.Grammar.Assembly
import Lalr.Proofs.Template.Scope

/-!
Every rule and every helper of a grammar was declared, and the templates of an assembled grammar are
in scope.
-/

namespace Lalr

variable {ν : Type}

namespace Spec

variable {spec spec' : Spec ν}

/-- What is declared by something else than a rule or helpers leaves these alone. -/
def SameRules (spec spec' : Spec ν) : Prop :=
  spec'.rules = spec.rules ∧ spec'.helpers = spec.helpers

/-- The rules and helpers are those of the declarations. -/
structure DeclaredBy (declarations : List (Site × Declaration ν)) (spec : Spec ν) : Prop where
  rule {r : NamedRule ν} : r ∈ spec.rules → ∃ site lhs pattern body precedenceSymbol,
    (site, .rule lhs pattern body precedenceSymbol) ∈ declarations ∧
      ruleAt site lhs pattern body precedenceSymbol = .ok r
  helper {h : String} : h ∈ spec.helpers → ∃ site names,
    (site, .helpers names) ∈ declarations ∧ h ∈ Text.words names

variable {declarations : List (Site × Declaration ν)}

theorem DeclaredBy.of_sameRules (h : DeclaredBy declarations spec) (heq : spec.SameRules spec') :
    DeclaredBy declarations spec' where
  rule hr := h.rule (heq.1 ▸ hr)
  helper hh := h.helper (heq.2 ▸ hh)

theorem DeclaredBy.declare (h : DeclaredBy declarations spec) {site : Site} {d : Declaration ν}
    (hd : (site, d) ∈ declarations) (heq : spec.declare site d = .ok spec') :
    DeclaredBy declarations spec' := by
  cases adds_of_declare heq with
  | helpers =>
    refine ⟨h.rule, fun hh => ?_⟩
    rcases List.mem_append.1 hh with hh | hh
    · exact h.helper hh
    · exact ⟨site, _, hd, hh⟩
  | rule hr =>
    refine ⟨fun hr' => ?_, h.helper⟩
    rcases List.mem_append.1 hr' with hr' | hr'
    · exact h.rule hr'
    · rw [List.mem_singleton.1 hr']
      exact ⟨site, _, _, _, _, hd, hr⟩
  | tokens _ _ | bands _ _ _ | fallback _ _ _ _ | start | policy => exact h.of_sameRules ⟨rfl, rfl⟩

theorem declaredBy_of_declareAll (h : Spec.declareAll {} declarations = .ok spec) :
    DeclaredBy declarations spec := by
  have hnone : DeclaredBy declarations ({} : Spec ν) := by
    constructor <;> (intros; contradiction)
  exact Except.foldlM_induction (P := DeclaredBy declarations)
    (fun _ _ hx _ hmid hd =>
      hmid.declare (List.fst_mem_of_mem_zipIdx hx) (Except.mapError_eq_ok.1 hd)) hnone h

end Spec

theorem inScope_of_bodyAt {site : Site} {lhs : String} {arity : Nat} {body : BodySpec ν}
    {t : Template} (h : bodyAt site lhs arity body = .ok (.template t)) :
    t.InScope arity t.helpers := by
  cases body with
  | native f => cases h
  | template text =>
    simp only [bodyAt] at h
    split at h
    · split at h
      · cases h
      · next hne =>
        cases h
        exact Template.inScope_passThrough hne _
    · cases hat : templateAt site text arity with
      | error e =>
        rw [hat] at h
        cases h
      | ok t' =>
        rw [hat] at h
        cases h
        exact Template.inScope_of_ofText (Except.mapError_eq_ok.1 hat)

/-- A rule that is declared with template text, or with none, has a template in scope. -/
theorem inScope_of_ruleAt {site : Site} {lhs pattern : String} {body : BodySpec ν}
    {precedenceSymbol : Option String} {r : NamedRule ν} {t : Template}
    (h : ruleAt site lhs pattern body precedenceSymbol = .ok r) (ht : r.body = .template t) :
    t.InScope r.arity t.helpers := by
  obtain ⟨-, -, b, hb, rfl⟩ := of_ruleAt h
  subst ht
  exact inScope_of_bodyAt hb

namespace Spec

variable {spec : Spec ν}

/-- No rule of an assembled grammar calls helpers that were not declared. -/
theorem helpers_subset_of_assemble {g : Grammar ν} (h : spec.assemble = .ok g) {r : NamedRule ν}
    (hr : r ∈ spec.rules) {t : Template} (ht : r.body = .template t) :
    t.helpers ⊆ spec.helpers := by
  unfold assemble at h
  split at h
  · cases h
  · next hnone =>
    simp only [fault?, Option.orElse_eq_orElse, Option.orElse_eq_or, Option.or_eq_none_iff] at hnone
    have hfault := List.findSome?_eq_none_iff.1 hnone.2.2.2.2.2.2.1 r hr
    simp only [Option.orElse_eq_orElse, Option.orElse_eq_or, Option.or_eq_none_iff, helperFault?,
      ht, Option.map_eq_none_iff, List.find?_eq_none] at hfault
    exact fun helper hmem => by simpa using hfault.2 helper hmem

theorem mem_allRules_of_production {g : Grammar ν} (h : spec.assemble = .ok g) {k : Nat}
    {p : Production ν} (hp : g.productions[k]? = some p) :
    ∃ r ∈ spec.allRules, p = spec.production spec.names r := by
  obtain ⟨-, rfl⟩ := assemble_eq_ok h
  simp only [grammar, List.getElem?_toArray, List.getElem?_map, Option.map_eq_some_iff] at hp
  obtain ⟨r, hr, rfl⟩ := hp
  exact ⟨r, List.mem_of_getElem? hr, rfl⟩

/-- The templates of an assembled grammar are in scope: they refer to symbols of their rule, to
bindings that were made before, and to helpers that were declared. -/
theorem inScope_of_assemble {declarations : List (Site × Declaration ν)}
    (hspec : Spec.declareAll {} declarations = .ok spec) {g : Grammar ν}
    (hg : spec.assemble = .ok g) {k : Nat} {p : Production ν} (hp : g.productions[k]? = some p)
    {t : Template} (ht : p.body = .template t) : t.InScope p.rule.rhs.length spec.helpers := by
  obtain ⟨r, hr, rfl⟩ := mem_allRules_of_production hg hp
  have hlength : (spec.production spec.names r).rule.rhs.length = r.arity := List.length_map _
  rw [hlength]
  rcases List.mem_cons.1 hr with rfl | hr
  · cases ht
    exact Template.inScope_passThrough Nat.one_ne_zero _
  · obtain ⟨site, lhs, pattern, body, precedenceSymbol, -, hrule⟩ :=
      (declaredBy_of_declareAll hspec).rule hr
    exact (inScope_of_ruleAt hrule ht).mono (helpers_subset_of_assemble hg hr ht)

end Spec
end Lalr
