import Lalr.Proofs.Grammar.Words
import Mathlib.Data.List.Nodup

/-!
What a declaration adds when it is accepted, and what declarations of new names come to. Whatever was
declared, nothing is about a symbol that is kept for the grammar itself.
-/

namespace Lalr

variable {ν : Type}

theorem Except.bind_eq_ok {ε α β : Type} {x : Except ε α} {f : α → Except ε β} {b : β} :
    x.bind f = .ok b ↔ ∃ a, x = .ok a ∧ f a = .ok b := by
  cases x with
  | error e => simp [Except.bind]
  | ok a => simp [Except.bind]

theorem Except.foldlM_induction {ε α β : Type} {P : β → Prop} {f : β → α → Except ε β}
    {xs : List α} (hstep : ∀ b, ∀ a ∈ xs, ∀ b', P b → f b a = .ok b' → P b') {b b' : β} (hb : P b)
    (h : xs.foldlM f b = .ok b') : P b' := by
  induction xs generalizing b with
  | nil =>
    cases h
    exact hb
  | cons x xs ih =>
    obtain ⟨c, hc, h⟩ := Except.bind_eq_ok.1 h
    exact ih (fun b a ha => hstep b a (List.mem_cons_of_mem _ ha))
      (hstep b x (List.mem_cons_self ..) c hb hc) h

/-- What holds of a run and its end is kept by each of its steps. -/
theorem Except.foldlM_history {ε α β : Type} {P : List α → β → Prop} {f : β → α → Except ε β}
    (hstep : ∀ done b a b', P done b → f b a = .ok b' → P (done ++ [a]) b') {xs l : List α}
    {b b' : β} (hb : P l b) (h : xs.foldlM f b = .ok b') : P (l ++ xs) b' := by
  induction xs generalizing l b with
  | nil =>
    cases h
    rwa [List.append_nil]
  | cons x xs ih =>
    obtain ⟨c, hc, h⟩ := Except.bind_eq_ok.1 h
    rw [List.append_cons]
    exact ih (hstep l b x c hb hc) h

theorem Except.eq_ok_get {ε α : Type} (x : Except ε α) (h : x.toOption.isSome) :
    x = .ok (x.toOption.get h) := by
  cases x with
  | error e => cases h
  | ok a => rfl

theorem Except.mapError_eq_ok {ε ε' α : Type} {f : ε → ε'} {x : Except ε α} {a : α} :
    x.mapError f = .ok a ↔ x = .ok a := by
  cases x with
  | error e => exact ⟨nofun, nofun⟩
  | ok b =>
    change (Except.ok b : Except ε' α) = .ok a ↔ _
    simp

theorem Except.map_eq_ok {ε α β : Type} {f : α → β} {x : Except ε α} {b : β} :
    x.map f = .ok b ↔ ∃ a, x = .ok a ∧ f a = b := by
  cases x <;> simp [Except.map]

theorem Except.bind_congr_ok {ε α β : Type} {x : Except ε α} {f g : α → Except ε β}
    (h : ∀ a, x = .ok a → f a = g a) : x >>= f = x >>= g := by
  cases x with
  | error e => rfl
  | ok a => exact h a rfl

theorem Except.map_eq_error {ε α β : Type} {f : α → β} {x : Except ε α} {e : ε} :
    x.map f = .error e ↔ x = .error e := by
  cases x <;> simp [Except.map]

/-- No rule is for a symbol of the grammar's own or mentions one, and neither does a fallback. -/
structure Spec.Unreserved (spec : Spec ν) : Prop where
  lhs {r : NamedRule ν} : r ∈ spec.rules → Text.isReserved r.lhs = false
  rhs {r : NamedRule ν} {name : String} : r ∈ spec.rules → name ∈ r.rhs →
    Text.isReserved name = false
  target {f : FallbackSpec} : f ∈ spec.fallbacks → Text.isReserved f.target = false
  source {f : FallbackSpec} : f ∈ spec.fallbacks → Text.isReserved f.source = false

theorem of_validNames {site : Site} {names valid : List String}
    (h : validNames site names = .ok valid) :
    valid = names ∧ ∀ name ∈ valid, Text.isReserved name = false := by
  unfold validNames at h
  split at h
  · cases h
  · next hnone =>
    cases h
    refine ⟨rfl, fun name hname => ?_⟩
    have hvalid : Text.isSymbolName name = true := by
      simpa using List.find?_eq_none.1 hnone name hname
    exact (Bool.not_eq_true' _).mp (Bool.and_eq_true_iff.1 hvalid).2

theorem of_precedenceSymbolAt {site : Site} {name symbol : String}
    (h : precedenceSymbolAt site name = .ok symbol) : symbol = name := by
  unfold precedenceSymbolAt at h
  split at h <;> cases h
  rfl

theorem of_mapM_precedenceSymbolAt {site : Site} {names symbols : Option String}
    (h : (names.mapM fun s => precedenceSymbolAt site (Text.trim s)) = .ok symbols) :
    symbols = names.map Text.trim := by
  cases names with
  | none =>
    cases h
    rfl
  | some name =>
    rw [Option.mapM_some] at h
    obtain ⟨symbol, hsymbol, rfl⟩ := Except.map_eq_ok.1 h
    rw [of_precedenceSymbolAt hsymbol, Option.map_some]

/-- A rule is made of the trimmed names and of the body that is made of its text. -/
theorem of_ruleAt {site : Site} {lhs pattern : String} {body : BodySpec ν}
    {precedenceSymbol : Option String} {r : NamedRule ν}
    (h : ruleAt site lhs pattern body precedenceSymbol = .ok r) :
    Text.isReserved (Text.trim lhs) = false ∧
    (∀ name ∈ Text.words pattern, Text.isReserved name = false) ∧
    ∃ b, bodyAt site (Text.trim lhs) (Text.words pattern).length body = .ok b ∧
      r = ⟨site, Text.trim lhs, Text.words pattern, precedenceSymbol.map Text.trim, b⟩ := by
  unfold ruleAt at h
  by_cases hlhs : (!Text.isIdentifier (Text.trim lhs) || Text.isReserved (Text.trim lhs)) = true
  · simp only [if_pos hlhs] at h
    cases h
  · simp only [if_neg hlhs] at h
    obtain ⟨rhs, hrhs, h⟩ := Except.bind_eq_ok.1 h
    obtain ⟨symbol, hsymbol, h⟩ := Except.bind_eq_ok.1 h
    obtain ⟨b, hb, h⟩ := Except.bind_eq_ok.1 h
    cases h
    obtain ⟨rfl, hordinary⟩ := of_validNames hrhs
    obtain rfl := of_mapM_precedenceSymbolAt hsymbol
    rw [Bool.or_eq_true, not_or] at hlhs
    exact ⟨(Bool.not_eq_true _).mp hlhs.2, hordinary, b, hb, rfl⟩

namespace Spec

variable {spec spec' : Spec ν} {site : Site}

theorem exists_addToken (spec : Spec ν) (site : Site) (first : String) :
    ∃ tokens, spec.addToken site first = { spec with tokens } ∧
      ∀ name, name ∈ tokens.map (·.1) ↔ name ∈ spec.tokens.map (·.1) ∨ name = first := by
  unfold addToken
  split
  · next hknown =>
    refine ⟨spec.tokens, rfl, fun name => (or_iff_left_of_imp ?_).symm⟩
    rintro rfl
    simpa using hknown
  · exact ⟨_, rfl, by simp⟩

theorem exists_foldl_addToken (spec : Spec ν) (site : Site) (names : List String) :
    ∃ tokens, names.foldl (addToken site) spec = { spec with tokens } ∧
      ∀ name, name ∈ tokens.map (·.1) ↔ name ∈ spec.tokens.map (·.1) ∨ name ∈ names := by
  induction names generalizing spec with
  | nil => exact ⟨spec.tokens, rfl, by simp⟩
  | cons first names ih =>
    obtain ⟨mid, hmid, hfirst⟩ := exists_addToken spec site first
    obtain ⟨tokens, htokens, hrest⟩ := ih (spec.addToken site first)
    refine ⟨tokens, ?_, fun name => ?_⟩
    · rw [List.foldl_cons, htokens, hmid]
    · rw [hrest, hmid, hfirst, List.mem_cons, or_assoc]

theorem bandSite?_eq_none_iff {name : String} :
    spec.bandSite? name = none ↔ ∀ b ∈ spec.bands, name ∉ b.names := by
  simp [bandSite?]

theorem of_addBand {band : Associativity × String} (h : spec.addBand site band = .ok spec') :
    (∀ name ∈ Text.words band.2, Text.isReserved name = false) ∧
    (∀ b ∈ spec.bands, b.names.Disjoint (Text.words band.2)) ∧
    spec' = if Text.words band.2 = [] then spec
      else { spec with bands := spec.bands ++ [⟨site, band.1, Text.words band.2⟩] } := by
  obtain ⟨names, hnames, h⟩ := Except.bind_eq_ok.1 h
  obtain ⟨rfl, hordinary⟩ := of_validNames hnames
  split at h
  · cases h
  · next hfresh =>
    refine ⟨hordinary, fun b hb name hmem hname => ?_, ?_⟩
    · have hnone := List.findSome?_eq_none_iff.1 hfresh name hname
      exact bandSite?_eq_none_iff.1 (Option.map_eq_none_iff.1 hnone) b hb hmem
    · split at h
      · next hnil =>
        cases h
        rw [if_pos hnil]
      · next hnil =>
        cases h
        rw [if_neg hnil]

/-- What bands amount to: those without names are left out. -/
def bandsAt (site : Site) (bands : List (Associativity × String)) : List BandSpec :=
  (bands.filter (Text.words ·.2 ≠ [])).map fun b => ⟨site, b.1, Text.words b.2⟩

theorem flatMap_names_bandsAt (site : Site) (bands : List (Associativity × String)) :
    (bandsAt site bands).flatMap BandSpec.names = bands.flatMap (Text.words ·.2) := by
  induction bands with
  | nil => rfl
  | cons band bands ih =>
    by_cases hnil : Text.words band.2 = [] <;> simpa [bandsAt, hnil] using ih

theorem of_foldlM_addBand {bands : List (Associativity × String)}
    (h : bands.foldlM (addBand site) spec = .ok spec') :
    (∀ name ∈ bands.flatMap (Text.words ·.2), Text.isReserved name = false) ∧
    (∀ b ∈ spec.bands, ∀ b' ∈ bandsAt site bands, b.names.Disjoint b'.names) ∧
    (bandsAt site bands).Pairwise (fun b b' => b.names.Disjoint b'.names) ∧
    spec' = { spec with bands := spec.bands ++ bandsAt site bands } := by
  induction bands generalizing spec with
  | nil =>
    cases h
    simp [bandsAt]
  | cons band bands ih =>
    obtain ⟨mid, hmid, h⟩ := Except.bind_eq_ok.1 h
    obtain ⟨hordinary, hfresh, rfl⟩ := of_addBand hmid
    obtain ⟨hordinary', hfresh', hdisjoint, rfl⟩ := ih h
    rw [List.flatMap_cons, List.forall_mem_append]
    refine ⟨⟨hordinary, hordinary'⟩, ?_⟩
    by_cases hnil : Text.words band.2 = []
    · have hband : bandsAt site (band :: bands) = bandsAt site bands := by simp [bandsAt, hnil]
      rw [if_pos hnil] at hfresh' ⊢
      rw [hband]
      exact ⟨hfresh', hdisjoint, rfl⟩
    · have hband : bandsAt site (band :: bands) =
          ⟨site, band.1, Text.words band.2⟩ :: bandsAt site bands := by simp [bandsAt, hnil]
      rw [if_neg hnil, List.forall_mem_append, List.forall_mem_singleton] at hfresh'
      rw [if_neg hnil, hband]
      refine ⟨fun b hb => ?_, List.pairwise_cons.2 ⟨hfresh'.2, hdisjoint⟩, by simp⟩
      exact List.forall_mem_cons.2 ⟨hfresh b hb, hfresh'.1 b hb⟩

theorem of_addFallback {target source : String}
    (h : spec.addFallback site target source = .ok spec') :
    target ≠ source ∧
      spec' = { spec with fallbacks := spec.fallbacks ++ [⟨site, target, source⟩] } := by
  unfold addFallback at h
  split at h
  · cases h
  · next hne =>
    split at h <;> cases h
    exact ⟨Ne.symm hne, rfl⟩

theorem of_foldlM_addFallback {target : String} {sources : List String}
    (h : sources.foldlM (addFallback site target) spec = .ok spec') :
    (∀ source ∈ sources, target ≠ source) ∧
      spec' = { spec with fallbacks := spec.fallbacks ++ sources.map (⟨site, target, ·⟩) } := by
  induction sources generalizing spec with
  | nil =>
    cases h
    simp
  | cons source sources ih =>
    obtain ⟨mid, hmid, h⟩ := Except.bind_eq_ok.1 h
    obtain ⟨hne, rfl⟩ := of_addFallback hmid
    obtain ⟨hrest, rfl⟩ := ih h
    exact ⟨List.forall_mem_cons.2 ⟨hne, hrest⟩, by simp⟩

/-- What a declaration adds when it is accepted. -/
inductive Adds (site : Site) (spec : Spec ν) : Declaration ν → Spec ν → Prop
  | tokens {names tokens} (ordinary : ∀ name ∈ Text.words names, Text.isReserved name = false)
    (mem_iff : ∀ name, name ∈ tokens.map (·.1) ↔
      name ∈ spec.tokens.map (·.1) ∨ name ∈ Text.words names) :
    Adds site spec (.tokens names) { spec with tokens }
  | helpers {names} :
    Adds site spec (.helpers names) { spec with helpers := spec.helpers ++ Text.words names }
  | bands {bands}
    (ordinary : ∀ name ∈ bands.flatMap (Text.words ·.2), Text.isReserved name = false)
    (fresh : ∀ b ∈ spec.bands, ∀ b' ∈ bandsAt site bands, b.names.Disjoint b'.names)
    (disjoint : (bandsAt site bands).Pairwise fun b b' => b.names.Disjoint b'.names) :
    Adds site spec (.bands bands) { spec with bands := spec.bands ++ bandsAt site bands }
  | fallback {target name names} (words : Text.words target = [name])
    (ordinary : Text.isReserved name = false)
    (ordinary' : ∀ source ∈ Text.words names, Text.isReserved source = false)
    (other : ∀ source ∈ Text.words names, name ≠ source) :
    Adds site spec (.fallback target names)
      { spec with fallbacks := spec.fallbacks ++ (Text.words names).map (⟨site, name, ·⟩) }
  | start {name} : Adds site spec (.start name) { spec with start := some (Text.trim name) }
  | policy {policy} : Adds site spec (.policy policy) { spec with policy }
  | rule {lhs pattern body precedenceSymbol r}
    (eq : ruleAt site lhs pattern body precedenceSymbol = .ok r) :
    Adds site spec (.rule lhs pattern body precedenceSymbol)
      { spec with rules := spec.rules ++ [r] }

theorem adds_of_addFallbacks {target names : String}
    (h : spec.addFallbacks site target names = .ok spec') :
    spec.Adds site (.fallback target names) spec' := by
  obtain ⟨targets, htargets, h⟩ := Except.bind_eq_ok.1 h
  obtain ⟨rfl, hordinary⟩ := of_validNames htargets
  split at h
  · next name hname =>
    obtain ⟨sources, hsources, h⟩ := Except.bind_eq_ok.1 h
    obtain ⟨rfl, hordinary'⟩ := of_validNames hsources
    obtain ⟨hother, rfl⟩ := of_foldlM_addFallback h
    rw [hname, List.forall_mem_singleton] at hordinary
    exact .fallback hname hordinary hordinary' hother
  · cases h

/-- A declaration adds what it is about, and nothing else. -/
theorem adds_of_declare {d : Declaration ν} (h : spec.declare site d = .ok spec') :
    spec.Adds site d spec' := by
  cases d with
  | tokens names =>
    obtain ⟨valid, hvalid, h⟩ := Except.bind_eq_ok.1 h
    cases h
    obtain ⟨rfl, hordinary⟩ := of_validNames hvalid
    obtain ⟨tokens, htokens, hmem⟩ := exists_foldl_addToken spec site (Text.words names)
    exact htokens ▸ .tokens hordinary hmem
  | helpers names =>
    cases h
    exact .helpers
  | bands bands =>
    obtain ⟨hordinary, hfresh, hdisjoint, rfl⟩ := of_foldlM_addBand h
    exact .bands hordinary hfresh hdisjoint
  | fallback target names => exact adds_of_addFallbacks h
  | start name =>
    cases h
    exact .start
  | policy policy =>
    cases h
    exact .policy
  | rule lhs pattern body precedenceSymbol =>
    obtain ⟨r, hr, h⟩ := Except.bind_eq_ok.1 h
    cases h
    exact .rule hr

theorem Unreserved.empty : ({} : Spec ν).Unreserved := by
  constructor <;> (intros; contradiction)

theorem Unreserved.declare (h : spec.Unreserved) {d : Declaration ν}
    (heq : spec.declare site d = .ok spec') : spec'.Unreserved := by
  cases adds_of_declare heq with
  | fallback _ hordinary hordinary' _ =>
    refine ⟨h.lhs, h.rhs, fun hf => ?_, fun hf => ?_⟩ <;>
      rcases List.mem_append.1 hf with hf | hf
    · exact h.target hf
    · obtain ⟨source, -, rfl⟩ := List.mem_map.1 hf
      exact hordinary
    · exact h.source hf
    · obtain ⟨source, hsource, rfl⟩ := List.mem_map.1 hf
      exact hordinary' source hsource
  | rule hr =>
    obtain ⟨hlhs, hrhs, b, -, rfl⟩ := of_ruleAt hr
    refine ⟨fun hr => ?_, fun hr hname => ?_, h.target, h.source⟩ <;>
      rcases List.mem_append.1 hr with hr | hr
    · exact h.lhs hr
    · rw [List.mem_singleton.1 hr]
      exact hlhs
    · exact h.rhs hr hname
    · rw [List.mem_singleton.1 hr] at hname
      exact hrhs _ hname
  | tokens _ _ | helpers | bands _ _ _ | start | policy => exact { h with }

theorem Unreserved.declareAll {declarations : List (Site × Declaration ν)}
    (heq : Spec.declareAll {} declarations = .ok spec) : spec.Unreserved :=
  Except.foldlM_induction (P := Unreserved)
    (fun _ _ _ _ hmid hd => hmid.declare (Except.mapError_eq_ok.1 hd)) .empty heq

theorem declareAll_eq_ok_iff {spec spec' : Spec ν} {declarations : List (Site × Declaration ν)} :
    spec.declareAll declarations = .ok spec' ↔
      declarations.foldlM (fun spec (site, d) => spec.declare site d) spec = .ok spec' := by
  have hfrom : ∀ n, (declarations.zipIdx n).foldlM
      (fun spec x => (spec.declare x.1.1 x.1.2).mapError fun e => (x.2, e)) spec = .ok spec' ↔
      declarations.foldlM (fun spec x => spec.declare x.1 x.2) spec = .ok spec' := by
    induction declarations generalizing spec with
    | nil =>
      intro n
      simp [pure, Except.pure]
    | cons d declarations ih =>
      intro n
      rw [List.zipIdx_cons, List.foldlM_cons, List.foldlM_cons]
      refine Except.bind_eq_ok.trans (Iff.trans ?_ Except.bind_eq_ok.symm)
      simp only [Except.mapError_eq_ok, ih]
  exact hfrom 0

theorem foldl_addToken {spec : Spec ν} {site : Site} {names : List String}
    (hnodup : (spec.tokens.map (·.1) ++ names).Nodup) :
    names.foldl (addToken site) spec =
      { spec with tokens := spec.tokens ++ names.map (·, site) } := by
  induction names generalizing spec with
  | nil => simp
  | cons name names ih =>
    have hfresh : spec.tokens.any (·.1 = name) = false := by
      rw [List.any_eq_false]
      intro token htoken hname
      rw [decide_eq_true_eq] at hname
      exact (List.nodup_append.1 hnodup).2.2 _ (List.mem_map_of_mem htoken) _
        (List.mem_cons_self ..) hname
    have hadd : spec.addToken site name =
        { spec with tokens := spec.tokens ++ [(name, site)] } := by
      simp only [addToken, hfresh, Bool.false_eq_true, ↓reduceIte]
    rw [List.foldl_cons, hadd, ih (by simpa using hnodup)]
    simp

/-- Bands without names are passed over. -/
theorem foldlM_addBand {spec : Spec ν} {site : Site} {bands : List (Associativity × List String)}
    (hnames : ∀ b ∈ bands, ∀ name ∈ b.2, Text.isSymbolName name = true)
    (hnodup : (spec.bands.flatMap BandSpec.names ++ bands.flatMap (·.2)).Nodup) :
    (bands.map fun b => (b.1, " ".intercalate b.2)).foldlM (addBand site) spec =
      .ok { spec with bands := spec.bands ++
        (bands.filter (·.2 ≠ [])).map fun b => ⟨site, b.1, b.2⟩ } := by
  induction bands generalizing spec with
  | nil => simp [pure, Except.pure]
  | cons band bands ih =>
    have hband := hnames band (List.mem_cons_self ..)
    have hwords : Text.words (" ".intercalate band.2) = band.2 :=
      Text.words_intercalate fun name hname => Text.isWord_of_isSymbolName (hband name hname)
    have hfresh : band.2.findSome? (fun name => (spec.bandSite? name).map (name, ·)) = none := by
      rw [List.findSome?_eq_none_iff]
      intro name hname
      have hnone : spec.bands.find? (·.names.contains name) = none := by
        rw [List.find?_eq_none]
        intro b hb hcontains
        exact (List.nodup_append.1 hnodup).2.2 name
          (List.mem_flatMap.2 ⟨b, hb, List.contains_iff_mem.1 hcontains⟩) name
          (List.mem_flatMap.2 ⟨band, List.mem_cons_self .., hname⟩) rfl
      rw [bandSite?, hnone]
      rfl
    have hadd : spec.addBand site (band.1, " ".intercalate band.2) =
        .ok (if band.2 = [] then spec
          else { spec with bands := spec.bands ++ [⟨site, band.1, band.2⟩] }) := by
      simp only [addBand, hwords, validNames_of_isSymbolName hband, bind, Except.bind, hfresh]
      split <;> rfl
    have hrest : ∀ b ∈ bands, ∀ name ∈ b.2, Text.isSymbolName name = true :=
      fun b hb => hnames b (List.mem_cons_of_mem _ hb)
    rw [List.map_cons, List.foldlM_cons]
    refine Except.bind_eq_ok.2 ⟨_, hadd, ?_⟩
    by_cases hnil : band.2 = []
    · rw [if_pos hnil]
      simpa [hnil] using ih hrest (by simpa [hnil] using hnodup)
    · rw [if_neg hnil]
      simpa [hnil] using @ih { spec with bands := spec.bands ++ [⟨site, band.1, band.2⟩] } hrest
        (by simpa using hnodup)

end Spec
end Lalr
