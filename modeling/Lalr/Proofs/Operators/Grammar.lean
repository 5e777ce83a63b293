import Lalr.Proofs.Grammar.Assembly
import Lalr.Proofs.Operators.Expression

/-!
The grammar of expressions: a rule for each operator, one for brackets and one for numbers, in any
order.
-/

namespace Lalr

variable {ν σ V : Type}

namespace Operators

/-- The ways to make an expression. -/
inductive Form (ops : Operators)
  | binary (o : ops.Operator)
  | bracketed
  | number
  deriving DecidableEq

def operators (ops : Operators) : List ops.Operator := ops.names.attach

def forms (ops : Operators) : List (Form ops) :=
  ops.operators.map .binary ++ [.bracketed, .number]

variable {ops : Operators}

theorem nodup_forms (ops : Operators) : ops.forms.Nodup := by
  have hoperators : ops.operators.Nodup := List.nodup_attach.2 ops.nodup
  have hbinary : (ops.operators.map Form.binary).Nodup :=
    hoperators.map fun _ _ h => Form.binary.inj h
  refine hbinary.append (by simp) fun f hf hf' => ?_
  obtain ⟨o, -, rfl⟩ := List.mem_map.1 hf
  simp at hf'

theorem mem_forms (f : Form ops) : f ∈ ops.forms := by
  cases f with
  | binary o => exact List.mem_append_left _ (List.mem_map_of_mem (List.mem_attach ..))
  | bracketed => simp [forms]
  | number => simp [forms]

/-- An operand, or what is written between operands. -/
abbrev Symbol (ops : Operators) := Option (Mark ops)

namespace Symbol

def name (x : Symbol ops) : String := x.elim "E" Mark.name

theorem isSymbolName (x : Symbol ops) : Text.isSymbolName x.name = true := by
  match x with
  | none => exact (by decide : Text.isSymbolName "E" = true)
  | some .number => exact (by decide : Text.isSymbolName "NUM" = true)
  | some .opening => exact (by decide : Text.isSymbolName "(" = true)
  | some .closing => exact (by decide : Text.isSymbolName ")" = true)
  | some (.operator o) => exact ops.isSymbolName o.2

theorem not_isReserved (x : Symbol ops) : Text.isReserved x.name = false :=
  (Bool.not_eq_true' _).mp (Bool.and_eq_true_iff.1 x.isSymbolName).2

theorem name_injective : Function.Injective fun x : Symbol ops => x.name := by
  have hfresh : ∀ o : ops.Operator, o.1 ≠ "E" ∧ o.1 ≠ "NUM" ∧ o.1 ≠ "(" ∧ o.1 ≠ ")" := by
    intro o
    simpa using ops.fresh o.2
  intro x y h
  rcases x with _ | _ | _ | _ | o <;> rcases y with _ | _ | _ | _ | p <;>
    simp only [name, Mark.name, Option.elim] at h <;> grind [Subtype.ext]

theorem isDefined (x : Symbol ops) :
    x.name = "E" ∨ x.name ∈ "NUM" :: ops.names ∨ Text.isPunctuation x.name = true := by
  match x with
  | none => exact .inl rfl
  | some .number => exact .inr (.inl (List.mem_cons_self ..))
  | some .opening => exact .inr (.inr (by decide : Text.isPunctuation "(" = true))
  | some .closing => exact .inr (.inr (by decide : Text.isPunctuation ")" = true))
  | some (.operator o) => exact .inr (.inl (List.mem_cons_of_mem _ o.2))

/-- The only nonterminal besides that of a whole input is 1. -/
def sym (mark : Mark ops → Nat) (x : Symbol ops) : Sym :=
  x.elim (.nonterminal 1) fun m => .terminal (mark m)

end Symbol

theorem Mark.name_ne (m : Mark ops) : m.name ≠ "E" := by
  intro h
  have heq : Symbol.name (some m) = Symbol.name (none : Symbol ops) := h
  cases Symbol.name_injective heq

theorem ne_of_mem_names {name : String} (h : name ∈ ops.names) : name ≠ "E" :=
  Mark.name_ne (.operator ⟨name, h⟩)

namespace Form

def symbols : Form ops → List (Symbol ops)
  | .binary o => [none, some (.operator o), none]
  | .bracketed => [some .opening, none, some .closing]
  | .number => [some .number]

def rhs (f : Form ops) : List String := f.symbols.map Symbol.name

/-- Brackets and numbers stand for what is in them. -/
def action (actions : ops.Operator → BodySpec ν) : Form ops → BodySpec ν
  | .binary o => actions o
  | .bracketed => .template "$2"
  | .number => .template ""

def body (bodies : ops.Operator → Body ν) : Form ops → Body ν
  | .binary o => bodies o
  | .bracketed => .template ⟨[], .capture 1⟩
  | .number => .template .passThrough

def declaration (actions : ops.Operator → BodySpec ν) (f : Form ops) : Declaration ν :=
  .rule "E" (" ".intercalate f.rhs) (f.action actions) none

def rule (bodies : ops.Operator → Body ν) (site : Site) (f : Form ops) : NamedRule ν :=
  ⟨site, "E", f.rhs, none, f.body bodies⟩

theorem exists_mem_symbols (m : Mark ops) : ∃ f : Form ops, some m ∈ f.symbols := by
  cases m with
  | number => exact ⟨.number, by simp [symbols]⟩
  | opening => exact ⟨.bracketed, by simp [symbols]⟩
  | closing => exact ⟨.bracketed, by simp [symbols]⟩
  | operator o => exact ⟨.binary o, by simp [symbols]⟩

end Form

theorem bodyAt_bracketed (s : Site) :
    bodyAt s "E" 3 (.template "$2") = .ok (.template ⟨[], .capture 1⟩ : Body ν) := by
  have htrim : Text.trim "$2" ≠ "" := by decide +kernel
  have hlexemes : Template.lexemes "$2" = .ok [.capture 2] := by decide +kernel
  simp only [bodyAt, if_neg htrim, templateAt, Template.ofText, Template.parse, hlexemes]
  rfl

theorem bodyAt_number (s : Site) :
    bodyAt s "E" 1 (.template "") = .ok (.template .passThrough : Body ν) := by
  have htrim : Text.trim "" = "" := by decide +kernel
  simp [bodyAt, htrim]

/-- A way to declare the grammar: what the operators do, and the sites and the order of the
rules. -/
structure Wording (ops : Operators) (ν : Type) where
  site : Site
  helpers : String
  actions : ops.Operator → BodySpec ν
  bodies : ops.Operator → Body ν
  rules : List (Site × Form ops)
  bodyAt_actions (o : ops.Operator) (s : Site) : bodyAt s "E" 3 (actions o) = .ok (bodies o)
  known {o : ops.Operator} {t : Template} {helper : String} : bodies o = .template t →
    helper ∈ t.helpers → helper ∈ Text.words helpers
  perm : (rules.map (·.2)).Perm ops.forms

namespace Wording

/-- Operators can be their own actions. -/
instance : Inhabited (ops.Wording ops.Operator) where
  default :=
    { site := default
      helpers := ""
      actions := .native
      bodies := .native
      rules := ops.forms.map (default, ·)
      bodyAt_actions := fun _ _ => rfl
      known := nofun
      perm := by simp [Function.comp_def] }

variable (w : ops.Wording ν)

/-- The declarations of tokens, helpers and bands, and then the rules. -/
def declarations : List (Site × Declaration ν) :=
  (w.site, .tokens (" ".intercalate ("NUM" :: ops.names))) :: (w.site, .helpers w.helpers) ::
    (w.site, .bands (ops.bands.map fun b => (b.1, " ".intercalate b.2))) ::
    w.rules.map fun (s, f) => (s, f.declaration w.actions)

def spec : Spec ν where
  rules := w.rules.map fun (s, f) => f.rule w.bodies s
  tokens := ("NUM" :: ops.names).map (·, w.site)
  helpers := Text.words w.helpers
  bands := (ops.bands.filter (·.2 ≠ [])).map fun b => ⟨w.site, b.1, b.2⟩

theorem ruleAt_eq (s : Site) (f : Form ops) :
    ruleAt s "E" (" ".intercalate f.rhs) (f.action w.actions) none = .ok (f.rule w.bodies s) := by
  have hsymbols : ∀ name ∈ f.rhs, Text.isSymbolName name = true := by
    intro name hname
    obtain ⟨x, -, rfl⟩ := List.mem_map.1 hname
    exact x.isSymbolName
  have hwords : Text.words (" ".intercalate f.rhs) = f.rhs :=
    Text.words_intercalate fun name hname => Text.isWord_of_isSymbolName (hsymbols name hname)
  have htrim : Text.trim "E" = "E" := by decide +kernel
  have hlhs : (!Text.isIdentifier "E" || Text.isReserved "E") = false := by decide
  have haction : bodyAt s "E" f.rhs.length (f.action w.actions) = .ok (f.body w.bodies) := by
    cases f with
    | binary o => exact w.bodyAt_actions o s
    | bracketed => exact bodyAt_bracketed s
    | number => exact bodyAt_number s
  simp only [ruleAt, htrim, hlhs, hwords, validNames_of_isSymbolName hsymbols, Option.mapM_none,
    bind, Except.bind, pure, Except.pure, haction]
  rfl

theorem foldlM_rules (rules : List (Site × Form ops)) (spec : Spec ν) :
    (rules.map fun (s, f) => (s, f.declaration w.actions)).foldlM
        (fun spec (s, d) => spec.declare s d) spec =
      .ok { spec with rules := spec.rules ++ rules.map fun (s, f) => f.rule w.bodies s } := by
  induction rules generalizing spec with
  | nil => simp [pure, Except.pure]
  | cons rule rules ih =>
    have hrule : spec.declare rule.1 (rule.2.declaration w.actions) =
        .ok { spec with rules := spec.rules ++ [rule.2.rule w.bodies rule.1] } := by
      simp only [Form.declaration, Spec.declare, w.ruleAt_eq]
      rfl
    rw [List.map_cons, List.foldlM_cons]
    refine Except.bind_eq_ok.2 ⟨_, hrule, ?_⟩
    rw [ih]
    simp

theorem declareAll_eq : Spec.declareAll {} w.declarations = .ok w.spec := by
  have htokens : ∀ name ∈ "NUM" :: ops.names, Text.isSymbolName name = true := by
    intro name hname
    rcases List.mem_cons.1 hname with rfl | hname
    · decide
    · exact ops.isSymbolName hname
  have hwords : Text.words (" ".intercalate ("NUM" :: ops.names)) = "NUM" :: ops.names :=
    Text.words_intercalate fun name hname => Text.isWord_of_isSymbolName (htokens name hname)
  have hnodup : ("NUM" :: ops.names).Nodup :=
    List.nodup_cons.2 ⟨fun hmem => ops.fresh hmem (by simp), ops.nodup⟩
  rw [Spec.declareAll_eq_ok_iff, declarations, List.foldlM_cons]
  refine Except.bind_eq_ok.2 ⟨{ tokens := ("NUM" :: ops.names).map (·, w.site) }, ?_, ?_⟩
  · change Spec.addTokens w.site _ _ = _
    rw [Spec.addTokens, hwords, validNames_of_isSymbolName htokens]
    exact congrArg Except.ok (Spec.foldl_addToken (by simpa using hnodup))
  rw [List.foldlM_cons]
  refine Except.bind_eq_ok.2 ⟨_, rfl, ?_⟩
  rw [List.foldlM_cons]
  refine Except.bind_eq_ok.2 ⟨_, Spec.foldlM_addBand (fun b hb name hname =>
    ops.isSymbolName (List.mem_flatMap.2 ⟨b, hb, hname⟩)) (by simpa using ops.nodup), ?_⟩
  exact (w.foldlM_rules w.rules _).trans rfl

/-! What the declarations say, whatever the order of the rules. -/

theorem exists_mem_rules (f : Form ops) : ∃ s, (s, f) ∈ w.rules := by
  obtain ⟨⟨s, f⟩, hmem, rfl⟩ := List.mem_map.1 (w.perm.mem_iff.2 (mem_forms f))
  exact ⟨s, hmem⟩

theorem exists_of_mem_rules {r : NamedRule ν} (hr : r ∈ w.spec.rules) :
    ∃ (s : Site) (f : Form ops), f.rule w.bodies s = r := by
  obtain ⟨⟨s, f⟩, -, hr⟩ := List.mem_map.1 hr
  exact ⟨s, f, hr⟩

theorem lhs_rules : ∃ n, w.spec.rules.map (·.lhs) = List.replicate (n + 1) "E" := by
  obtain ⟨s, hs⟩ := w.exists_mem_rules .number
  obtain ⟨n, hn⟩ := Nat.exists_eq_succ_of_ne_zero (Nat.ne_of_gt (List.length_pos_of_mem hs))
  refine ⟨n, List.eq_replicate_iff.2 ⟨by simpa [spec] using hn, fun name hname => ?_⟩⟩
  obtain ⟨r, hr, rfl⟩ := List.mem_map.1 hname
  obtain ⟨s, f, rfl⟩ := w.exists_of_mem_rules hr
  rfl

theorem lhsNames_eq : w.spec.lhsNames = ["E"] := by
  obtain ⟨n, hn⟩ := w.lhs_rules
  simp [Spec.lhsNames, hn, List.replicate_succ, List.eraseDups_cons]

theorem startName_eq : w.spec.startName = "E" := by
  obtain ⟨n, hn⟩ := w.lhs_rules
  have hstart : w.spec.startName = ((w.spec.rules.map (·.lhs)).head?).getD "" := by
    rw [List.head?_map]
    rfl
  rw [hstart, hn]
  rfl

theorem tokenNames_eq : w.spec.tokenNames = "NUM" :: ops.names := by
  simp [Spec.tokenNames, spec, Function.comp_def]

theorem nonterminals_eq : w.spec.names.nonterminals = ["$accept", "E"] := by
  rw [Spec.names, w.lhsNames_eq]
  rfl

theorem mem_terminalNames (m : Mark ops) : m.name ∈ w.spec.terminalNames := by
  obtain ⟨f, hf⟩ := Form.exists_mem_symbols m
  obtain ⟨s, hs⟩ := w.exists_mem_rules f
  have hrule : f.rule w.bodies s ∈ w.spec.rules := List.mem_map.2 ⟨(s, f), hs, rfl⟩
  refine Spec.mem_terminalNames_of_rhs hrule (List.mem_map_of_mem hf) ?_
  rw [w.lhsNames_eq]
  simpa using m.name_ne

def mark (m : Mark ops) : Nat := w.spec.terminalNames.idxOf m.name

theorem symbol_name (x : Symbol ops) : w.spec.names.symbol x.name = x.sym w.mark := by
  cases x with
  | none =>
    rw [Names.symbol_of_mem (by simp [w.nonterminals_eq, Symbol.name]), w.nonterminals_eq]
    rfl
  | some m =>
    rw [Names.symbol_of_not_mem]
    · rfl
    · have hreserved := Spec.ne_of_isReserved (Symbol.not_isReserved (some m))
        Spec.isReserved_acceptName
      simp only [w.nonterminals_eq, List.mem_cons, List.not_mem_nil, or_false, not_or]
      exact ⟨hreserved.symm, m.name_ne⟩

theorem wellFormed : w.spec.grammar.WellFormed := by
  have hstart : w.spec.startName ∈ w.spec.lhsNames := by
    simp [w.startName_eq, w.lhsNames_eq]
  exact (Spec.Unreserved.declareAll w.declareAll_eq).wellFormed hstart

theorem start_eq : w.spec.grammar.start = 1 := by
  simp only [Spec.grammar, w.startName_eq, w.nonterminals_eq]
  decide

/-! The declarations fit together. -/

theorem emptyFault?_eq : w.spec.emptyFault? = none := by
  obtain ⟨n, hn⟩ := w.lhs_rules
  have hne : w.spec.rules ≠ [] := by
    rintro hnil
    simp [hnil] at hn
  simp [Spec.emptyFault?, hne]

theorem tokenFault?_eq : w.spec.tokenFault? = none := by
  simp only [Spec.tokenFault?, List.findSome?_eq_none_iff, w.tokenNames_eq]
  intro r hr
  obtain ⟨s, f, rfl⟩ := w.exists_of_mem_rules hr
  have hE : "E" ∉ ops.names := fun hmem => ne_of_mem_names hmem rfl
  simp [Form.rule, hE]

theorem startFault?_eq : w.spec.startFault? = none := by
  simp [Spec.startFault?, w.startName_eq, w.lhsNames_eq]

theorem undefinedFault?_eq : w.spec.undefinedFault? = none := by
  simp only [Spec.undefinedFault?, List.findSome?_eq_none_iff, w.lhsNames_eq, w.tokenNames_eq]
  intro r hr name hname
  obtain ⟨s, f, rfl⟩ := w.exists_of_mem_rules hr
  obtain ⟨x, -, rfl⟩ := List.mem_map.1 hname
  rcases x.isDefined with h | h | h <;> simp [h]

theorem bandFault?_eq : w.spec.bandFault? = none := by
  simp only [Spec.bandFault?, List.findSome?_eq_none_iff, w.lhsNames_eq]
  intro b hb name hname
  obtain ⟨band, hmem, rfl⟩ := List.mem_map.1 hb
  have hne := ne_of_mem_names (List.mem_flatMap.2 ⟨band, (List.mem_filter.1 hmem).1, hname⟩)
  simp [hne]

theorem helperFault?_eq {r : NamedRule ν} (hr : r ∈ w.spec.rules) :
    w.spec.helperFault? r = none := by
  obtain ⟨s, f, rfl⟩ := w.exists_of_mem_rules hr
  cases f with
  | binary o =>
    simp only [Spec.helperFault?, Form.rule, Form.body]
    split
    · next t ht =>
      rw [Option.map_eq_none_iff, List.find?_eq_none]
      intro helper hhelper
      simpa [spec] using w.known ht hhelper
    · rfl
  | bracketed => rfl
  | number => rfl

theorem ruleFault?_eq : w.spec.ruleFault? = none := by
  simp only [Spec.ruleFault?, List.findSome?_eq_none_iff]
  intro r hr
  have hhelper := w.helperFault?_eq hr
  obtain ⟨s, f, rfl⟩ := w.exists_of_mem_rules hr
  have hsymbol : w.spec.precedenceSymbolFault? (f.rule w.bodies s) = none := rfl
  rw [hsymbol, hhelper]
  rfl

theorem reachFault?_eq : w.spec.reachFault? = none := by
  have hreachable := w.wellFormed.cfg.start_mem_reachable
  rw [w.start_eq, Spec.cfg_grammar] at hreachable
  have haccept : w.spec.rules.find? (·.lhs = "$accept") = none := by
    rw [List.find?_eq_none]
    intro r hr
    obtain ⟨s, f, rfl⟩ := w.exists_of_mem_rules hr
    simp [Form.rule]
  simp [Spec.reachFault?, w.nonterminals_eq, hreachable, haccept]

theorem assemble_eq : w.spec.assemble = .ok w.spec.grammar := by
  have hfallback : w.spec.fallbackFault? = none := rfl
  have hnone : w.spec.fault? = none := by
    simp [Spec.fault?, w.emptyFault?_eq, w.tokenFault?_eq, w.startFault?_eq,
      w.undefinedFault?_eq, w.bandFault?_eq, hfallback, w.ruleFault?_eq, w.reachFault?_eq]
  simp [Spec.assemble, hnone]

/-- Every token is in some rule. -/
theorem diagnostics_eq : w.spec.grammar.diagnostics = [] := by
  have hused : ∀ m : Mark ops, w.spec.isUsed m.name = true := by
    intro m
    obtain ⟨f, hf⟩ := Form.exists_mem_symbols m
    obtain ⟨s, hs⟩ := w.exists_mem_rules f
    have hrule : w.spec.rules.any (·.rhs.contains m.name) = true :=
      List.any_eq_true.2 ⟨f.rule w.bodies s, List.mem_map.2 ⟨(s, f), hs, rfl⟩,
        List.contains_iff_mem.2 (List.mem_map_of_mem hf)⟩
    rw [Spec.isUsed, hrule, Bool.true_or, Bool.true_or]
  have hnone : w.spec.diagnostics = [] := by
    rw [Spec.diagnostics, List.map_eq_nil_iff, List.filter_eq_nil_iff]
    rintro ⟨name, s⟩ hname
    obtain ⟨token, htoken, heq⟩ := List.mem_map.1 hname
    cases heq
    rcases List.mem_cons.1 htoken with rfl | htoken
    · simpa [Mark.name] using hused .number
    · simpa [Mark.name] using hused (.operator ⟨name, htoken⟩)
  exact hnone

end Wording
end Operators
end Lalr
