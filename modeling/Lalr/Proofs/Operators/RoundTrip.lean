import Lalr.Proofs.Operators.Parsing
import Lalr.Tree.Semantics

/-!
The round trip of expressions: through the table that the declarations of operators build, what an
expression is written as comes back as the expression.
-/

namespace Lalr

variable {ν σ V : Type}

namespace Operators
namespace Wording

variable {ops : Operators} (w : ops.Wording ν)

def table : Table ν := (Analysis.ofGrammar w.spec.grammar).table

theorem build_eq : w.spec.build = .ok w.table := by
  rw [Spec.build, w.assemble_eq]
  exact w.layout.build_eq

theorem isBuilt : w.table.IsBuilt := ⟨w.declarations, w.spec, w.declareAll_eq, w.build_eq⟩

theorem diagnostics_table : w.table.diagnostics = [] :=
  w.layout.diagnostics_table.trans w.diagnostics_eq

/-- The operators build nodes of the operands. Building may change the context. -/
def Builds (sem : Semantics ν σ V) (node : ops.Operator → V → V → V) : Prop :=
  ∀ o a x b c, ∃ c', ((w.bodies o).prepare.run sem [a, x, b]).run.run c = (.ok (node o a b), c')

variable {w} {sem : Semantics ν σ V} {node : ops.Operator → V → V → V}

theorem act_form (f : Form ops) (values : List V) :
    (Machine.ofSemantics w.table sem).act (w.layout.form f) values =
      (f.body w.bodies).prepare.run sem values := by
  obtain ⟨s, hs⟩ := w.getElem?_productions f
  have hproduction : w.table.production? (w.layout.form f) =
      some (w.spec.production w.spec.names (f.rule w.bodies s)) := hs
  simp only [Machine.ofSemantics, hproduction]
  rfl

theorem Builds.makes (h : w.Builds sem node) :
    Layout.Makes (m := Machine.ofSemantics w.table sem) w.layout node where
  isBuilt := w.isBuilt
  binary o a x b c := by
    rw [act_form]
    exact h o a x b c
  bracketed x v y c := by
    rw [act_form]
    rfl
  number v c := by
    rw [act_form]
    rfl

/-- A table is built without a finding. It parses every expression from its writing, and a second
operator of a band that does not associate is where parsing fails. -/
theorem parses_printed (h : w.Builds sem node) :
    ∃ spec t, Spec.declareAll {} w.declarations = .ok spec ∧ spec.build = .ok t ∧
      t.diagnostics = [] ∧
      (∀ (e : Expression ops V) (ts : List (Token V)), Spells ts e.print → ∀ p : Parser σ V,
        ∃ c, p.parse (Machine.ofSemantics t sem) ts = some (.ok (e.fold node), { context := c })) ∧
      ∀ o₁ o₂ : ops.Operator, ops.level o₁ = ops.level o₂ → ops.associativity o₁ = .nonassoc →
        ∀ a x b y z : Token V, Spells [a, x, b, y, z] [(.number, none), (.operator o₁, none),
            (.number, none), (.operator o₂, none), (.number, none)] →
          ∀ p : Parser σ V, ∃ expected, p.parse (Machine.ofSemantics t sem) [a, x, b, y, z] =
            some (.error (.unexpected y.location o₂.1 expected), p.reset) :=
  ⟨w.spec, w.table, w.declareAll_eq, w.build_eq, w.diagnostics_table,
    fun e _ hts p => Layout.parse_print h.makes e hts p,
    fun _ _ hlevel hnonassoc _ _ _ _ _ hts p =>
      Layout.parse_nonassoc h.makes hlevel hnonassoc hts p⟩

end Wording

namespace Comparisons

/-- Sums that can be compared, and powers of them. -/
def operators : Operators where
  bands := [(.nonassoc, ["<"]), (.left, ["+", "-"]), (.right, ["^"])]
  nodup := by decide
  isSymbolName := (by decide : ∀ o ∈ ["<", "+", "-", "^"], Text.isSymbolName o = true) _
  fresh := (by decide : ∀ o ∈ ["<", "+", "-", "^"], o ∉ ["E", "NUM", "(", ")"]) _

def lexemes (o : String) : List Template.Lexeme :=
  [.name "Op", .mark '(', .str o, .mark ',', .capture 1, .mark ',', .capture 3, .mark ')']

theorem lexemes_action : ∀ o ∈ operators.names,
    Template.lexemes ("Op('" ++ o ++ "', $1, $3)") = .ok (lexemes o) := by
  decide +kernel

theorem bodyAt_action (s : Site) {o : String} (ho : o ∈ operators.names) :
    bodyAt s "E" 3 (.template ("Op('" ++ o ++ "', $1, $3)")) =
      .ok (.template ⟨[], .call "Op" [.literal (.str o), .capture 0, .capture 2]⟩ :
        Body String) := by
  have htrim : Text.trim ("Op('" ++ o ++ "', $1, $3)") ≠ "" :=
    (by decide +kernel : ∀ o ∈ operators.names, Text.trim ("Op('" ++ o ++ "', $1, $3)") ≠ "") o ho
  simp only [bodyAt, if_neg htrim, templateAt, Template.ofText, Template.parse, lexemes_action o ho]
  rfl

def wording : operators.Wording String where
  site := ⟨"calc", 1⟩
  helpers := "Op"
  actions o := .template ("Op('" ++ o.1 ++ "', $1, $3)")
  bodies o := .template ⟨[], .call "Op" [.literal (.str o.1), .capture 0, .capture 2]⟩
  rules := operators.forms.map (⟨"calc", 2⟩, ·)
  bodyAt_actions o s := bodyAt_action s o.2
  known {o t helper} ht hhelper := by
    cases ht
    obtain rfl : helper = "Op" := List.mem_singleton.1 hhelper
    decide +kernel
  perm := by simp [Function.comp_def]

def node (o : operators.Operator) (a b : Tree.Value) : Tree.Value := .node "Op" [.str o.1, a, b]

theorem builds : wording.Builds Tree.full node :=
  fun _ _ _ _ _ => ⟨_, rfl⟩

def token (terminal : String) (value : Tree.Value) (column : Nat) : Token Tree.Value :=
  ⟨terminal, value, ⟨1, column⟩⟩

def minus : operators.Operator := ⟨"-", by decide⟩

def power : operators.Operator := ⟨"^", by decide⟩

def less : operators.Operator := ⟨"<", by decide⟩

def expression : Expression operators Tree.Value :=
  .binary power (.binary minus (.number (.int 1))
    (.binary minus (.number (.int 2)) (.number (.int 3)))) (.number (.int 4))

def tokens : List (Token Tree.Value) :=
  [token "(" .null 1, token "NUM" (.int 1) 2, token "-" .null 4, token "(" .null 6,
    token "NUM" (.int 2) 7, token "-" .null 9, token "NUM" (.int 3) 11, token ")" .null 12,
    token ")" .null 13, token "^" .null 15, token "NUM" (.int 4) 17]

theorem spells_tokens : Spells tokens expression.print := by
  have hprint : expression.print = [(.opening, none), (.number, some (.int 1)),
      (.operator minus, none), (.opening, none), (.number, some (.int 2)), (.operator minus, none),
      (.number, some (.int 3)), (.closing, none), (.closing, none), (.operator power, none),
      (.number, some (.int 4))] := rfl
  simp [hprint, Spells, tokens, token, Mark.name, minus, power]

/-- `(1 - (2 - 3)) ^ 4` is parsed, `1 < 2 < 3` is not. -/
theorem parses_printed_power :
    ∃ spec t, Spec.declareAll {} wording.declarations = .ok spec ∧ spec.build = .ok t ∧
      t.diagnostics = [] ∧
      (∃ c, ({ context := #[] } : Parser Tree.Journal Tree.Value).parse
          (Machine.ofSemantics t Tree.full) tokens =
        some (.ok (.node "Op" [.str "^", .node "Op" [.str "-", .int 1,
          .node "Op" [.str "-", .int 2, .int 3]], .int 4]), { context := c })) ∧
      ∃ expected, ({ context := #[] } : Parser Tree.Journal Tree.Value).parse
          (Machine.ofSemantics t Tree.full)
          [token "NUM" (.int 1) 1, token "<" .null 3, token "NUM" (.int 2) 5, token "<" .null 7,
            token "NUM" (.int 3) 9] =
        some (.error (.unexpected ⟨1, 7⟩ "<" expected), { context := #[] }) := by
  obtain ⟨spec, t, hspec, hbuild, hclean, hprinted, hnonassoc⟩ :=
    Wording.parses_printed builds
  refine ⟨spec, t, hspec, hbuild, hclean, hprinted expression tokens spells_tokens _, ?_⟩
  exact hnonassoc less less rfl rfl _ _ _ _ _ (by simp [Spells, token, Mark.name, less]) _

end Comparisons
end Operators
end Lalr
