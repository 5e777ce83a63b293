import Lalr.Proofs.Operators.Cells
import Lalr.Proofs.Parser.Sentences

/-!
Parsing what expressions are written as. Where an operand is awaited, its writing is read into one
frame with its value.
-/

namespace Lalr

variable {ν σ V : Type}

namespace Operators.Layout

variable {ops : Operators}

/-! Where operands are awaited. -/

section Awaiting

variable {g : Grammar ν} (L : ops.Layout g) {γ : List Sym} {q a : Nat} {i : Item} {ys : List Sym}

/-- The path leads to where an operand begins, and the terminal can come after it. -/
structure Awaits (γ : List Sym) (q a : Nat) : Prop where
  path : g.cfg.Path γ q
  item : ∃ i, g.cfg.ItemAfter γ i ∧ g.cfg.next? i = some (L.sym none)
  follow (f : Form ops) : g.cfg.LookaheadAfter γ ⟨L.form f, 0⟩ a

variable {L}

theorem awaits_of_admits (hγ : g.cfg.Path γ q) (hi : g.cfg.ItemAfter γ i)
    (hrest : g.cfg.rest i = L.sym none :: ys) (ha : g.cfg.Admits γ i ys a) : L.Awaits γ q a where
  path := hγ
  item := ⟨i, hi, Cfg.next?_of_rest hrest⟩
  follow f := ha.lookaheadAfter hi hrest (L.mem_rulesOf.2 ⟨f, rfl⟩)

theorem awaits_start : L.Awaits [] 0 0 :=
  awaits_of_admits .nil .start L.rhs_zero (.inr ⟨.refl [], .start⟩)

theorem rest_of_dotted {f : Form ops} {before after : List (Symbol ops)} {x : Symbol ops}
    (h : Dotted f before x after) :
    g.cfg.rest ⟨L.form f, before.length⟩ = L.sym x :: after.map L.sym := by
  rw [Cfg.rest, L.rhs_of_dotted h, List.drop_left' (by simp)]

namespace Awaits

variable (h : L.Awaits γ q a)
include h

theorem itemAfter (f : Form ops) : g.cfg.ItemAfter γ ⟨L.form f, 0⟩ := (h.follow f).itemAfter

theorem opens : L.Opens γ := L.opens_of_zero (h.itemAfter .number) rfl

theorem left (o : ops.Operator) : L.Awaits γ q (L.mark (.operator o)) :=
  awaits_of_admits h.path (h.itemAfter (.binary o)) (rest_of_dotted (.left o))
    (.inl ⟨_, .refl _⟩)

theorem inner {q' : Nat} (hq : g.cfg.goTo q (L.sym (some .opening)) = some q') :
    L.Awaits (γ ++ [L.sym (some .opening)]) q' (L.mark .closing) :=
  awaits_of_admits (h.path.snoc hq)
    ((h.itemAfter .bracketed).advance (L.next?_of_dotted .opening)) (rest_of_dotted .inner)
    (.inl ⟨_, .refl _⟩)

theorem right (o : ops.Operator) {q₁ q₂ : Nat} (hq₁ : g.cfg.goTo q (L.sym none) = some q₁)
    (hq₂ : g.cfg.goTo q₁ (L.sym (some (.operator o))) = some q₂) :
    L.Awaits (γ ++ [L.sym none] ++ [L.sym (some (.operator o))]) q₂ a := by
  have hla : g.cfg.LookaheadAfter (γ ++ [L.sym none] ++ [L.sym (some (.operator o))])
      ⟨L.form (.binary o), 2⟩ a :=
    ((h.follow (.binary o)).advance (L.next?_of_dotted (.left o))).advance
      (L.next?_of_dotted (.operator o))
  exact awaits_of_admits ((h.path.snoc hq₁).snoc hq₂) hla.itemAfter (rest_of_dotted (.right o))
    (.inr ⟨.refl [], hla⟩)

end Awaits
end Awaiting

/-! What is made of the next terminal there. -/

section Moves

variable {t : Table ν} {L : ops.Layout t.grammar} {γ : List Sym} {q q₁ q₂ a : Nat} {i : Item}
  {m : Mark ops} {f : Form ops}

theorem lookup_eq (L : ops.Layout t.grammar) (q a : Nat) : t.lookup q a = t.move q a :=
  Table.lookup_of_fallback?_none (L.fallback? a)

theorem lookup_of_verdict (ht : t.IsBuilt) (L : ops.Layout t.grammar) {move : Move}
    (hmove : move ∈ t.candidates q a) : t.lookup q a = (t.grammar.verdict q a).move := by
  obtain ⟨hq, ha⟩ := ht.in_range_of_candidate hmove
  obtain ⟨v, rfl, -, hcell⟩ := ht.cell?_eq hq ha
  rw [L.lookup_eq, Table.move, hcell, ht.shift?_eq, ht.reducible_eq]
  rfl

theorem lookup_shift (ht : t.IsBuilt) (hγ : t.cfg.Path γ q) (hi : t.cfg.ItemAfter γ i)
    (hx : t.cfg.next? i = some (L.sym (some m)))
    (hright : ∀ o p, t.cfg.ItemAfter γ (t.cfg.finished (L.form (.binary o))) → m = .operator p →
      ops.GroupsRight o p) :
    ∃ q', t.cfg.goTo q (L.sym (some m)) = some q' ∧ t.lookup q (L.mark m) = .shift q' := by
  obtain ⟨q', hq'⟩ := Cfg.exists_goTo (hi.mem_items L.wellFormed.cfg.size_pos hγ) hx
  refine ⟨q', hq', ?_⟩
  rw [lookup_of_verdict ht L (ht.shift_mem_candidates_iff.2 hq')]
  exact L.move_shift hγ hq' fun o p ho hp => hright o p ho (L.mark_injective hp)

theorem lookup_reduce (ht : t.IsBuilt) (hγ : t.cfg.Path γ q)
    (hla : t.cfg.LookaheadAfter γ (t.cfg.finished (L.form f)) a)
    (hleft : ∀ o p, f = .binary o → a = L.mark (.operator p) → ops.GroupsLeft o p) :
    t.lookup q a = .reduce (L.form f) := by
  rw [lookup_of_verdict ht L (ht.reduceBy_mem_candidates hγ hla), L.move_reduce hγ hla hleft]
  exact if_neg (L.form_ne_zero f)

/-- At the beginning of an operand there is nothing to be reduced. -/
theorem Awaits.lookup_first (h : L.Awaits γ q a) (ht : t.IsBuilt) {after : List (Symbol ops)}
    (hf : Dotted f [] (some m) after) :
    ∃ q', t.cfg.goTo q (L.sym (some m)) = some q' ∧ t.lookup q (L.mark m) = .shift q' :=
  lookup_shift ht h.path (h.itemAfter f) (L.next?_of_dotted hf)
    fun _ _ ho _ => absurd ho (L.not_finished_of_opens h.opens)

/-- An operator is read on, unless one before its left operand is to be taken first. -/
theorem Awaits.lookup_operator (h : L.Awaits γ q a) (ht : t.IsBuilt) {p : ops.Operator}
    (hq₁ : t.cfg.goTo q (L.sym none) = some q₁)
    (hright : ∀ o, γ.getLast? = some (L.sym (some (.operator o))) → ops.GroupsRight o p) :
    ∃ q₂, t.cfg.goTo q₁ (L.sym (some (.operator p))) = some q₂ ∧
      t.lookup q₁ (L.mark (.operator p)) = .shift q₂ := by
  refine lookup_shift ht (h.path.snoc hq₁)
    ((h.itemAfter (.binary p)).advance (L.next?_of_dotted (.left p)))
    (L.next?_of_dotted (.operator p)) fun o p' ho hp => ?_
  cases hp
  rcases L.of_finished_operand ho with ⟨hzero, -⟩ | ⟨o', heq, hlast⟩
  · exact absurd hzero (L.form_ne_zero _)
  · cases L.form_injective heq
    exact hright o hlast

theorem Awaits.lookup_closing (h : L.Awaits γ q a) (ht : t.IsBuilt) {q₀ : Nat}
    (hq₀ : t.cfg.goTo q (L.sym (some .opening)) = some q₀)
    (hq₁ : t.cfg.goTo q₀ (L.sym none) = some q₁) :
    ∃ q₂, t.cfg.goTo q₁ (L.sym (some .closing)) = some q₂ ∧
      t.lookup q₁ (L.mark .closing) = .shift q₂ :=
  lookup_shift ht ((h.path.snoc hq₀).snoc hq₁)
    (((h.itemAfter .bracketed).advance (L.next?_of_dotted .opening)).advance
      (L.next?_of_dotted .inner))
    (L.next?_of_dotted .closing) fun _ _ _ hp => by cases hp

/-- Once a form is on the path it is reduced, unless an operator comes that is to be taken first. -/
theorem Awaits.lookup_last (h : L.Awaits γ q a) (ht : t.IsBuilt)
    (hγ : t.cfg.Path (γ ++ f.symbols.map L.sym) q₁)
    (hleft : ∀ o p, f = .binary o → a = L.mark (.operator p) → ops.GroupsLeft o p) :
    t.lookup q₁ a = .reduce (L.form f) := by
  have hla := (h.follow f).finished
  rw [L.rhs] at hla
  exact lookup_reduce ht hγ hla hleft

/-- Between operators of one band that do not associate nothing is done. -/
theorem Awaits.lookup_nonassoc {o p : ops.Operator} (h : L.Awaits γ q (L.mark (.operator p)))
    (ht : t.IsBuilt) {q₀ : Nat} (hq₀ : t.cfg.goTo q (L.sym none) = some q₀)
    (hq₁ : t.cfg.goTo q₀ (L.sym (some (.operator o))) = some q₁)
    (hq₂ : t.cfg.goTo q₁ (L.sym none) = some q₂) (hlevel : ops.level o = ops.level p)
    (hnonassoc : ops.associativity p = .nonassoc) :
    t.lookup q₂ (L.mark (.operator p)) = .error := by
  have hγ := ((h.path.snoc hq₀).snoc hq₁).snoc hq₂
  have hla := (h.follow (.binary o)).finished
  rw [L.rhs] at hla
  have hpath : t.cfg.Path (γ ++ (Form.binary o).symbols.map L.sym) q₂ := by
    simpa [Form.symbols] using hγ
  have hitem := ((h.right o hq₀ hq₁).itemAfter (.binary p)).advance (L.next?_of_dotted (.left p))
  obtain ⟨q₃, hq₃⟩ := Cfg.exists_goTo (hitem.mem_items L.wellFormed.cfg.size_pos hγ)
    (L.next?_of_dotted (.operator p))
  rw [lookup_of_verdict ht L (ht.reduceBy_mem_candidates hpath hla)]
  exact L.move_error hpath hla hq₃ hlevel hnonassoc

theorem lookup_accept (ht : t.IsBuilt) (hγ : t.cfg.Path [L.sym none] q) :
    t.lookup q 0 = .accept := by
  have hla : t.cfg.LookaheadAfter [L.sym none] (t.cfg.finished 0) 0 := by
    have hfinished := Cfg.LookaheadAfter.start (g := t.cfg).finished
    rwa [L.rhs_zero] at hfinished
  rw [lookup_of_verdict ht L (ht.reduceBy_mem_candidates hγ hla)]
  exact L.move_end hγ hla

end Moves

/-! Reading what is written. -/

section Reading

variable {m : Machine ν σ V} {L : ops.Layout m.table.grammar} {node : ops.Operator → V → V → V}
  {w : Expression.Writing ops V} {value : V} {top? : Option ops.Operator}

/-- The rules make nodes, and pass on what brackets and numbers stand for. -/
structure Makes (L : ops.Layout m.table.grammar) (node : ops.Operator → V → V → V) : Prop where
  isBuilt : m.table.IsBuilt
  binary (o : ops.Operator) (a x b : V) (c : σ) :
    ∃ c', (m.act (L.form (.binary o)) [a, x, b]).run.run c = (.ok (node o a b), c')
  bracketed (x v y : V) (c : σ) : (m.act (L.form .bracketed) [x, v, y]).run.run c = (.ok v, c)
  number (v : V) (c : σ) : (m.act (L.form .number) [v]).run.run c = (.ok v, c)

def Leaf (L : ops.Layout m.table.grammar) (x : Nat × Token V) (y : Mark ops × Option V) : Prop :=
  x.1 = L.mark y.1 ∧ ∀ v ∈ y.2, x.2.value = v

/-- Where an operand is awaited, the writing is read into one frame with the value. This takes that
the operator on top, if any, goes before the operators that are next to it. -/
def Reads (L : ops.Layout m.table.grammar) (w : Expression.Writing ops V) (value : V)
    (top? : Option ops.Operator) : Prop :=
  ∀ (γ : List Sym) (stack : Stack V) (look : Lookahead V) (here : Location),
    L.Awaits γ stack.state look.terminal →
    (∀ o, ∀ p ∈ top?, γ.getLast? = some (L.sym (some (.operator o))) → ops.GroupsRight o p) →
    (∀ o ∈ top?, ∀ p, look.terminal = L.mark (.operator p) → ops.GroupsLeft o p) →
    ∀ leaves, List.Forall₂ L.Leaf leaves w → ∀ (c : σ) (input : List (Lookahead V × Location)),
      ∃ q place c', m.table.cfg.goTo stack.state (L.sym none) = some q ∧
        m.drive (.shifted stack) c (leaves.map ahead ++ (look, here) :: input) =
          m.drive (.shifted (⟨q, value, place⟩ :: stack)) c' ((look, here) :: input)

variable {γ : List Sym} {stack : Stack V} {look : Lookahead V} {here : Location}

theorem exists_of_leaf {leaves : List (Nat × Token V)} {x : Mark ops × Option V}
    (h : List.Forall₂ L.Leaf leaves (x :: w)) :
    ∃ t rest, leaves = (L.mark x.1, t) :: rest ∧ (∀ v ∈ x.2, t.value = v) ∧
      List.Forall₂ L.Leaf rest w := by
  obtain ⟨⟨a, t⟩, rest, ⟨hmark, hvalue⟩, hrest, rfl⟩ := List.forall₂_cons_right_iff.1 h
  obtain rfl : a = L.mark x.1 := hmark
  exact ⟨t, rest, rfl, hvalue, hrest⟩

theorem drive_form (f : Form ops) (frames : Stack V) (hm : L.Makes node)
    (h : L.Awaits γ stack.state look.terminal)
    (hγ : m.table.cfg.Path (γ ++ f.symbols.map L.sym) (Stack.state (frames ++ stack)))
    (hleft : ∀ o p, f = .binary o → look.terminal = L.mark (.operator p) → ops.GroupsLeft o p)
    (hlength : frames.length = f.symbols.length) {v : V} {c c' : σ}
    (hact : (m.act (L.form f) (frames.reverse.map Frame.value)).run.run c = (.ok v, c'))
    (input : List (Lookahead V × Location)) :
    ∃ q place, m.table.cfg.goTo stack.state (L.sym none) = some q ∧
      m.drive (.shifted (frames ++ stack)) c ((look, here) :: input) =
        m.drive (.shifted (⟨q, v, place⟩ :: stack)) c' ((look, here) :: input) := by
  obtain ⟨i, hi, hn⟩ := h.item
  obtain ⟨q, hq, hdrive⟩ := Machine.drive_reduce c input hm.isBuilt h.path hi hn
    (L.mem_rulesOf.2 ⟨f, rfl⟩) (by simpa [L.rhs] using hlength) rfl
    (h.lookup_last hm.isBuilt hγ hleft)
  rw [Machine.perform_run, hact] at hdrive
  exact ⟨q, _, hq, hdrive⟩

theorem drive_number (hm : L.Makes node) (stack : Stack V) (t : Token V) (look : Lookahead V)
    (here : Location) (h : L.Awaits γ stack.state look.terminal) (c : σ)
    (input : List (Lookahead V × Location)) :
    ∃ q place, m.table.cfg.goTo stack.state (L.sym none) = some q ∧
      m.drive (.shifted stack) c (ahead (L.mark .number, t) :: (look, here) :: input) =
        m.drive (.shifted (⟨q, t.value, place⟩ :: stack)) c ((look, here) :: input) := by
  obtain ⟨q₁, hq₁, hshift⟩ := h.lookup_first hm.isBuilt .number
  obtain ⟨q, place, hq, hdrive⟩ := drive_form .number [⟨q₁, t.value, t.location⟩] hm h
    (h.path.snoc hq₁) nofun rfl (hm.number t.value c) input
  refine ⟨q, place, hq, ?_⟩
  rw [← hdrive]
  exact Machine.drive_of_ended (Machine.step_shift hshift)

theorem reads_number (hm : L.Makes node) (v : V) : L.Reads [(.number, some v)] v none := by
  intro γ stack look here h _ _ leaves hleaves c input
  obtain ⟨t, _, rfl, hvalue, hnil⟩ := L.exists_of_leaf hleaves
  obtain rfl := List.forall₂_nil_right_iff.1 hnil
  obtain rfl : t.value = v := hvalue v rfl
  obtain ⟨q, place, hq, hdrive⟩ := drive_number hm stack t look here h c input
  exact ⟨q, place, c, hq, hdrive⟩

theorem Reads.enclose (hm : L.Makes node) (hw : L.Reads w value top?) :
    L.Reads (Expression.enclose w) value none := by
  intro γ stack look here h _ _ leaves hleaves c input
  obtain ⟨t₀, _, rfl, -, hrest⟩ := L.exists_of_leaf hleaves
  obtain ⟨inner, _, rfl, hinner, hlast⟩ := exists_append_of_forall₂ hrest
  obtain ⟨t₂, _, rfl, -, hnil⟩ := L.exists_of_leaf hlast
  obtain rfl := List.forall₂_nil_right_iff.1 hnil
  obtain ⟨q₀, hq₀, hopening⟩ := h.lookup_first hm.isBuilt .opening
  obtain ⟨q₁, place₁, c', hq₁, hdrive₁⟩ := hw _ (⟨q₀, t₀.value, t₀.location⟩ :: stack)
    (.token (L.mark .closing) t₂.value) t₂.location (h.inner hq₀)
    (fun o p _ hlast => by simp [L.sym_injective.eq_iff] at hlast)
    (fun o _ p hp => by cases L.mark_injective hp) inner hinner c ((look, here) :: input)
  obtain ⟨q₂, hq₂, hclosing⟩ := h.lookup_closing hm.isBuilt hq₀ hq₁
  have hpath : m.table.cfg.Path (γ ++ Form.bracketed.symbols.map L.sym) q₂ := by
    simpa [Form.symbols] using ((h.path.snoc hq₀).snoc hq₁).snoc hq₂
  obtain ⟨q, place, hq, hdrive⟩ := drive_form .bracketed
    [⟨q₂, t₂.value, t₂.location⟩, ⟨q₁, value, place₁⟩, ⟨q₀, t₀.value, t₀.location⟩] hm h
    hpath (by simp) rfl (hm.bracketed t₀.value value t₂.value c') input
  refine ⟨q, place, c', hq, ?_⟩
  calc
    _ = m.drive (.shifted (⟨q₀, t₀.value, t₀.location⟩ :: stack)) c
          (inner.map ahead ++ (.token (L.mark .closing) t₂.value, t₂.location) ::
            (look, here) :: input) := by
        simpa [ahead] using Machine.drive_of_ended (Machine.step_shift hopening)
    _ = m.drive (.shifted (⟨q₁, value, place₁⟩ :: ⟨q₀, t₀.value, t₀.location⟩ :: stack)) c'
          ((.token (L.mark .closing) t₂.value, t₂.location) :: (look, here) :: input) := hdrive₁
    _ = m.drive (.shifted (⟨q₂, t₂.value, t₂.location⟩ :: ⟨q₁, value, place₁⟩ ::
          ⟨q₀, t₀.value, t₀.location⟩ :: stack)) c' ((look, here) :: input) :=
        Machine.drive_of_ended (Machine.step_shift hclosing)
    _ = _ := hdrive

theorem Reads.binary (hm : L.Makes node) {o : ops.Operator} {w₁ w₂ : Expression.Writing ops V}
    {a b : V} {p? q? : Option ops.Operator} (hw₁ : L.Reads w₁ a p?) (hw₂ : L.Reads w₂ b q?)
    (hp : ∀ p ∈ p?, ops.GroupsLeft p o) (hq : ∀ q ∈ q?, ops.GroupsRight o q) :
    L.Reads (w₁ ++ (.operator o, none) :: w₂) (node o a b) (some o) := by
  intro γ stack look here h hbefore hafter leaves hleaves c input
  obtain ⟨left, _, rfl, hleft, hrest⟩ := exists_append_of_forall₂ hleaves
  obtain ⟨t, right, rfl, -, hright⟩ := L.exists_of_leaf hrest
  obtain ⟨q₀, place₀, c₀, hq₀, hdrive₀⟩ := hw₁ γ stack (.token (L.mark (.operator o)) t.value)
    t.location (h.left o)
    (fun o' p hmem hlast => (hbefore o' o rfl hlast).of_groupsLeft (hp p hmem))
    (fun p hmem o' ho' => by cases L.mark_injective ho'; exact hp p hmem) left hleft c
    (right.map ahead ++ (look, here) :: input)
  obtain ⟨q₁, hq₁, hoperator⟩ := h.lookup_operator (p := o) hm.isBuilt hq₀
    fun o' hlast => hbefore o' o rfl hlast
  obtain ⟨q₂, place₂, c₂, hq₂, hdrive₂⟩ := hw₂ _
    (⟨q₁, t.value, t.location⟩ :: ⟨q₀, a, place₀⟩ :: stack) look here (h.right o hq₀ hq₁)
    (fun o' p hmem hlast => by
      obtain rfl : o = o' := by simpa [L.sym_injective.eq_iff] using hlast
      exact hq p hmem)
    (fun p hmem p' hp' => (hafter o rfl p' hp').of_groupsRight (hq p hmem)) right hright c₀ input
  obtain ⟨c', hact⟩ := hm.binary o a t.value b c₂
  have hpath : m.table.cfg.Path (γ ++ (Form.binary o).symbols.map L.sym) q₂ := by
    simpa [Form.symbols] using ((h.path.snoc hq₀).snoc hq₁).snoc hq₂
  obtain ⟨q, place, hgoto, hdrive⟩ := drive_form (.binary o)
    [⟨q₂, b, place₂⟩, ⟨q₁, t.value, t.location⟩, ⟨q₀, a, place₀⟩] hm h hpath
    (fun o' p' ho' hp' => by cases ho'; exact hafter o rfl p' hp') rfl hact input
  refine ⟨q, place, c', hgoto, ?_⟩
  calc
    _ = m.drive (.shifted (⟨q₀, a, place₀⟩ :: stack)) c₀
          ((.token (L.mark (.operator o)) t.value, t.location) ::
            (right.map ahead ++ (look, here) :: input)) := by
        simpa [ahead] using hdrive₀
    _ = m.drive (.shifted (⟨q₁, t.value, t.location⟩ :: ⟨q₀, a, place₀⟩ :: stack)) c₀
          (right.map ahead ++ (look, here) :: input) :=
        Machine.drive_of_ended (Machine.step_shift hoperator)
    _ = _ := hdrive₂.trans hdrive

theorem Reads.operand (hm : L.Makes node) (side : Associativity) (o : ops.Operator)
    {e : Expression ops V} (hw : L.Reads w value e.top?) :
    ∃ top?, L.Reads (e.operand side o w) value top? ∧
      ∀ p ∈ top?, ¬ ops.NeedsBrackets side o p := by
  unfold Expression.operand
  split
  · exact ⟨none, hw.enclose hm, nofun⟩
  · next hnone =>
    push Not at hnone
    exact ⟨e.top?, hw, hnone⟩

/-- The writing of an expression is read as the expression. -/
theorem reads_print (hm : L.Makes node) (e : Expression ops V) :
    L.Reads e.print (e.fold node) e.top? := by
  induction e with
  | number v => exact reads_number hm v
  | binary o l r ihl ihr =>
    obtain ⟨p?, hl, hp⟩ := ihl.operand hm .left o
    obtain ⟨q?, hr, hq⟩ := ihr.operand hm .right o
    exact hl.binary hm hr (fun p hmem => groupsLeft_of_not_needsBrackets (hp p hmem))
      fun q hmem => groupsRight_of_not_needsBrackets (hq q hmem)

/-- The tokens of a writing with the numbers of their terminals. -/
theorem exists_leaves {ts : List (Token V)} (hts : Spells ts w) :
    ∃ leaves, leaves.map (·.2) = ts ∧ Parser.Named m leaves ∧ List.Forall₂ L.Leaf leaves w := by
  induction hts with
  | nil => exact ⟨[], rfl, nofun, .nil⟩
  | @cons t x ts w hx _ ih =>
    obtain ⟨leaves, rfl, hnamed, hleaves⟩ := ih
    refine ⟨(L.mark x.1, t) :: leaves, rfl, fun y hy => ?_, .cons ⟨rfl, hx.2⟩ hleaves⟩
    rcases List.mem_cons.1 hy with rfl | hy
    · exact ⟨hx.1 ▸ L.terminal? x.1, Nat.ne_of_gt (L.mark_pos x.1)⟩
    · exact hnamed y hy

/-- What an expression is written as parses to the expression. -/
theorem parse_print (hm : L.Makes node) (e : Expression ops V) {ts : List (Token V)}
    (hts : Spells ts e.print) (p : Parser σ V) :
    ∃ c, p.parse m ts = some (.ok (e.fold node), { context := c }) := by
  obtain ⟨leaves, rfl, hnamed, hleaves⟩ := L.exists_leaves (m := m) hts
  obtain ⟨q, place, c, hq, hdrive⟩ := L.reads_print hm e [] [] .endOfInput
    (endOf {} (leaves.map (·.2))) awaits_start (fun o p _ hlast => by cases hlast)
    (fun o _ p hp => absurd (L.mark_pos (.operator p)) (by simp [← hp, Lookahead.terminal])) leaves
    hleaves p.context []
  have haccept : m.table.lookup q 0 = .accept :=
    lookup_accept (L := L) hm.isBuilt (Cfg.Path.nil.snoc hq)
  have hend : m.drive (.shifted [⟨q, e.fold node, place⟩]) c
      [(.endOfInput, endOf {} (leaves.map (·.2)))] = some (.ok (.accepted (e.fold node) []), c) :=
    Machine.drive_of_ended (Machine.step_accept haccept)
  refine ⟨c, ?_⟩
  rw [Parser.parse_eq_drive hm.isBuilt hnamed, hdrive, hend]
  rfl

/-- Where an operand is awaited, the second of two operators that do not associate is an error. -/
theorem drive_nonassoc (hm : L.Makes node) {o₁ o₂ : ops.Operator} (stack : Stack V)
    (h : L.Awaits γ stack.state (L.mark (.operator o₂)))
    (hbefore : ∀ o, γ.getLast? = some (L.sym (some (.operator o))) → ops.GroupsRight o o₁)
    (hlevel : ops.level o₁ = ops.level o₂) (hnonassoc : ops.associativity o₂ = .nonassoc)
    (a x b y : Token V) (c : σ) (input : List (Lookahead V × Location)) :
    ∃ expected, m.drive (.shifted stack) c (ahead (L.mark .number, a) ::
        ahead (L.mark (.operator o₁), x) :: ahead (L.mark .number, b) ::
        ahead (L.mark (.operator o₂), y) :: input) =
      some (.error (.unexpected y.location o₂.1 expected), c) := by
  obtain ⟨q₀, place₀, hq₀, hdrive₀⟩ := drive_number hm stack a
    (.token (L.mark (.operator o₁)) x.value) x.location (h.left o₁) c
    (ahead (L.mark .number, b) :: ahead (L.mark (.operator o₂), y) :: input)
  obtain ⟨q₁, hq₁, hoperator⟩ := h.lookup_operator hm.isBuilt hq₀ hbefore
  obtain ⟨q₂, place₂, hq₂, hdrive₂⟩ := drive_number hm
    (⟨q₁, x.value, x.location⟩ :: ⟨q₀, a.value, place₀⟩ :: stack) b
    (.token (L.mark (.operator o₂)) y.value) y.location (h.right o₁ hq₀ hq₁) c input
  have herror : m.table.lookup q₂ (L.mark (.operator o₂)) = .error :=
    h.lookup_nonassoc hm.isBuilt hq₀ hq₁ hq₂ hlevel hnonassoc
  have hname : m.table.grammar.terminalName (L.mark (.operator o₂)) = o₂.1 :=
    Grammar.terminalName_of_terminal? (L.terminal? (.operator o₂))
  refine ⟨m.table.expectedNames q₂, ?_⟩
  calc
    _ = m.drive (.shifted (⟨q₀, a.value, place₀⟩ :: stack)) c
          (ahead (L.mark (.operator o₁), x) :: ahead (L.mark .number, b) ::
            ahead (L.mark (.operator o₂), y) :: input) := hdrive₀
    _ = m.drive (.shifted (⟨q₁, x.value, x.location⟩ :: ⟨q₀, a.value, place₀⟩ :: stack)) c
          (ahead (L.mark .number, b) :: ahead (L.mark (.operator o₂), y) :: input) :=
        Machine.drive_of_ended (Machine.step_shift hoperator)
    _ = _ := hdrive₂
    _ = some (.error (.unexpected y.location
          (m.table.grammar.terminalName (L.mark (.operator o₂))) (m.table.expectedNames q₂)), c) :=
        Machine.drive_of_error (Machine.step_error herror)
    _ = some (.error (.unexpected y.location o₂.1 (m.table.expectedNames q₂)), c) := by rw [hname]

/-- Operators of one band that do not associate cannot follow each other. -/
theorem parse_nonassoc (hm : L.Makes node) {o₁ o₂ : ops.Operator}
    (hlevel : ops.level o₁ = ops.level o₂) (hnonassoc : ops.associativity o₁ = .nonassoc)
    {a x b y z : Token V}
    (hts : Spells [a, x, b, y, z] [(.number, none), (.operator o₁, none), (.number, none),
      (.operator o₂, none), (.number, none)]) (p : Parser σ V) :
    ∃ expected, p.parse m [a, x, b, y, z] =
      some (.error (.unexpected y.location o₂.1 expected), p.reset) := by
  obtain ⟨leaves, hmap, hnamed, hleaves⟩ := L.exists_leaves (m := m) hts
  obtain ⟨a, _, rfl, -, hleaves⟩ := L.exists_of_leaf hleaves
  obtain ⟨x, _, rfl, -, hleaves⟩ := L.exists_of_leaf hleaves
  obtain ⟨b, _, rfl, -, hleaves⟩ := L.exists_of_leaf hleaves
  obtain ⟨y, rest, rfl, -, -⟩ := L.exists_of_leaf hleaves
  obtain ⟨rfl, rfl, rfl, rfl, -⟩ : _ ∧ _ ∧ _ ∧ _ ∧ _ := by simpa using hmap
  rw [← hmap, Parser.parse_eq_drive hm.isBuilt hnamed]
  have hstart : L.Awaits [] 0 (L.mark (.operator o₂)) := awaits_start.left o₂
  obtain ⟨expected, hdrive⟩ := drive_nonassoc hm [] hstart nofun hlevel
    ((ops.associativity_eq hlevel).symm.trans hnonassoc) a x b y p.context
    (rest.map ahead ++ [(Lookahead.endOfInput, _)])
  refine ⟨expected, ?_⟩
  exact congrArg (Option.map Parser.outcome) hdrive

end Reading

end Operators.Layout
end Lalr
