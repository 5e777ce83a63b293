import Lalr.Proofs.Parser.Sentences
import Lalr.Proofs.Table.Reductions

/-!
Whatever the parser accepts is derived: the stack always holds the values of a forest over the
tokens that were taken, and its states are a path of the automaton along the roots.
-/

namespace Lalr

variable {ν σ V : Type}

/-- What a terminal may be taken for: itself, or its fallback. -/
def Table.CountsAs (t : Table ν) (a u : Nat) : Prop := u = a ∨ t.grammar.fallback? a = some u

theorem Table.exists_move_of_lookup (t : Table ν) (q a : Nat) :
    ∃ u, t.CountsAs a u ∧ t.move q u = t.lookup q a := by
  unfold lookup
  split
  · next u _ hu => exact ⟨u, .inr hu, rfl⟩
  · exact ⟨a, .inl rfl, rfl⟩

/-- From the first context, the roots of the forest lead to the states of the stack, and running it
leads to the values on the stack and to the second context. Trees without tokens at the end stand
at the location. -/
inductive Stack.Grown (m : Machine ν σ V) (first : σ) :
    Location → Stack V → List Sym → Forest V → σ → Prop
  | nil (here : Location) : Grown m first here [] [] .nil first
  | push {here stack γ f c c' frame x tree} (h : Grown m first frame.location stack γ f c)
      (hx : m.table.cfg.goTo stack.state x = some frame.state)
      (htree : m.table.cfg.Derivation [x] tree) (hloc : frame.location = tree.start here)
      (hrun : (tree.run m here).run.run c = (.ok [frame.value], c')) :
      Grown m first here (frame :: stack) (γ ++ [x]) (f ++ tree) c'

namespace Stack.Grown

variable {m : Machine ν σ V} {first c : σ} {here : Location} {stack : Stack V} {γ xs : List Sym}
  {f : Forest V}

theorem path (h : Grown m first here stack γ f c) : m.table.cfg.Path γ stack.state := by
  induction h with
  | nil => exact .nil
  | push _ hx _ _ _ ih => exact ih.snoc hx

theorem derivation (h : Grown m first here stack γ f c) : m.table.cfg.Derivation γ f := by
  induction h with
  | nil => exact .nil
  | push _ _ htree _ _ ih => exact ih.append htree

theorem of_nil (h : Grown m first here stack [] f c) : stack = [] ∧ f = .nil ∧ c = first := by
  generalize hγ : [] = γ at h
  cases h with
  | nil => exact ⟨rfl, rfl, rfl⟩
  | push => simp at hγ

theorem of_snoc {x : Sym} (h : Grown m first here stack (γ ++ [x]) f c) :
    ∃ frame below f' tree c', stack = frame :: below ∧ f = f' ++ tree ∧
      Grown m first frame.location below γ f' c' ∧ m.table.cfg.Derivation [x] tree ∧
      frame.location = tree.start here ∧ (tree.run m here).run.run c' = (.ok [frame.value], c) := by
  generalize hγ : γ ++ [x] = γx at h
  cases h with
  | nil => simp at hγ
  | push h hx htree hloc hrun =>
    obtain ⟨rfl, hx'⟩ := List.append_inj' hγ rfl
    cases hx'
    exact ⟨_, _, _, _, _, rfl, rfl, h, htree, hloc, hrun⟩

theorem split (h : Grown m first here stack (γ ++ xs) f c) :
    ∃ f' trees c', f = f' ++ trees ∧
      Grown m first (trees.start here) (stack.drop xs.length) γ f' c' ∧
      m.table.cfg.Derivation xs trees ∧
      (trees.run m here).run.run c' =
        (.ok ((stack.take xs.length).reverse.map Frame.value), c) ∧
      ((stack.take xs.length).getLast?.map Frame.location).getD here = trees.start here := by
  induction xs using List.reverseRecOn generalizing here stack f c with
  | nil => exact ⟨f, .nil, c, by simp, by simpa using h, .nil, rfl, rfl⟩
  | append_singleton xs x ih =>
    rw [← List.append_assoc] at h
    obtain ⟨frame, below, f', tree, c', rfl, rfl, h, htree, hloc, hrun⟩ := h.of_snoc
    obtain ⟨f₁, trees, c₁, rfl, h, htrees, hruns, hlocs⟩ := ih h
    refine ⟨f₁, trees ++ tree, c₁, by simp, ?_, htrees.append htree, ?_, ?_⟩
    · simpa [← hloc] using h
    · rw [Forest.run_append, ← hloc, Parsing.run_bind_of_ok hruns, Parsing.run_bind_of_ok hrun,
        Parsing.run_pure]
      simp
    · rw [Forest.start_append, ← hloc, ← hlocs, List.length_append, List.length_singleton,
        List.take_succ_cons, List.getLast?_cons]
      cases (below.take xs.length).getLast? <;> rfl

theorem run (h : Grown m first here stack γ f c) :
    (f.run m here).run.run first = (.ok (stack.reverse.map Frame.value), c) := by
  induction h with
  | nil => rfl
  | push _ _ _ hloc hrun ih =>
    rw [Forest.run_append, ← hloc, Parsing.run_bind_of_ok ih, Parsing.run_bind_of_ok hrun,
      Parsing.run_pure]
    simp

end Stack.Grown

/-- What a lookahead can lead to from a forest over some tokens. -/
inductive Machine.Advanced (m : Machine ν σ V) (first : σ) (ahead : Lookahead V) (here : Location)
    (tokens : List (Nat × Token V)) : Except ParseError (Ending V) → σ → Prop
  | shifted {stack γ f c u q v} (h : Stack.Grown m first here stack γ f c) (hf : f.leaves = tokens)
      (hahead : ∃ a, ahead = .token a v ∧ m.table.CountsAs a u)
      (hq : m.table.cfg.goTo stack.state (.terminal u) = some q) :
      Advanced m first ahead here tokens (.ok (.shifted (⟨q, v, here⟩ :: stack))) c
  | accepted {frame f c}
      (h : Stack.Grown m first here [frame] [.nonterminal m.table.grammar.start] f c)
      (hf : f.leaves = tokens) (hahead : ahead.terminal = 0) :
      Advanced m first ahead here tokens (.ok (.accepted frame.value [])) c
  | unexpected {stack γ f c} (h : Stack.Grown m first here stack γ f c) (hf : f.leaves = tokens)
      (hlookup : m.table.lookup stack.state ahead.terminal = .error) :
      Advanced m first ahead here tokens (.error (.unexpected here
        (m.table.grammar.terminalName ahead.terminal) (m.table.expectedNames stack.state))) c
  | failed {r values cause c c'} (place : Location)
      (hact : (m.act r values).run.run c = (.error cause, c')) :
      Advanced m first ahead here tokens (.error (.action (m.table.ruleText r) place cause)) c'

namespace Machine

variable {m : Machine ν σ V} {first c : σ} {ahead : Lookahead V} {here : Location}
  {stack : Stack V} {γ : List Sym} {f : Forest V}

/-- A rule that can be reduced has its right-hand side on the stack, and below it is a state that
goes on with its left-hand side. -/
theorem reduce_sound (hm : m.table.IsBuilt) (h : Stack.Grown m first here stack γ f c) {r a : Nat}
    (hr : m.table.move stack.state a = .reduce r) :
    (∃ stack' γ' f' c', (m.reduce stack r here).run.run c = (.ok stack', c') ∧
        Stack.Grown m first here stack' γ' f' c' ∧ f'.leaves = f.leaves ∧
        m.table.Reduces a γ γ') ∨
      ∃ place cause values c₁ c', (m.reduce stack r here).run.run c =
          (.error (.action (m.table.ruleText r) place cause), c') ∧
        (m.act r values).run.run c₁ = (.error cause, c') := by
  obtain ⟨hne, hlt, hi, -⟩ := hm.of_move_reduce hr
  have hsize := hm.wellFormed.cfg.size_pos
  have hpath := h.path
  obtain ⟨γ', i, n, rfl, hwaits, hn, hrule⟩ :=
    (Cfg.itemAfter_of_mem hsize hpath hi).of_finished hne
  obtain ⟨f', trees, c₁, rfl, hbelow, htrees, hruns, hplace⟩ := h.split
  obtain ⟨q, hq⟩ := Cfg.exists_goTo (hwaits.mem_items hsize hbelow.path) hn
  rw [reduce_run hm hrule rfl hq hplace]
  split
  · next v c' hperform =>
    refine .inl ⟨_, γ' ++ [.nonterminal n], f' ++ .node r trees .nil, c', rfl, ?_, by simp,
      .rule hpath hr hrule⟩
    refine .push hbelow hq (.node hrule htrees .nil) rfl ?_
    rw [Forest.run, Forest.start_nil, Parsing.run_bind_of_ok hruns,
      Parsing.run_bind_of_ok hperform]
    rfl
  · next e c' hperform =>
    obtain ⟨cause, rfl, hact⟩ := m.perform_error hperform
    exact .inr ⟨_, cause, _, _, c', rfl, hact⟩

theorem step_sound (ahead : Lookahead V) (hm : m.table.IsBuilt)
    (h : Stack.Grown m first here stack γ f c) :
    (∃ stack' γ' f' c' u, (m.step stack ahead here).run.run c = (.ok (.reduced stack'), c') ∧
        Stack.Grown m first here stack' γ' f' c' ∧ f'.leaves = f.leaves ∧
        m.table.CountsAs ahead.terminal u ∧ m.table.Reduces u γ γ') ∨
      (∃ ending c', (m.step stack ahead here).run.run c = (.ok (.ended ending), c') ∧
        m.Advanced first ahead here f.leaves (.ok ending) c') ∨
      ∃ e c', (m.step stack ahead here).run.run c = (.error e, c') ∧
        m.Advanced first ahead here f.leaves (.error e) c' := by
  have hwf := hm.wellFormed
  have hsize := hwf.cfg.size_pos
  obtain ⟨u, hu, hmove⟩ := m.table.exists_move_of_lookup stack.state ahead.terminal
  unfold step
  split
  · next q hlookup =>
    rw [hlookup] at hmove
    have hq := hm.of_move_shift hmove
    cases ahead with
    | token a v => exact .inr (.inl ⟨_, c, rfl, .shifted h rfl ⟨a, rfl, hu⟩ hq⟩)
    | endOfInput =>
      -- The end has no fallback, and it is never shifted.
      have hpos : 0 < u := (hwf.cfg.ordinary_of_goTo hq).1
      rcases hu with rfl | hu
      · exact absurd hpos (Nat.lt_irrefl 0)
      · rw [Lookahead.terminal, hwf.fallback_zero] at hu
        cases hu
  · next r hlookup =>
    rw [hlookup] at hmove
    rcases reduce_sound hm h hmove with ⟨stack', γ', f', c', hreduce, h', hf, hγ⟩ |
      ⟨place, cause, values, c₁, c', hreduce, hact⟩
    · refine .inl ⟨stack', γ', f', c', u, ?_, h', hf, hu, hγ⟩
      rw [map_eq_pure_bind, Parsing.run_bind_of_ok hreduce]
      rfl
    · refine .inr (.inr ⟨_, c', ?_, .failed place hact⟩)
      rw [map_eq_pure_bind, Parsing.run_bind_of_error hreduce]
  · next hlookup =>
    -- Nothing but the end counts as the end, and only a sentence makes a whole input complete.
    rw [hlookup] at hmove
    obtain ⟨rfl, hi⟩ := hm.of_move_accept hmove
    have hzero : ahead.terminal = 0 := by
      rcases hu with hu | hu
      · exact hu.symm
      · exact absurd (hwf.fallback hu).1 (Nat.lt_irrefl 0)
    obtain rfl := hwf.cfg.of_itemAfter_accepting (Cfg.itemAfter_of_mem hsize h.path hi)
    obtain ⟨frame, below, f', tree, c', rfl, rfl, hbelow, -⟩ := h.of_snoc (γ := [])
    obtain ⟨rfl, -, -⟩ := hbelow.of_nil
    exact .inr (.inl ⟨_, c, rfl, .accepted h rfl hzero⟩)
  · next hlookup => exact .inr (.inr ⟨_, c, rfl, .unexpected h rfl hlookup⟩)

/-- Whatever a lookahead leads to, it is by steps that keep the forest over the same tokens. -/
theorem advance_sound (hm : m.table.IsBuilt) (h : Stack.Grown m first here stack γ f c)
    {result : Except ParseError (Ending V) × σ}
    (hresult : m.advance ahead here stack c = some result) :
    m.Advanced first ahead here f.leaves result.1 result.2 := by
  refine Turn.advance.partial_correctness m
    (fun turn c result => ∀ γ f, Stack.Grown m first turn.here turn.stack γ f c →
      m.Advanced first turn.ahead turn.here f.leaves result.1 result.2)
    (fun advance ih turn c result hstep γ f h => ?_) ⟨stack, ahead, here⟩ c result hresult γ f h
  rcases step_sound turn.ahead hm h with ⟨stack', γ', f', c', -, heq, h', hf, -⟩ |
    ⟨ending, c', heq, hend⟩ | ⟨e, c', heq, hend⟩
  · rw [heq] at hstep
    exact hf ▸ ih { turn with stack := stack' } c' result hstep γ' f' h'
  · rw [heq] at hstep
    cases hstep
    exact hend
  · rw [heq] at hstep
    cases hstep
    exact hend

/-- The lookahead leads to the result in that many moves. -/
inductive EndsAfter (m : Machine ν σ V) (ahead : Lookahead V) (here : Location) :
    Nat → Stack V → σ → Except ParseError (Ending V) → σ → Prop
  | ended {stack c ending c'}
      (h : (m.step stack ahead here).run.run c = (.ok (.ended ending), c')) :
      EndsAfter m ahead here 1 stack c (.ok ending) c'
  | failed {stack c e c'} (h : (m.step stack ahead here).run.run c = (.error e, c')) :
      EndsAfter m ahead here 1 stack c (.error e) c'
  | reduced {n stack c stack' c' result c''}
      (h : (m.step stack ahead here).run.run c = (.ok (.reduced stack'), c'))
      (hend : EndsAfter m ahead here n stack' c' result c'') :
      EndsAfter m ahead here (n + 1) stack c result c''

theorem EndsAfter.advance_eq_some {n : Nat} {c' : σ} {result : Except ParseError (Ending V)}
    (h : m.EndsAfter ahead here n stack c result c') :
    m.advance ahead here stack c = some (result, c') := by
  induction h with
  | ended h => rw [advance_eq, h]
  | failed h => rw [advance_eq, h]
  | reduced h _ ih =>
    rw [advance_eq, h]
    exact ih

/-- Where no cell has more than one candidate and there are no fallbacks, moves come to an end. -/
theorem exists_endsAfter (ahead : Lookahead V) (hm : m.table.IsBuilt) (hone : m.table.Unambiguous)
    (hfallback : ∀ a, m.table.grammar.fallback? a = none)
    (h : Stack.Grown m first here stack γ f c) :
    ∃ n result c', m.EndsAfter ahead here n stack c result c' := by
  have hhalts := Table.halts (b := ahead.terminal) hm hone γ
  induction hhalts generalizing stack f c with
  | intro γ _ ih =>
    rcases step_sound ahead hm h with ⟨stack', γ', f', c', u, heq, h', -, hu, hγ⟩ |
      ⟨ending, c', heq, -⟩ | ⟨e, c', heq, -⟩
    · obtain rfl : u = ahead.terminal := hu.resolve_right (by simp [hfallback])
      obtain ⟨n, result, c'', hend⟩ := ih γ' hγ h'
      exact ⟨n + 1, result, c'', .reduced heq hend⟩
    · exact ⟨1, _, _, .ended heq⟩
    · exact ⟨1, _, _, .failed heq⟩

theorem exists_advance (ahead : Lookahead V) (hm : m.table.IsBuilt) (hone : m.table.Unambiguous)
    (hfallback : ∀ a, m.table.grammar.fallback? a = none)
    (h : Stack.Grown m first here stack γ f c) :
    ∃ result, m.advance ahead here stack c = some result := by
  obtain ⟨n, result, c', hend⟩ := exists_endsAfter ahead hm hone hfallback h
  exact ⟨_, hend.advance_eq_some⟩

end Machine

def Table.Takes (t : Table ν) (u : Nat) (token : Token V) : Prop :=
  ∃ a, t.grammar.terminal? token.terminal = some a ∧ t.CountsAs a u

namespace Parser

variable {m : Machine ν σ V} {first : σ} {p p' : Parser σ V} {γ : List Sym} {f : Forest V}

/-- The parser has a forest on its stack, wherever the next token stands. -/
def Holds (m : Machine ν σ V) (first : σ) (p : Parser σ V) (γ : List Sym) (f : Forest V) : Prop :=
  ∀ here, Stack.Grown m first here p.stack γ f p.context

theorem Holds.nil (m : Machine ν σ V) (p : Parser σ V) (h : p.stack = []) :
    p.Holds m p.context [] .nil := by
  intro here
  rw [h]
  exact .nil here

theorem addToken_sound (hm : m.table.IsBuilt) (h : p.Holds m first γ f) {token : Token V}
    (hadd : p.addToken m token = some (.ok (), p')) :
    ∃ γ' f' u, p'.Holds m first (γ' ++ [.terminal u]) f' ∧ f'.leaves = f.leaves ++ [(u, token)] ∧
      m.table.Takes u token := by
  cases added hadd with
  | @taken a _ _ ha hne hfeed =>
    cases Machine.advance_sound hm (h token.location) hfeed with
    | @shifted stack γ' f' _ u q _ h hf hahead hq =>
      obtain ⟨a', ha', hu⟩ := hahead
      cases ha'
      refine ⟨γ', f' ++ .leaf u token .nil, u, fun here => ?_, by simp [hf], a, ha, hu⟩
      exact .push h hq (.leaf u token .nil) rfl rfl
    | accepted _ _ hzero => exact absurd hzero hne

theorem push_sound (hm : m.table.IsBuilt) (h : p.Holds m first γ f) {ts : List (Token V)}
    (hpush : p.push m ts = some (.ok (), p')) :
    ∃ γ' f' leaves, p'.Holds m first γ' f' ∧ f'.leaves = f.leaves ++ leaves ∧
      leaves.map (·.2) = ts ∧ ∀ x ∈ leaves, m.table.Takes x.1 x.2 := by
  induction ts generalizing p γ f with
  | nil =>
    cases hpush
    exact ⟨γ, f, [], h, by simp, rfl, by simp⟩
  | cons t ts ih =>
    rcases of_push_cons hpush with ⟨_, heq, -⟩ | ⟨q, hadd, hpush⟩
    · cases heq
    · obtain ⟨γ₁, f₁, u, h₁, hf₁, hu⟩ := addToken_sound hm h hadd
      obtain ⟨γ', f', leaves, h', hf', rfl, hleaves⟩ := ih h₁ hpush
      refine ⟨γ', f', (u, t) :: leaves, h', by simp [hf', hf₁], rfl, ?_⟩
      rw [List.forall_mem_cons]
      exact ⟨hu, hleaves⟩

theorem finish_sound (hm : m.table.IsBuilt) (h : p.Holds m first γ f) {here : Location} {v : V}
    (hfinish : p.finish m here = some (.ok v, p')) :
    ∃ f', m.table.cfg.Derivation [.nonterminal m.table.grammar.start] f' ∧
      f'.leaves = f.leaves ∧ (f'.run m here).run.run first = (.ok [v], p'.context) := by
  obtain ⟨⟨result, context⟩, hfeed, hfinish⟩ := Option.bind_eq_some_iff.1 hfinish
  have hadvanced := Machine.advance_sound hm (h here) hfeed
  cases hadvanced with
  | shifted _ _ hahead =>
    obtain ⟨a, ha, -⟩ := hahead
    cases ha
  | @accepted frame f' _ h hf _ =>
    cases hfinish
    exact ⟨f', h.derivation, hf, h.run⟩
  | unexpected => cases hfinish
  | failed => cases hfinish

/-- What parses is derived: there is a derivation of the start symbol over the tokens, each taken
for its own terminal or for its fallback, and the value and the context that parsing ends with are
those of running the actions of the derivation. -/
theorem exists_derivation_of_parse (hm : m.table.IsBuilt) {ts : List (Token V)} {v : V}
    (hparse : p.parse m ts = some (.ok v, p')) :
    ∃ f : Forest V, m.table.cfg.Derivation [.nonterminal m.table.grammar.start] f ∧
      f.leaves.map (·.2) = inputOf ts ∧ (∀ x ∈ f.leaves, m.table.Takes x.1 x.2) ∧
      (f.run m (endOf {} ts)).run.run p.context = (.ok [v], p'.context) := by
  rw [parse, addTokens_eq] at hparse
  obtain ⟨⟨result, q⟩, hpush, hfinish⟩ := Option.bind_eq_some_iff.1 hparse
  cases result with
  | error e => cases hfinish
  | ok u =>
    obtain ⟨γ, f, leaves, hf, hleaves, htokens, htakes⟩ :=
      push_sound hm (Holds.nil m p.reset rfl) hpush
    obtain ⟨f', hderivation, hf', hrun⟩ := finish_sound hm hf hfinish
    rw [hleaves, Forest.leaves_nil, List.nil_append] at hf'
    exact ⟨f', hderivation, by rw [hf', htokens], hf' ▸ htakes, hrun⟩

end Parser

/-- A sum that parses is derived. -/
theorem Sums.exists_derivation_of_sum :
    ∃ f : Forest Nat, table.cfg.Derivation [.nonterminal table.grammar.start] f ∧
      f.leaves.map (·.2) = inputOf ((tree 1 2).leaves.map (·.2)) ∧
      (∀ x ∈ f.leaves, table.Takes x.1 x.2) ∧
      (f.run machine (endOf {} ((tree 1 2).leaves.map (·.2)))).run.run 0 = (.ok [3], 2) :=
  Parser.exists_derivation_of_parse (m := machine) (p := { context := 0 }) isBuilt (parse_tree 1 2 _)

end Lalr
