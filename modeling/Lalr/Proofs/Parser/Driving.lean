import Lalr.Proofs.Parser.Forest
import Lalr.Proofs.Table.Cells

/-!
Where no cell has more than one candidate, the machine is driven by what is derived: over the leaves
of a forest it does just what running the forest does.
-/

namespace Lalr

variable {ν σ V : Type}

def ahead (x : Nat × Token V) : Lookahead V × Location := (.token x.1 x.2.value, x.2.location)

namespace Machine

/-- Takes lookaheads one by one until one of them fails. -/
def drive (m : Machine ν σ V) (e : Ending V) (context : σ) :
    List (Lookahead V × Location) → Option (Except ParseError (Ending V) × σ)
  | [] => some (.ok e, context)
  | (ahead, here) :: input => do
    match ← m.advance ahead here e.stack context with
    | (.ok e, context) => m.drive e context input
    | (.error e, context) => return (.error e, context)

variable {m : Machine ν σ V} {stack stack' : Stack V} {c c' : σ} {look : Lookahead V}
  {here : Location} {input : List (Lookahead V × Location)}

theorem advance_eq (m : Machine ν σ V) (look : Lookahead V) (here : Location) (stack : Stack V)
    (c : σ) :
    m.advance look here stack c = match (m.step stack look here).run.run c with
      | (.ok (.reduced stack), c) => m.advance look here stack c
      | (.ok (.ended ending), c) => some (.ok ending, c)
      | (.error e, c) => some (.error e, c) := by
  rw [advance, Turn.advance]
  rfl

theorem drive_of_reduced (h : (m.step stack look here).run.run c = (.ok (.reduced stack'), c')) :
    m.drive (.shifted stack) c ((look, here) :: input) =
      m.drive (.shifted stack') c' ((look, here) :: input) := by
  have hadvance : m.advance look here stack c = m.advance look here stack' c' := by
    rw [advance_eq, h]
  simp only [drive, Ending.stack, hadvance]

theorem drive_of_error {e : ParseError} (h : (m.step stack look here).run.run c = (.error e, c')) :
    m.drive (.shifted stack) c ((look, here) :: input) = some (.error e, c') := by
  have hadvance : m.advance look here stack c = some (.error e, c') := by rw [advance_eq, h]
  simp only [drive, Ending.stack, hadvance]
  rfl

theorem drive_of_ended {e : Ending V}
    (h : (m.step stack look here).run.run c = (.ok (.ended e), c')) :
    m.drive (.shifted stack) c ((look, here) :: input) = m.drive e c' input := by
  have hadvance : m.advance look here stack c = some (.ok e, c') := by rw [advance_eq, h]
  simp only [drive, Ending.stack, hadvance]
  rfl

theorem drive_singleton (e : Ending V) (c : σ) :
    m.drive e c [(look, here)] = m.advance look here e.stack c := by
  rw [drive]
  rcases m.advance look here e.stack c with _ | ⟨_ | _, _⟩ <;> rfl

theorem drive_append (e : Ending V) (c : σ) (input' : List (Lookahead V × Location)) :
    m.drive e c (input ++ input') = (do
      match ← m.drive e c input with
      | (.ok e, c) => m.drive e c input'
      | (.error e, c) => return (.error e, c)) := by
  induction input generalizing e c with
  | nil => rfl
  | cons x input ih =>
    simp only [List.cons_append, drive]
    rcases m.advance x.1 x.2 e.stack c with _ | ⟨e' | e', c'⟩
    · rfl
    · rfl
    · exact ih e' c'

end Machine

namespace Table

theorem lookup_eq (t : Table ν) (q a : Nat) : t.lookup q a =
    if t.move q a = .error then ((t.grammar.fallback? a).map (t.move q)).getD .error
    else t.move q a := by
  unfold lookup
  cases t.move q a <;> cases t.grammar.fallback? a <;> rfl

theorem lookup_of_move {t : Table ν} {q a : Nat} (h : t.move q a ≠ .error) :
    t.lookup q a = t.move q a := by
  rw [lookup_eq, if_neg h]

theorem lookup_of_fallback?_none {t : Table ν} {q a : Nat} (h : t.grammar.fallback? a = none) :
    t.lookup q a = t.move q a := by
  rw [lookup_eq, h]
  split
  · next herror => exact herror.symm
  · rfl

end Table

namespace Table.IsBuilt

variable {t : Table ν} {q a : Nat}

theorem lookup_eq (h : t.IsBuilt) (hone : t.Unambiguous) {move : Move}
    (hmove : move ∈ t.candidates q a) : t.lookup q a = move := by
  have heq := h.move_eq_of_mem_candidates hone hmove
  have hne := not_error_of_mem_candidates hmove
  rw [Table.lookup_of_move (heq ▸ hne), heq]

theorem lookup_shift (h : t.IsBuilt) (hone : t.Unambiguous) {q' : Nat}
    (hq : t.cfg.goTo q (.terminal a) = some q') : t.lookup q a = .shift q' :=
  h.lookup_eq hone (h.shift_mem_candidates_iff.2 hq)

theorem lookup_reduce (h : t.IsBuilt) (hone : t.Unambiguous) {γ : List Sym} {r : Nat} (hr : r ≠ 0)
    (hpath : t.cfg.Path γ q) (ha : t.cfg.LookaheadAfter γ (t.cfg.finished r) a) :
    t.lookup q a = .reduce r := by
  have hlookup := h.lookup_eq hone (h.reduceBy_mem_candidates hpath ha)
  rwa [Move.reduceBy, if_neg hr] at hlookup

theorem lookup_accept (h : t.IsBuilt) (hone : t.Unambiguous)
    (hpath : t.cfg.Path [.nonterminal t.grammar.start] q) : t.lookup q 0 = .accept := by
  have ha : t.cfg.LookaheadAfter [.nonterminal t.grammar.start] (t.cfg.finished 0) 0 := by
    have hfinished := Cfg.LookaheadAfter.start (g := t.cfg).finished
    rwa [h.wellFormed.cfg.rhs_zero] at hfinished
  have hlookup := h.lookup_eq hone (h.reduceBy_mem_candidates hpath ha)
  rwa [Move.reduceBy, if_pos rfl] at hlookup

end Table.IsBuilt

namespace Machine

variable {m : Machine ν σ V} {stack : Stack V} {c : σ} {look : Lookahead V}
  {here : Location} {γ : List Sym}

theorem reduce_run (hm : m.table.IsBuilt) {r n q k : Nat} (hr : r ∈ m.table.cfg.rulesOf n)
    (hk : (m.table.cfg.rhs r).length = k)
    (hq : m.table.cfg.goTo (Stack.state (stack.drop k)) (.nonterminal n) = some q)
    {place : Location} (hplace : ((stack.take k).getLast?.map Frame.location).getD here = place) :
    (m.reduce stack r here).run.run c =
      match (m.perform r ((stack.take k).reverse.map Frame.value) place).run.run c with
      | (.ok v, c) => (.ok (⟨q, v, place⟩ :: stack.drop k), c)
      | (.error e, c) => (.error e, c) := by
  obtain ⟨p, hp, hprule⟩ := Table.IsBuilt.production?_eq_some (Cfg.lt_size_of_mem_rulesOf hr)
  obtain ⟨rule, hrule, hlhs⟩ := Cfg.mem_rulesOf_iff.1 hr
  rw [hprule, Option.some.injEq] at hrule
  subst hrule hlhs hk hplace
  have hgoto : m.table.goto? (Stack.state (stack.drop p.rule.rhs.length)) p.rule.lhs = some q := by
    rw [hm.goto?_eq, ← Cfg.rhs_eq hprule, hq]
  simp only [reduce, hp]
  rw [Cfg.rhs_eq hprule]
  generalize hplace : ((stack.take p.rule.rhs.length).getLast?.map Frame.location).getD here = place
  rcases hperform : (m.perform r ((stack.take p.rule.rhs.length).reverse.map Frame.value)
    place).run.run c with ⟨e | v, c'⟩
  · rw [Parsing.run_bind_of_error hperform]
  · rw [Parsing.run_bind_of_ok hperform]
    simp only [hgoto]
    rfl

theorem step_shift {a q : Nat} {v : V} (h : m.table.lookup stack.state a = .shift q) :
    (m.step stack (.token a v) here).run.run c =
      (.ok (.ended (.shifted (⟨q, v, here⟩ :: stack))), c) := by
  simp only [step, Lookahead.terminal, h]
  rfl

theorem step_reduce {r : Nat} (h : m.table.lookup stack.state look.terminal = .reduce r) :
    m.step stack look here = .reduced <$> m.reduce stack r here := by
  simp only [step, h]

theorem step_error (h : m.table.lookup stack.state look.terminal = .error) :
    (m.step stack look here).run.run c =
      (.error (.unexpected here (m.table.grammar.terminalName look.terminal)
        (m.table.expectedNames stack.state)), c) := by
  simp only [step, h]
  rfl

/-- Once the right-hand side of a rule is on the stack, the next lookahead reduces it. -/
theorem drive_reduce (c : σ) (input : List (Lookahead V × Location)) (hm : m.table.IsBuilt)
    {i : Item} {n r : Nat} {frames : Stack V} {place : Location}
    (hpath : m.table.cfg.Path γ stack.state) (hi : m.table.cfg.ItemAfter γ i)
    (hn : m.table.cfg.next? i = some (.nonterminal n)) (hr : r ∈ m.table.cfg.rulesOf n)
    (hlength : frames.length = (m.table.cfg.rhs r).length)
    (hplace : (frames.getLast?.map Frame.location).getD here = place)
    (hlookup : m.table.lookup (Stack.state (frames ++ stack)) look.terminal = .reduce r) :
    ∃ q, m.table.cfg.goTo stack.state (.nonterminal n) = some q ∧
      match (m.perform r (frames.reverse.map Frame.value) place).run.run c with
      | (.ok v, c') => m.drive (.shifted (frames ++ stack)) c ((look, here) :: input) =
          m.drive (.shifted (⟨q, v, place⟩ :: stack)) c' ((look, here) :: input)
      | (.error e, c') => m.drive (.shifted (frames ++ stack)) c ((look, here) :: input) =
          some (.error e, c') := by
  obtain ⟨q, hq⟩ := Cfg.exists_goTo (hi.mem_items hm.wellFormed.cfg.size_pos hpath) hn
  have hdrop : (frames ++ stack).drop frames.length = stack := by simp
  have htake : (frames ++ stack).take frames.length = frames := by simp
  have hstep : m.step (frames ++ stack) look here =
      .reduced <$> m.reduce (frames ++ stack) r here := step_reduce hlookup
  have hreduce := reduce_run (c := c) hm hr hlength.symm (by rw [hdrop, hq])
    (by rw [htake, hplace])
  rw [htake, hdrop] at hreduce
  refine ⟨q, hq, ?_⟩
  split
  · next v c' hperform =>
    rw [hperform] at hreduce
    apply drive_of_reduced
    rw [hstep, map_eq_pure_bind, Parsing.run_bind_of_ok hreduce]
    rfl
  · next e c' hperform =>
    rw [hperform] at hreduce
    apply drive_of_error
    rw [hstep, map_eq_pure_bind, Parsing.run_bind_of_error hreduce]

/-- The parser has put frames for the symbols on the stack, with the values that running came to, or
has failed where running failed. -/
def Reads (m : Machine ν σ V) (stack : Stack V) (c : σ) (γ xs : List Sym) (place here : Location)
    (input next : List (Lookahead V × Location)) : Except ParseError (List V) × σ → Prop
  | (.ok values, c') => ∃ frames : Stack V, frames.length = xs.length ∧
      frames.reverse.map Frame.value = values ∧
      (frames.getLast?.map Frame.location).getD here = place ∧
      m.table.cfg.Path (γ ++ xs) (Stack.state (frames ++ stack)) ∧
      m.drive (.shifted stack) c (input ++ next) = m.drive (.shifted (frames ++ stack)) c' next
  | (.error e, c') => m.drive (.shifted stack) c (input ++ next) = some (.error e, c')

theorem Reads.cons {c₁ : σ} {x : Sym} {xs : List Sym} {place : Location}
    {input input' next : List (Lookahead V × Location)} {frame : Frame V}
    {result : Except ParseError (List V) × σ}
    (h : m.Reads (frame :: stack) c₁ (γ ++ [x]) xs place here input next result)
    (hdriven : m.drive (.shifted stack) c (input' ++ next) =
      m.drive (.shifted (frame :: stack)) c₁ (input ++ next)) :
    m.Reads stack c γ (x :: xs) frame.location here input' next
      (result.map (Except.map (frame.value :: ·)) id) := by
  rcases result with ⟨e | values, c'⟩
  · exact hdriven.trans h
  · obtain ⟨frames, hlength, rfl, -, hpath, hdrive⟩ := h
    refine ⟨frames ++ [frame], by simp [hlength], by simp, by simp, by simpa using hpath, ?_⟩
    rw [List.append_assoc, List.singleton_append]
    exact hdriven.trans hdrive

theorem exists_first {g : Cfg} {xs ys : List Sym} {f : Forest V} {i : Item}
    (hf : g.Derivation xs f) (ha : g.Admits γ i ys look.terminal) (here : Location)
    (input : List (Lookahead V × Location)) :
    ∃ first rest, f.leaves.map ahead ++ (look, here) :: input =
      (first, f.start here) :: rest ∧ g.Admits γ i (xs ++ ys) first.terminal := by
  have hderives := hf.yields.derives
  rw [f.start_eq]
  cases hleaves : f.leaves with
  | nil =>
    rw [hleaves] at hderives
    exact ⟨look, input, rfl, ha.of_nil hderives⟩
  | cons x leaves =>
    rw [hleaves] at hderives
    have hbegins : g.Begins xs x.1 := ⟨_, hderives⟩
    exact ⟨.token x.1 x.2.value, _, rfl, .inl (hbegins.append ys)⟩

/-- Reading the leaves of a forest does what running the forest does. -/
theorem drive_forest (hm : m.table.IsBuilt) (hone : m.table.Unambiguous) {xs : List Sym}
    {f : Forest V} (hf : m.table.cfg.Derivation xs f) {ys : List Sym} {i : Item}
    {input : List (Lookahead V × Location)}
    (hpath : m.table.cfg.Path γ stack.state) (hi : m.table.cfg.ItemAfter γ i)
    (hrest : m.table.cfg.rest i = xs ++ ys)
    (ha : m.table.cfg.Admits γ i ys look.terminal) :
    m.Reads stack c γ xs (f.start here) here (f.leaves.map ahead) ((look, here) :: input)
      ((f.run m here).run.run c) := by
  -- The children of a rule are followed by what follows the rule, so the induction is for any item
  -- and any lookahead that it admits after the symbols.
  induction hf generalizing γ stack c look here input i ys with
  | nil => exact ⟨[], rfl, rfl, rfl, by simpa using hpath, rfl⟩
  | @leaf xs f a token _ ih =>
    have hn := Cfg.next?_of_rest hrest
    have hrest' := Cfg.rest_advance_of_rest hrest
    obtain ⟨q, hq⟩ := Cfg.exists_goTo (hi.mem_items hm.wellFormed.cfg.size_pos hpath) hn
    have hshift : m.drive (.shifted stack) c
        ((Forest.leaf a token f).leaves.map ahead ++ (look, here) :: input) =
        m.drive (.shifted (⟨q, token.value, token.location⟩ :: stack)) c
          (f.leaves.map ahead ++ (look, here) :: input) :=
      drive_of_ended (step_shift (hm.lookup_shift hone hq))
    have hreads : m.Reads (⟨q, token.value, token.location⟩ :: stack) c (γ ++ [.terminal a]) xs
        (f.start here) here (f.leaves.map ahead) ((look, here) :: input)
        ((f.run m here).run.run c) :=
      ih (hpath.snoc hq) (hi.advance hn) hrest' (ha.advance hn)
    rw [Forest.run, Parsing.run_bind]
    rcases hrun : (f.run m here).run.run c with ⟨e | values, c'⟩ <;> rw [hrun] at hreads <;>
      exact hreads.cons hshift
  | @node n r xs children f hr hc hf ihc ih =>
    have hn := Cfg.next?_of_rest hrest
    have hrest' := Cfg.rest_advance_of_rest hrest
    obtain ⟨first, others, hnext, hfirst⟩ := exists_first hf ha here input
    have hla := hfirst.lookaheadAfter hi hrest hr
    have hbegin : m.table.cfg.rest ⟨r, 0⟩ = m.table.cfg.rhs r ++ [] := by
      simp [Cfg.rest]
    have hreads : m.Reads stack c γ (m.table.cfg.rhs r) (children.start (f.start here))
        (f.start here) (children.leaves.map ahead) ((first, f.start here) :: others)
        ((children.run m (f.start here)).run.run c) :=
      ihc hpath hla.itemAfter hbegin (.inr ⟨.refl [], hla⟩)
    have hleaves : (Forest.node r children f).leaves.map ahead ++ (look, here) :: input =
        children.leaves.map ahead ++ (first, f.start here) :: others := by
      rw [Forest.leaves_node, List.map_append, List.append_assoc, hnext]
    rcases hrun : (children.run m (f.start here)).run.run c with ⟨e | arguments, c₁⟩
    · rw [Forest.run, Parsing.run_bind_of_error hrun]
      rw [hrun] at hreads
      change m.drive _ _ (_ ++ _) = _
      rw [hleaves]
      exact hreads
    · rw [hrun] at hreads
      obtain ⟨frames, hlength, rfl, hplace, hpath', hdrive⟩ := hreads
      have hlookup := hm.lookup_reduce hone (hm.wellFormed.cfg.rule_ne_zero_of_next? hn hr) hpath'
        hla.finished
      obtain ⟨q, hq, hreduce⟩ := drive_reduce c₁ others hm hpath hi hn hr hlength hplace hlookup
      rcases hperform : (m.perform r (frames.reverse.map Frame.value)
        (children.start (f.start here))).run.run c₁ with ⟨e | value, c₂⟩
      · rw [Forest.run, Parsing.run_bind_of_ok hrun, Parsing.run_bind_of_error hperform]
        rw [hperform] at hreduce
        change m.drive _ _ (_ ++ _) = _
        rw [hleaves, hdrive, hreduce]
      · rw [Forest.run, Parsing.run_bind_of_ok hrun, Parsing.run_bind_of_ok hperform,
          Parsing.run_bind]
        rw [hperform] at hreduce
        have hreads : m.Reads (⟨q, value, children.start (f.start here)⟩ :: stack) c₂
            (γ ++ [.nonterminal n]) xs (f.start here) here (f.leaves.map ahead)
            ((look, here) :: input) ((f.run m here).run.run c₂) :=
          ih (hpath.snoc hq) (hi.advance hn) hrest' (ha.advance hn)
        have hdriven : m.drive (.shifted stack) c
            ((Forest.node r children f).leaves.map ahead ++ (look, here) :: input) =
            m.drive (.shifted (⟨q, value, children.start (f.start here)⟩ :: stack)) c₂
              (f.leaves.map ahead ++ (look, here) :: input) := by
          rw [hleaves, hdrive, hreduce, hnext]
        rcases hrun' : (f.run m here).run.run c₂ with ⟨e | values, c₃⟩ <;>
          rw [hrun'] at hreads <;> exact hreads.cons hdriven

theorem step_accept {frame : Frame V} (h : m.table.lookup frame.state 0 = .accept) :
    (m.step [frame] .endOfInput here).run.run c =
      (.ok (.ended (.accepted frame.value [])), c) := by
  simp only [step, Stack.state, Lookahead.terminal, h]
  rfl

/-- A sentence is read up to its end and accepted with the value of its tree, unless an action
fails. -/
theorem drive_sentence (hm : m.table.IsBuilt) (hone : m.table.Unambiguous) {f : Forest V}
    (hf : m.table.cfg.Derivation [.nonterminal m.table.grammar.start] f)
    (c : σ) (here : Location) :
    (∃ v c', (f.run m here).run.run c = (.ok [v], c') ∧
      m.drive (.shifted []) c (f.leaves.map ahead ++ [(.endOfInput, here)]) =
        some (.ok (.accepted v []), c')) ∨
    ∃ e c', (f.run m here).run.run c = (.error e, c') ∧
      m.drive (.shifted []) c (f.leaves.map ahead ++ [(.endOfInput, here)]) =
        some (.error e, c') := by
  have hwf := hm.wellFormed.cfg
  have hrest : m.table.cfg.rest .start = [.nonterminal m.table.grammar.start] ++ [] := by
    simpa [Cfg.rest, Item.start] using hwf.rhs_zero
  have hreads : m.Reads [] c [] [.nonterminal m.table.grammar.start] (f.start here) here
      (f.leaves.map ahead) [(.endOfInput, here)] ((f.run m here).run.run c) :=
    drive_forest hm hone hf .nil .start hrest (.inr ⟨.refl [], .start⟩)
  rcases hrun : (f.run m here).run.run c with ⟨e | values, c'⟩
  · rw [hrun] at hreads
    exact .inr ⟨e, c', rfl, hreads⟩
  · rw [hrun] at hreads
    obtain ⟨frames, hlength, rfl, -, hpath, hdrive⟩ := hreads
    obtain ⟨frame, rfl⟩ := List.length_eq_one_iff.1 hlength
    refine .inl ⟨frame.value, c', rfl, ?_⟩
    rw [hdrive, List.append_nil, drive_of_ended (step_accept (hm.lookup_accept hone hpath))]
    rfl

end Machine

end Lalr
