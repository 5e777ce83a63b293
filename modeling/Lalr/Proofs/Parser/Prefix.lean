import Lalr.Proofs.Parser.Soundness

/-!
No token is taken after which the input cannot go on, and where no cell has more than one candidate,
every token is taken after which it can: an error is noticed at the first token that no sentence
goes on with.
-/

namespace Lalr

variable {ν σ V : Type}

namespace Cfg

variable {g : Cfg} {terminals start : Nat}

/-- What an item waits for can follow the symbols that lead to it. -/
theorem ItemAfter.derives (hwf : g.WellFormed terminals start) {γ : List Sym} {i : Item}
    (h : g.ItemAfter γ i) : ∃ δ, g.Derives [.nonterminal start] (γ ++ (g.rest i ++ δ)) := by
  induction h with
  | start =>
    have hrest : g.rest .start = [.nonterminal start] := by
      simpa [rest, Item.start] using hwf.rhs_zero
    exact ⟨[], by simpa [hrest] using Derives.refl [.nonterminal start]⟩
  | advance _ hx ih =>
    obtain ⟨δ, hδ⟩ := ih
    rw [next?_eq_some_iff.1 hx] at hδ
    exact ⟨δ, by simpa using hδ⟩
  | @predict γ i j _ hj ih =>
    obtain ⟨δ, hδ⟩ := ih
    obtain ⟨n, hn, hr, hd⟩ := mem_predicted_iff.1 hj
    rw [next?_eq_some_iff.1 hn] at hδ
    have hrest : g.rest j = g.rhs j.rule := by simp [rest, hd]
    refine ⟨g.rest i.advance ++ δ, hδ.trans (.single ?_)⟩
    rw [hrest]
    exact .rule γ (g.rest i.advance ++ δ) hr

theorem Path.exists_itemAfter (hwf : g.WellFormed terminals start) {γ : List Sym} {q : Nat}
    (h : g.Path γ q) : ∃ i, g.ItemAfter γ i := by
  cases h with
  | nil => exact ⟨.start, .start⟩
  | snoc h hx =>
    obtain ⟨i, hi, hnext⟩ := exists_mem_of_goTo hx
    exact ⟨i.advance, (itemAfter_of_mem hwf.size_pos h hi).advance hnext⟩

end Cfg

/-- Something that the start symbol derives begins with the terminals. -/
def Table.Viable (t : Table ν) (us : List Nat) : Prop :=
  ∃ δ, t.cfg.Derives [.nonterminal t.grammar.start] (us.map .terminal ++ δ)

theorem Stack.Grown.viable {m : Machine ν σ V} (hm : m.table.IsBuilt) {first c : σ}
    {here : Location} {stack : Stack V} {γ : List Sym} {f : Forest V}
    (h : Stack.Grown m first here stack γ f c) : m.table.Viable (f.leaves.map (·.1)) := by
  obtain ⟨i, hi⟩ := h.path.exists_itemAfter hm.wellFormed.cfg
  obtain ⟨δ, hδ⟩ := hi.derives hm.wellFormed.cfg
  have hleaves := h.derivation.yields.derives.append_append
    (Cfg.Derives.refl (m.table.cfg.rest i ++ δ))
  refine ⟨m.table.cfg.rest i ++ δ, hδ.trans ?_⟩
  simpa [Function.comp_def] using hleaves

namespace Machine

variable {m : Machine ν σ V} {stack : Stack V} {c : σ} {γ : List Sym}

def Taken (m : Machine ν σ V) (stack : Stack V) (c : σ) (input : List (Lookahead V × Location)) :
    Prop :=
  (∃ e c', m.drive (.shifted stack) c input = some (.ok e, c')) ∨
    ∃ r place cause c', m.drive (.shifted stack) c input =
      some (.error (.action (m.table.ruleText r) place cause), c')

/-- Tokens that begin what an item waits for are all taken. -/
theorem taken_of_yields (hm : m.table.IsBuilt) (hone : m.table.Unambiguous) {xs w : List Sym}
    (h : m.table.cfg.Yields xs w) {leaves : List (Nat × Token V)} {δ : List Sym}
    (hw : w = leaves.map (fun x => .terminal x.1) ++ δ) (hne : leaves ≠ []) {ys : List Sym}
    {i : Item} (hpath : m.table.cfg.Path γ stack.state)
    (hi : m.table.cfg.ItemAfter γ i) (hrest : m.table.cfg.rest i = xs ++ ys) :
    m.Taken stack c (leaves.map ahead) := by
  induction h generalizing γ stack c leaves i ys δ with
  | nil =>
    have hnil := List.append_eq_nil_iff.1 hw.symm
    exact absurd (List.map_eq_nil_iff.1 hnil.1) hne
  | @keep xs w x _ ih =>
    obtain ⟨y, leaves, rfl⟩ := List.exists_cons_of_ne_nil hne
    obtain ⟨rfl, htail⟩ := List.cons.inj hw
    have hn := Cfg.next?_of_rest hrest
    obtain ⟨q, hq⟩ := Cfg.exists_goTo (hi.mem_items hm.wellFormed.cfg.size_pos hpath) hn
    have hshift : m.drive (.shifted stack) c ((y :: leaves).map ahead) =
        m.drive (.shifted (⟨q, y.2.value, y.2.location⟩ :: stack)) c (leaves.map ahead) :=
      drive_of_ended (step_shift (hm.lookup_shift hone hq))
    by_cases hleaves : leaves = []
    · subst hleaves
      exact .inl ⟨_, c, hshift⟩
    · unfold Taken
      rw [hshift]
      exact ih htail hleaves (hpath.snoc hq) (hi.advance hn) (Cfg.rest_advance_of_rest hrest)
  | @expand n r xs u w hr hu hw' ihu ihw =>
    have hn := Cfg.next?_of_rest hrest
    have hbegin : m.table.cfg.rest ⟨r, 0⟩ = m.table.cfg.rhs r ++ [] := by
      simp [Cfg.rest]
    have hpredict : m.table.cfg.ItemAfter γ ⟨r, 0⟩ :=
      hi.predict (Cfg.mem_predicted_iff.2 ⟨n, hn, hr, rfl⟩)
    rcases List.append_eq_append_iff.1 hw with ⟨v, hv, hδ⟩ | ⟨v, hv, -⟩
    · -- The first of the tokens are all below the nonterminal, and the others come after it.
      obtain ⟨l₁, l₂, rfl, hl₁, hl₂⟩ := List.map_eq_append_iff.1 hv
      cases l₂ with
      | nil => exact ihu (δ := []) (by simpa using hl₁.symm) hne hpath hpredict hbegin
      | cons y l₂ =>
        obtain ⟨children, hchildren, rfl⟩ := hu.exists_derivation hl₁.symm
        subst hl₂
        have hbegins : m.table.cfg.Begins xs y.1 := ⟨_, (hδ ▸ hw').derives⟩
        have hreads : m.Reads stack c γ [.nonterminal n] _ y.2.location
            ((Forest.node r children .nil).leaves.map ahead)
            ((.token y.1 y.2.value, y.2.location) :: l₂.map ahead)
            (((Forest.node r children .nil).run m y.2.location).run.run c) :=
          drive_forest hm hone (.node hr hchildren .nil) hpath hi hrest
            (.inl (hbegins.append ys))
        have hmap : (children.leaves ++ y :: l₂).map ahead =
            (Forest.node r children .nil).leaves.map ahead ++
              (.token y.1 y.2.value, y.2.location) :: l₂.map ahead := by
          simp [ahead]
        unfold Taken
        rw [hmap]
        rcases hrun : ((Forest.node r children .nil).run m y.2.location).run.run c with
          ⟨e | values, c'⟩
        · rw [hrun] at hreads
          obtain ⟨r', place, cause, rfl⟩ := Forest.run_error hrun
          exact .inr ⟨r', place, cause, c', hreads⟩
        · rw [hrun] at hreads
          obtain ⟨frames, -, -, -, hpath', hdrive⟩ := hreads
          have htaken := ihw (c := c') hδ (List.cons_ne_nil y l₂) hpath' (hi.advance hn)
            (Cfg.rest_advance_of_rest hrest)
          rw [hdrive]
          exact htaken
    · exact ihu hv hne hpath hpredict hbegin

end Machine

namespace Parser

variable {m : Machine ν σ V} {p p' : Parser σ V}

def FailsInAction (m : Machine ν σ V) (p : Parser σ V) (ts : List (Token V)) : Prop :=
  ∃ r place cause p', p.push m ts = some (.error (.action (m.table.ruleText r) place cause), p')

theorem exists_act_of_push (hm : m.table.IsBuilt) {first : σ} {γ : List Sym} {f : Forest V}
    (h : p.Holds m first γ f) {ts : List (Token V)} {text : String} {place : Location}
    {cause : ActionError} (hpush : p.push m ts = some (.error (.action text place cause), p')) :
    ∃ r values c c', (m.act r values).run.run c = (.error cause, c') := by
  induction ts generalizing p γ f with
  | nil => cases hpush
  | cons t ts ih =>
    rcases of_push_cons hpush with ⟨_, heq, hadd⟩ | ⟨q, hadd, hpush⟩
    · cases heq
      cases added hadd with
      | failed _ hfeed =>
        cases Machine.advance_sound hm (h t.location) hfeed with
        | failed _ hact => exact ⟨_, _, _, _, hact⟩
    · obtain ⟨γ', f', u, h', -⟩ := addToken_sound hm h hadd
      exact ih h' hpush

theorem push_of_viable (hm : m.table.IsBuilt) (hone : m.table.Unambiguous) (hp : p.stack = [])
    {leaves : List (Nat × Token V)} (hnamed : Named m leaves)
    (h : m.table.Viable (leaves.map (·.1))) :
    (∃ p', p.push m (leaves.map (·.2)) = some (.ok (), p')) ∨
      p.FailsInAction m (leaves.map (·.2)) := by
  by_cases hne : leaves = []
  · subst hne
    exact .inl ⟨p, rfl⟩
  · obtain ⟨δ, hδ⟩ := h
    have hrest : m.table.cfg.rest .start =
        [.nonterminal m.table.grammar.start] ++ [] := by
      simpa [Cfg.rest, Item.start] using hm.wellFormed.cfg.rhs_zero
    have htaken : m.Taken [] p.context (leaves.map ahead) :=
      Machine.taken_of_yields hm hone (Cfg.derives_iff_yields.1 hδ)
        (by rw [List.map_map, Function.comp_def]) hne .nil .start hrest
    have hpush := push_eq_drive hm hnamed (.shifted []) p.context p.location
    have heq :
        ({ context := p.context, stack := [], location := p.location } : Parser σ V) = p := by
      rw [← hp]
    simp only [Ending.stack, heq] at hpush
    rcases htaken with ⟨e, c, hdrive⟩ | ⟨r, place, cause, c, hdrive⟩
    · rw [hdrive] at hpush
      exact .inl ⟨_, hpush⟩
    · rw [hdrive] at hpush
      exact .inr ⟨r, place, cause, _, hpush⟩

theorem leaves_of_takes (hfallback : ∀ a, m.table.grammar.fallback? a = none)
    {leaves leaves' : List (Nat × Token V)} (hnamed : Named m leaves)
    (htakes : ∀ x ∈ leaves', m.table.Takes x.1 x.2)
    (htokens : leaves'.map (·.2) = leaves.map (·.2)) :
    leaves'.map (·.1) = leaves.map (·.1) := by
  apply List.map_injective_iff.2 (Option.some_injective Nat)
  have hown : ∀ x ∈ leaves', some x.1 = m.table.grammar.terminal? x.2.terminal := by
    intro x hx
    obtain ⟨a, ha, hu⟩ := htakes x hx
    rw [ha, hu.resolve_right (by simp [hfallback])]
  have hnames := congrArg (List.map fun t => m.table.grammar.terminal? t.terminal) htokens
  simp only [List.map_map] at hnames ⊢
  rw [List.map_congr_left (g := (fun t => m.table.grammar.terminal? t.terminal) ∘ (·.2)) hown,
    hnames]
  exact List.map_congr_left fun x hx => (hnamed x hx).1

theorem push_of_not_viable (hm : m.table.IsBuilt) (hone : m.table.Unambiguous)
    (hfallback : ∀ a, m.table.grammar.fallback? a = none) (hp : p.stack = [])
    {leaves : List (Nat × Token V)} {x : Nat × Token V} (hnamed : Named m (leaves ++ [x]))
    (h : m.table.Viable (leaves.map (·.1))) (hx : ¬ m.table.Viable ((leaves ++ [x]).map (·.1))) :
    (∃ expected p', p.push m ((leaves ++ [x]).map (·.2)) =
      some (.error (.unexpected x.2.location x.2.terminal expected), p')) ∨
    p.FailsInAction m ((leaves ++ [x]).map (·.2)) := by
  have hleaves : Named m leaves := fun y hy => hnamed y (List.mem_append_left _ hy)
  obtain ⟨hname, hne⟩ := hnamed x (List.mem_append_right _ (List.mem_singleton_self x))
  unfold FailsInAction
  rw [List.map_append]
  rcases push_of_viable hm hone hp hleaves h with ⟨p₁, hpush⟩ | ⟨r, place, cause, p₁, hpush⟩
  · obtain ⟨γ, f, taken, hholds, hf, htokens, htakes⟩ := push_sound hm (Holds.nil m p hp) hpush
    obtain ⟨⟨result, c⟩, hadvance⟩ := Machine.exists_advance (.token x.1 x.2.value) hm hone
      hfallback (hholds x.2.location)
    have hadd := addToken_eq p₁ hname hne
    rw [hadvance] at hadd
    have hadvanced := Machine.advance_sound hm (hholds x.2.location) hadvance
    rw [push_append_of_ok hpush, List.map_singleton]
    cases result with
    | ok e =>
      obtain ⟨γ', f', u, hholds', hf', hu⟩ := addToken_sound hm hholds hadd
      have hviable := (hholds' x.2.location).viable hm
      have htakes' : ∀ y ∈ taken ++ [(u, x.2)], m.table.Takes y.1 y.2 :=
        List.forall_mem_append.2 ⟨htakes, by simpa using hu⟩
      have hterminals := leaves_of_takes hfallback hnamed htakes' (by simp [htokens])
      rw [hf', hf, Forest.leaves_nil, List.nil_append, hterminals] at hviable
      exact absurd hviable hx
    | error e =>
      rw [push_cons_of_error hadd]
      cases hadvanced with
      | @unexpected stack _ _ _ _ _ _ =>
        refine .inl ⟨m.table.expectedNames stack.state, { context := c }, ?_⟩
        rw [Lookahead.terminal, Grammar.terminalName_of_terminal? hname]
      | @failed r _ cause _ _ place _ => exact .inr ⟨r, place, cause, _, rfl⟩
  · exact .inr ⟨r, place, cause, p₁, push_append_of_error hpush _⟩

/-- Tokens that were all taken begin something that the start symbol derives, each as its own
terminal or as its fallback. Where no cell has more than one candidate, no fallback is declared and
no action fails, tokens that begin something derived are all taken, and of others the first that does
not go on with anything derived is the one that is not expected. -/
theorem push_takes_viable (hm : m.table.IsBuilt) (hp : p.stack = []) :
    (∀ ts p', p.push m ts = some (.ok (), p') → ∃ leaves : List (Nat × Token V),
      leaves.map (·.2) = ts ∧ (∀ x ∈ leaves, m.table.Takes x.1 x.2) ∧
        m.table.Viable (leaves.map (·.1))) ∧
    (m.table.Unambiguous → (∀ a, m.table.grammar.fallback? a = none) →
      (∀ leaves, Named m leaves → m.table.Viable (leaves.map (·.1)) →
        ¬ p.FailsInAction m (leaves.map (·.2)) →
        ∃ p', p.push m (leaves.map (·.2)) = some (.ok (), p')) ∧
      ∀ leaves x ts, Named m (leaves ++ [x]) → m.table.Viable (leaves.map (·.1)) →
        ¬ m.table.Viable ((leaves ++ [x]).map (·.1)) →
        ¬ p.FailsInAction m ((leaves ++ [x]).map (·.2) ++ ts) →
        ∃ expected p', p.push m ((leaves ++ [x]).map (·.2) ++ ts) =
          some (.error (.unexpected x.2.location x.2.terminal expected), p')) := by
  constructor
  · intro ts p' hpush
    obtain ⟨γ, f, leaves, hholds, hf, rfl, htakes⟩ := push_sound hm (Holds.nil m p hp) hpush
    refine ⟨leaves, rfl, htakes, ?_⟩
    simpa [hf] using (hholds {}).viable hm
  · intro hone hfallback
    constructor
    · intro leaves hnamed h hfails
      exact (push_of_viable hm hone hp hnamed h).resolve_right hfails
    · intro leaves x ts hnamed h hx hfails
      rcases push_of_not_viable hm hone hfallback hp hnamed h hx with
        ⟨expected, p', hpush⟩ | ⟨r, place, cause, p', hpush⟩
      · exact ⟨expected, p', push_append_of_error hpush ts⟩
      · exact absurd ⟨r, place, cause, p', push_append_of_error hpush ts⟩ hfails

end Parser

namespace Sums

theorem fallback?_eq_none (a : Nat) : table.grammar.fallback? a = none := by
  have hdeclared : ∀ a < table.grammar.terminals.size, table.grammar.fallback? a = none := by
    decide +kernel
  by_cases ha : a < table.grammar.terminals.size
  · exact hdeclared a ha
  · simp [Grammar.fallback?, Array.getElem?_eq_none (Nat.le_of_not_lt ha)]

theorem not_failsInAction (c : Nat) (ts : List (Token Nat)) :
    ¬ ({ context := c } : Parser Nat Nat).FailsInAction machine ts := by
  rintro ⟨r, place, cause, p', hpush⟩
  obtain ⟨_, _, _, _, hact⟩ :=
    Parser.exists_act_of_push (m := machine) isBuilt (.nil machine _ rfl) hpush
  cases hact

theorem not_viable_sign : ¬ table.Viable [2] := by
  rintro ⟨δ, hδ⟩
  have hfirst := (Cfg.mem_ofSyms_iff_begins isBuilt.wellFormed.cfg.lt_nonterminals).2 ⟨δ, hδ⟩
  have hnot : 2 ∉ table.cfg.firstSets.ofSyms [.nonterminal table.grammar.start] := by
    decide +kernel
  exact hnot hfirst

/-- A sum is taken, and a sign before it is not. -/
theorem push_of_sum :
    (∃ p', ({ context := 0 } : Parser Nat Nat).push machine ((tree 1 2).leaves.map (·.2)) =
        some (.ok (), p')) ∧
      ∃ expected p', ({ context := 0 } : Parser Nat Nat).push machine [⟨"+", 0, ⟨1, 1⟩⟩] =
        some (.error (.unexpected ⟨1, 1⟩ "+" expected), p') := by
  obtain ⟨-, htakes⟩ := Parser.push_takes_viable (m := machine)
    (p := ({ context := 0 } : Parser Nat Nat)) isBuilt rfl
  obtain ⟨hviable, hnot⟩ := htakes unambiguous fallback?_eq_none
  constructor
  · refine hviable (tree 1 2).leaves (fun x hx => ⟨terminal?_tree 1 2 x hx, ?_⟩) ⟨[], ?_⟩
      (not_failsInAction 0 _)
    · revert x
      decide +kernel
    · rw [List.append_nil, List.map_map]
      exact (derivation_tree 1 2).yields.derives
  · refine hnot [] (2, ⟨"+", 0, ⟨1, 1⟩⟩) [] ?_ ⟨_, .refl _⟩ not_viable_sign (not_failsInAction 0 _)
    intro x hx
    rw [List.mem_singleton.1 hx]
    exact ⟨by decide +kernel, by decide⟩

end Sums
end Lalr
