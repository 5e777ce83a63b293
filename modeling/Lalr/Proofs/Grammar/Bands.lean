import Lalr.Proofs.Grammar.Fallbacks
import Lalr.Proofs.Grammar.Representation

/-!
Bands of precedence. A grammar has them as a list to search in, and has with each terminal what it is
held to when a shift and a reduction compete. Both say the same, since no name is in two bands, and what
rules are held to comes from there.
-/

namespace Lalr

variable {ν : Type}

/-- Bands without names are left out. -/
def Declaration.bandList : Declaration ν → List (Associativity × List String)
  | .bands bs => (bs.map fun b => (b.1, Text.words b.2)).filter (·.2 ≠ [])
  | _ => []

theorem Declaration.names_ne_nil_of_mem_bandList (d : Declaration ν)
    {b : Associativity × List String} (h : b ∈ d.bandList) : b.2 ≠ [] := by
  cases d with
  | bands bs => simpa using (List.mem_filter.1 h).2
  | tokens _ | helpers _ | fallback _ _ | start _ | policy _ | rule _ _ _ _ => cases h

namespace Band

/-- The precedence that the band has for a name. -/
def precedenceOf (b : Band) (name : String) : Option Precedence :=
  if name ∈ b.names then some b.toPrecedence else none

/-- A band writes its precedence to each of its names, over what an earlier one wrote there. -/
def write (written : String → Option Precedence) (b : Band) : String → Option Precedence :=
  b.names.foldl (fun written name => Function.update written name (some b.toPrecedence)) written

theorem write_apply (written : String → Option Precedence) (b : Band) (name : String) :
    b.write written name = (b.precedenceOf name).or (written name) := by
  have hnames : ∀ (names : List String) (written : String → Option Precedence),
      names.foldl (fun written name => Function.update written name (some b.toPrecedence))
        written name = if name ∈ names then some b.toPrecedence else written name := by
    intro names
    induction names with
    | nil => simp
    | cons first names ih =>
      intro written
      rw [List.foldl_cons, ih]
      by_cases hmem : name ∈ names <;> by_cases hfirst : name = first <;> simp [hmem, hfirst]
  rw [write, hnames, precedenceOf]
  split <;> rfl

/-- What is written last is what is found first from the other end. -/
theorem foldl_write (bands : List Band) (written : String → Option Precedence) (name : String) :
    bands.foldl write written name =
      (bands.reverse.findSome? (·.precedenceOf name)).or (written name) := by
  induction bands generalizing written with
  | nil => simp
  | cons b bands ih =>
    rw [List.foldl_cons, ih, write_apply, List.reverse_cons, List.findSome?_append,
      List.findSome?_singleton, Option.or_assoc]

end Band

def Ranking.ofSym (rank : Ranking) : Sym → Option Precedence
  | .terminal a => rank.ofTerminal a
  | .nonterminal _ => none

namespace Grammar

/-- What a production is held to: the precedence of its own symbol, or else of the last terminal in
it that has one. -/
inductive HeldTo (g : Grammar ν) (p : Production ν) : Option Precedence → Prop
  | own {name rank} (h : p.precedenceSymbol = some name) (eq : g.precedenceOf name = some rank) :
    HeldTo g p (some rank)
  | last {before a after rank} (h : p.precedenceSymbol = none)
    (rhs : p.rule.rhs = before ++ .terminal a :: after)
    (eq : g.ranking.ofTerminal a = some rank)
    (later : ∀ b, .terminal b ∈ after → g.ranking.ofTerminal b = none) : HeldTo g p (some rank)
  | nothing (h : p.precedenceSymbol = none)
    (eq : ∀ a, .terminal a ∈ p.rule.rhs → g.ranking.ofTerminal a = none) : HeldTo g p none

/-- The bands that were declared are those that are searched, from the last to the first, and what
is found is what terminals and productions are held to. -/
structure IsBanded (g : Grammar ν) (declared : List (Associativity × List String)) : Prop where
  bands : g.bands = (declared.zipIdx.map fun (b, i) => ⟨⟨i + 1, b.1⟩, b.2⟩).reverse
  levels : g.bands.map (·.level) = (List.range' 1 g.bands.length).reverse
  names_ne_nil {b : Band} : b ∈ g.bands → b.names ≠ []
  disjoint : g.bands.Pairwise fun b b' => b.names.Disjoint b'.names
  ofTerminal {a : Nat} {t : Terminal} : g.terminals[a]? = some t →
    g.ranking.ofTerminal a = t.precedence ∧ t.precedence = g.precedenceOf t.name
  written (name : String) :
    g.bands.reverse.foldl Band.write (fun _ => none) name = g.precedenceOf name
  of_not_terminal {name : String} : g.isTerminal name = false → g.precedenceOf name = none
  ofRule {r : Nat} {p : Production ν} : g.productions[r]? = some p →
    g.ranking.ofRule r = p.precedence ∧ g.HeldTo p p.precedence

theorem precedenceOf_eq (g : Grammar ν) (name : String) :
    g.precedenceOf name = g.bands.findSome? (·.precedenceOf name) := by
  rw [precedenceOf, List.find?_eq_findSome?_guard, List.map_findSome?]
  simp [Function.comp_def, Band.precedenceOf, Option.map_guard]

end Grammar

namespace Spec

variable {spec spec' : Spec ν} {site : Site} {declared : List (Associativity × List String)}

/-- The bands are those that were declared, and no name is in two of them. -/
structure Banded (spec : Spec ν) (declared : List (Associativity × List String)) : Prop where
  eq : (spec.bands.map fun b => (b.associativity, b.names)) = declared
  disjoint : spec.bands.Pairwise fun b b' => b.names.Disjoint b'.names

theorem map_bandsAt (site : Site) (bands : List (Associativity × String)) :
    ((bandsAt site bands).map fun b => (b.associativity, b.names)) =
      (.bands bands : Declaration ν).bandList := by
  simp [bandsAt, Declaration.bandList, List.filter_map, Function.comp_def]

theorem Banded.declare (h : spec.Banded declared) {d : Declaration ν}
    (heq : spec.declare site d = .ok spec') : spec'.Banded (declared ++ d.bandList) := by
  cases adds_of_declare heq with
  | bands _ hfresh hdisjoint =>
    constructor
    · rw [List.map_append, h.eq, map_bandsAt]
    · exact List.pairwise_append.2 ⟨h.disjoint, hdisjoint, hfresh⟩
  | tokens _ _ | helpers | fallback _ _ _ _ | start | policy | rule _ =>
    simp only [Declaration.bandList, List.append_nil]
    exact { h with }

theorem banded_of_declareAll {declarations : List (Site × Declaration ν)}
    (h : Spec.declareAll {} declarations = .ok spec) :
    spec.Banded (declarations.flatMap (·.2.bandList)) := by
  refine Except.foldlM_history (l := [])
    (P := fun done mid => mid.Banded (done.flatMap (·.2.bandList)))
    (fun done mid d mid' hmid hd => ?_) ⟨rfl, .nil⟩ (declareAll_eq_ok_iff.1 h)
  simpa using hmid.declare hd

/-! Bands of the grammar. -/

namespace Banded

theorem bands_grammar (h : spec.Banded declared) :
    spec.grammar.bands = (declared.zipIdx.map fun (b, i) => ⟨⟨i + 1, b.1⟩, b.2⟩).reverse := by
  simp only [grammar, bandList, ← h.eq, List.zipIdx_map, List.map_map]
  rfl

theorem levels_grammar (h : spec.Banded declared) :
    spec.grammar.bands.map (·.level) = (List.range' 1 spec.grammar.bands.length).reverse := by
  have hlevels : declared.zipIdx.map (fun x => x.2 + 1) = List.range' 1 declared.length := by
    calc declared.zipIdx.map (fun x => x.2 + 1)
      _ = (declared.zipIdx.map Prod.snd).map (1 + ·) := by
        simp only [List.map_map, Function.comp_def, Nat.add_comm]
      _ = List.range' 1 declared.length := by rw [List.zipIdx_map_snd, List.map_add_range']
  simp only [h.bands_grammar, List.map_reverse, List.map_map, Function.comp_def, hlevels,
    List.length_reverse, List.length_map, List.length_zipIdx]

theorem disjoint_bands (h : spec.Banded declared) :
    spec.grammar.bands.Pairwise fun b b' => b.names.Disjoint b'.names := by
  have hbands : spec.bands.zipIdx.Pairwise fun x y => x.1.names.Disjoint y.1.names := by
    rw [← List.pairwise_map (f := Prod.fst) (R := fun b b' : BandSpec => b.names.Disjoint b'.names),
      List.zipIdx_map_fst]
    exact h.disjoint
  simp only [grammar, bandList, List.pairwise_reverse, List.pairwise_map]
  exact hbands.imp List.disjoint_symm

theorem precedenceOf_grammar (h : spec.Banded declared) (name : String) :
    spec.grammar.precedenceOf name = spec.precedenceOf name := by
  have hone : spec.grammar.bands.reverse.Pairwise fun b b' =>
      b.precedenceOf name = none ∨ b'.precedenceOf name = none := by
    rw [List.pairwise_reverse]
    refine h.disjoint_bands.imp fun {b b'} hdisjoint => ?_
    by_cases hmem : name ∈ b.names
    · exact .inl (if_neg (hdisjoint hmem))
    · exact .inr (if_neg hmem)
  rw [Grammar.precedenceOf_eq, ← List.reverse_reverse spec.grammar.bands, findSome?_reverse hone]
  simp only [grammar, bandList, List.reverse_reverse, List.findSome?_map, precedenceOf]
  simp [Function.comp_def, Band.precedenceOf]

end Banded

/-! What productions are held to. -/

theorem precedenceOf_eq_ofSym
    (hdisjoint : ∀ name ∈ spec.terminalNames, name ∉ spec.names.nonterminals) {name : String}
    (hname : name ∈ spec.terminalNames ∨ name ∈ spec.names.nonterminals) :
    spec.precedenceOf name = spec.grammar.ranking.ofSym (spec.names.symbol name) := by
  by_cases hmem : name ∈ spec.names.nonterminals
  · rw [Names.symbol_of_mem hmem, Ranking.ofSym, Option.eq_none_iff_forall_ne_some]
    exact fun p hp => hdisjoint name (mem_terminalNames_of_precedenceOf hp) hmem
  · rw [Names.symbol_of_not_mem hmem, Ranking.ofSym, ofTerminal_ranking, names,
      List.getElem?_idxOf (hname.resolve_right hmem), Option.bind_some]

/-- A production that has no symbol of its own is held to what the last terminal in it is. -/
theorem Banded.heldTo_grammar (h : spec.Banded declared)
    (hdisjoint : ∀ name ∈ spec.terminalNames, name ∉ spec.names.nonterminals)
    (hconsistent : spec.Consistent) {r : NamedRule ν} (hr : r ∈ spec.allRules) :
    spec.grammar.HeldTo (spec.production spec.names r) (spec.rulePrecedence r) := by
  cases hsymbol : r.precedenceSymbol with
  | some name =>
    have hrule : r ∈ spec.rules := by
      refine (List.mem_cons.1 hr).resolve_left ?_
      rintro rfl
      cases hsymbol
    obtain ⟨b, hb, hname⟩ := hconsistent.precedenceSymbol hrule hsymbol
    obtain ⟨rank, hrank⟩ := Option.ne_none_iff_exists'.1 fun hnone =>
      precedenceOf_eq_none_iff.1 hnone b hb hname
    simp only [rulePrecedence, hsymbol, hrank]
    exact .own hsymbol ((h.precedenceOf_grammar name).trans hrank)
  | none =>
    have hsyms : r.rhs.reverse.findSome? spec.precedenceOf =
        (r.rhs.map spec.names.symbol).reverse.findSome? spec.grammar.ranking.ofSym := by
      rw [← List.map_reverse, List.findSome?_map, ← List.head?_filterMap, ← List.head?_filterMap]
      refine congrArg List.head? (List.filterMap_congr fun name hname => ?_)
      exact precedenceOf_eq_ofSym hdisjoint (hconsistent.mem_names hr (List.mem_reverse.1 hname))
    simp only [rulePrecedence, hsymbol, hsyms]
    cases hfound : (r.rhs.map spec.names.symbol).reverse.findSome? spec.grammar.ranking.ofSym with
    | some rank =>
      obtain ⟨before, x, after, hrhs, hx, hlater⟩ := of_findSome?_reverse hfound
      cases x with
      | terminal a => exact .last hsymbol hrhs hx fun b hb => hlater _ hb
      | nonterminal n => cases hx
    | none =>
      refine .nothing hsymbol fun a ha => ?_
      exact List.findSome?_eq_none_iff.1 hfound _ (List.mem_reverse.2 ha)

/-- The precedence that is found for a name and the one that its terminal is held to are the same. -/
theorem isBanded_of_assemble {declarations : List (Site × Declaration ν)} {g : Grammar ν}
    (h : Spec.declareAll {} declarations = .ok spec) (hg : spec.assemble = .ok g) :
    g.IsBanded (declarations.flatMap (·.2.bandList)) := by
  have hbanded := banded_of_declareAll h
  have hu : spec.Unreserved := .declareAll h
  have hconsistent : spec.Consistent :=
    hu.fault?_eq_none_iff.1 (exists_assemble_eq_iff.1 ⟨g, hg⟩)
  have hdisjoint : ∀ name ∈ spec.terminalNames, name ∉ spec.names.nonterminals :=
    fun name => (collectsFrom_of_declareAll h).disjoint hu hconsistent
  obtain rfl := (assemble_eq_ok hg).2
  exact
    { bands := hbanded.bands_grammar
      levels := hbanded.levels_grammar
      names_ne_nil := by
        intro b hb
        rw [hbanded.bands_grammar, List.mem_reverse] at hb
        obtain ⟨⟨declared, i⟩, hmem, rfl⟩ := List.mem_map.1 hb
        obtain ⟨d, -, hd⟩ := List.mem_flatMap.1 (List.fst_mem_of_mem_zipIdx hmem)
        exact d.2.names_ne_nil_of_mem_bandList hd
      disjoint := hbanded.disjoint_bands
      ofTerminal := by
        intro a t ht
        refine ⟨by simp [Grammar.ranking, ht], ?_⟩
        obtain ⟨name, -, rfl⟩ : ∃ name ∈ spec.terminalNames, spec.terminal spec.names name = t := by
          simpa [grammar, names] using Array.mem_of_getElem? ht
        exact (hbanded.precedenceOf_grammar name).symm
      written := by
        intro name
        rw [Band.foldl_write, List.reverse_reverse, Option.or_none, Grammar.precedenceOf_eq]
      of_not_terminal := by
        intro name hname
        rw [hbanded.precedenceOf_grammar, Option.eq_none_iff_forall_ne_some]
        intro rank hrank
        have hmem := mem_terminalNames_of_precedenceOf hrank
        rw [← terminalNames_grammar] at hmem
        simp [Grammar.isTerminal, hmem] at hname
      ofRule := by
        intro k p hp
        refine ⟨by simp [Grammar.ranking, hp], ?_⟩
        obtain ⟨r, hr, rfl⟩ := mem_productions_iff.1 (Array.mem_of_getElem? hp)
        exact hbanded.heldTo_grammar hdisjoint hconsistent hr }

end Spec

/-! Choices among sums with signs. A band has a name twice, one has none, and a sign that no text has is
the tightest. -/

namespace Choices

def declarations : List (Site × Declaration Unit) :=
  [(default, .tokens "n"), (default, .bands [(.right, "? ?"), (.left, "+ -")]),
    (default, .rule "e" "e ? e : e" (.native ()) none), (default, .bands [(.nonassoc, " ")]),
    (default, .rule "e" "e + e" (.native ()) none), (default, .bands [(.left, "SIGN")]),
    (default, .rule "e" "- e" (.native ()) (some "SIGN")),
    (default, .rule "e" "n" (.native ()) none)]

def spec : Spec Unit := (Spec.declareAll {} declarations).toOption.get (by decide +kernel)

def grammar : Grammar Unit := spec.assemble.toOption.get (by decide +kernel)

/-- What stands between the last two parts of a choice has no band, so that it is held to what
stands between the first two. -/
theorem isBanded_choices :
    Spec.declareAll {} declarations = .ok spec ∧ spec.assemble = .ok grammar ∧
      grammar.IsBanded [(.right, ["?", "?"]), (.left, ["+", "-"]), (.left, ["SIGN"])] ∧
      grammar.ranking.ofRule 1 = grammar.precedenceOf "?" ∧
      grammar.ranking.ofRule 3 = grammar.precedenceOf "SIGN" ∧
      grammar.precedenceOf "SIGN" = some ⟨3, .left⟩ := by
  have hspec : Spec.declareAll {} declarations = .ok spec := Except.eq_ok_get _ _
  have hgrammar : spec.assemble = .ok grammar := Except.eq_ok_get _ _
  have hdeclared : declarations.flatMap (·.2.bandList) =
      [(.right, ["?", "?"]), (.left, ["+", "-"]), (.left, ["SIGN"])] := by decide +kernel
  exact ⟨hspec, hgrammar, hdeclared ▸ Spec.isBanded_of_assemble hspec hgrammar,
    by decide +kernel, by decide +kernel, by decide +kernel⟩

end Choices
end Lalr
