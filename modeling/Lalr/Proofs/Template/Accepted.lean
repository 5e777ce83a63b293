import Lalr.Proofs.Template.Tokens
import Lalr.Proofs.Template.Reading

/-!
Which texts are templates: the reader takes just those that the grammar derives, for the template
that the derivation denotes.
-/

namespace Lalr.Template

variable {names : List String}

/-- A block after its bindings. -/
def readResult (bindings : List (String × Expr)) (ls : List Lexeme) :
    Except SyntaxFault (Reading Template) := do
  let rest := skip (.name "return") ls
  let (result, rest) ← readExpr (bindings.map (·.1)) (depth rest) rest
  let rest ← expectMark '}' (skip (.mark ';') rest)
  return (⟨bindings, result⟩, rest)

/-- A block after some of its bindings. -/
def readBlockFrom (n : Nat) (bindings : List (String × Expr)) (ls : List Lexeme) :
    Except SyntaxFault (Reading Template) := do
  let (bindings, rest) ← readBindings n bindings ls
  readResult bindings rest

theorem readBlock_eq (ls : List Lexeme) : readBlock ls = readBlockFrom ls.length [] ls := rfl

theorem readBlockFrom_let (n : Nat) (bindings : List (String × Expr)) (ls : List Lexeme) :
    readBlockFrom (n + 1) bindings (.name "let" :: ls) = (do
      let (x, rest) ← expectName ls
      let rest ← expectMark '=' rest
      let (e, rest) ← readExpr (bindings.map (·.1)) (depth rest) rest
      let rest ← expectMark ';' rest
      readBlockFrom n (bindings ++ [(x, e)]) rest) := by
  simp only [readBlockFrom, readBindings, bind_assoc]

theorem readBindings_of_not_let {n : Nat} (bindings : List (String × Expr)) {ls : List Lexeme}
    (h : ls.head? ≠ some (.name "let")) : readBindings n bindings ls = .ok (bindings, ls) := by
  unfold readBindings
  split
  · exact absurd rfl h
  · rfl

theorem readBlockFrom_of_not_let {n : Nat} {bindings : List (String × Expr)} {ls : List Lexeme}
    (h : ls.head? ≠ some (.name "let")) :
    readBlockFrom n bindings ls = readResult bindings ls := by
  rw [readBlockFrom, readBindings_of_not_let bindings h]
  rfl

theorem skip_eq (l : Lexeme) (ls : List Lexeme) :
    skip l ls = ls ∧ ls.head? ≠ some l ∨ ls = l :: skip l ls := by
  unfold skip
  split
  · next h => exact .inr (List.cons_head?_tail h).symm
  · next h => exact .inl ⟨rfl, h⟩

theorem of_readResult {bindings : List (String × Expr)} {ls rest : List Lexeme} {t : Template}
    (hnames : bindings.map (·.1) = names) (hlet : ls.head? ≠ some (.name "let"))
    (h : readResult bindings ls = .ok (t, rest)) :
    ∃ b : Block names, b.template bindings = t ∧ ls = b.lexemes ++ rest := by
  subst hnames
  obtain ⟨⟨e, rest₁⟩, he, hread⟩ := Except.bind_eq_ok.1 h
  obtain ⟨rest₂, hclose, hread⟩ := Except.bind_eq_ok.1 hread
  cases hread
  obtain ⟨p, rfl, hp⟩ := (readsDerived _ _).expr he
  have hclose := expectMark_eq_ok.1 hclose
  obtain ⟨semicolon, hsemicolon⟩ : ∃ semicolon, rest₁ = closing semicolon ++ rest := by
    rcases skip_eq (.mark ';') rest₁ with ⟨hskip, -⟩ | hskip
    · exact ⟨false, by rw [← hskip, hclose]; rfl⟩
    · exact ⟨true, by rw [hskip, hclose]; rfl⟩
  rcases skip_eq (.name "return") ls with ⟨hskip, hreturn⟩ | hskip
  · rw [hskip, hsemicolon] at hp
    have hhead : ls.head? = p.lexemes.head? := by rw [hp, p.head?_append]
    refine ⟨.result false p semicolon fun _ => ⟨hhead ▸ hlet, hhead ▸ hreturn⟩, rfl, ?_⟩
    simp [opening, hp]
  · rw [hp, hsemicolon] at hskip
    refine ⟨.result true p semicolon (fun h => Bool.noConfusion h), rfl, ?_⟩
    simp [opening, hskip]

theorem of_readBlockFrom {n : Nat} {bindings : List (String × Expr)} {ls rest : List Lexeme}
    {t : Template} (hnames : bindings.map (·.1) = names) (hn : ls.length ≤ n)
    (h : readBlockFrom n bindings ls = .ok (t, rest)) :
    ∃ b : Block names, b.template bindings = t ∧ ls = b.lexemes ++ rest := by
  induction n generalizing names bindings ls with
  | zero =>
    obtain rfl := List.length_eq_zero_iff.1 (Nat.le_zero.1 hn)
    exact of_readResult hnames (by simp) h
  | succ n ih =>
    by_cases hlet : ls.head? = some (.name "let")
    · obtain ⟨ls, rfl⟩ : ∃ rest, ls = .name "let" :: rest := ⟨_, (List.cons_head?_tail hlet).symm⟩
      rw [readBlockFrom_let] at h
      obtain ⟨⟨x, rest₁⟩, hx, h⟩ := Except.bind_eq_ok.1 h
      obtain ⟨rest₂, hequals, h⟩ := Except.bind_eq_ok.1 h
      obtain ⟨⟨e, rest₃⟩, he, h⟩ := Except.bind_eq_ok.1 h
      obtain ⟨rest₄, hsemicolon, h⟩ := Except.bind_eq_ok.1 h
      rw [hnames] at he
      obtain ⟨p, rfl, hp⟩ := (readsDerived _ _).expr he
      rw [expectMark_eq_ok.1 hsemicolon] at hp
      rw [expectName_eq_ok.1 hx, expectMark_eq_ok.1 hequals, hp] at hn ⊢
      have hnames' : (bindings ++ [(x, p.expr)]).map (·.1) = names ++ [x] := by simp [hnames]
      obtain ⟨b, rfl, rfl⟩ := ih hnames' (by simp at hn; omega) h
      exact ⟨.binding x p b, rfl, by simp⟩
    · rw [readBlockFrom_of_not_let hlet] at h
      exact of_readResult hnames hlet h

theorem skip_result {keyword : Bool} {p : Phrase names} {semicolon : Bool}
    (hplain : keyword = false → p.Plain) (rest : List Lexeme) :
    skip (.name "return") ((Block.result keyword p semicolon hplain).lexemes ++ rest) =
      p.lexemes ++ (closing semicolon ++ rest) := by
  cases keyword with
  | true => simp [opening, skip]
  | false =>
    rw [skip, Block.lexemes_result, opening, if_neg Bool.false_ne_true, List.nil_append,
      List.append_assoc, p.head?_append, if_neg (hplain rfl).not_return]

theorem Block.read {rest : List Lexeme} (b : Block names) {bindings : List (String × Expr)} {n : Nat}
    (hnames : bindings.map (·.1) = names) (hn : (b.lexemes ++ rest).length ≤ n) :
    readBlockFrom n bindings (b.lexemes ++ rest) = .ok (b.template bindings, rest) := by
  induction b generalizing bindings n with
  | @binding names x p b ih =>
    simp only [lexemes_binding, List.cons_append, List.append_assoc, List.length_cons,
      List.length_append] at hn ⊢
    obtain ⟨n, rfl⟩ : ∃ k, n = k + 1 := ⟨n - 1, by omega⟩
    rw [readBlockFrom_let, hnames]
    show readExpr names _ _ >>= _ = _
    rw [p.read_depth (ended_mark _ (by decide) (by decide))]
    exact ih (by simp [hnames]) (by simp; omega)
  | @result names keyword p semicolon hplain =>
    rw [readBlockFrom_of_not_let (head?_result hplain rest), readResult, skip_result, hnames,
      p.read_depth (ended_closing _ _)]
    cases semicolon <;> rfl

theorem Derivation.read (d : Derivation) : readTemplate d.lexemes = .ok (d.template, []) := by
  cases d with
  | bare p =>
    have hbrace := p.head?_lexemes (c := '{') (by decide) []
    have hended : Ended [] := ⟨by simp, by simp⟩
    have hread := p.read_depth hended
    rw [List.append_nil] at hbrace hread
    have hnil : p.lexemes ≠ [] := by
      intro hnil
      rw [hnil] at hread
      cases hread
    rw [lexemes, readTemplate.eq_3 p.lexemes hnil (fun rest hrest => hbrace (hrest ▸ rfl)), hread]
    rfl
  | block b =>
    have hnames : ([] : List (String × Expr)).map (·.1) = [] := rfl
    have hread := b.read hnames (Nat.le_refl (b.lexemes ++ []).length)
    rwa [List.append_nil, ← readBlock_eq] at hread

theorem of_readTemplate {ls rest : List Lexeme} {t : Template}
    (h : readTemplate ls = .ok (t, rest)) (hrest : rest = []) :
    ∃ d : Derivation, d.template = t ∧ d.lexemes = ls := by
  subst hrest
  unfold readTemplate at h
  split at h
  · cases h
  · have hnames : ([] : List (String × Expr)).map (·.1) = [] := rfl
    rw [readBlock_eq] at h
    obtain ⟨b, hb, hls⟩ := of_readBlockFrom hnames (Nat.le_refl _) h
    exact ⟨.block b, hb, by rw [hls, List.append_nil]; rfl⟩
  · obtain ⟨⟨e, rest⟩, he, hread⟩ := Except.bind_eq_ok.1 h
    cases hread
    obtain ⟨p, rfl, hp⟩ := (readsDerived _ _).expr he
    exact ⟨.bare p, rfl, by rw [hp, List.append_nil]; rfl⟩

theorem ofLexemes_eq_ok_iff {ls : List Lexeme} {t : Template} :
    ofLexemes ls = .ok t ↔ ∃ d : Derivation, d.template = t ∧ d.lexemes = ls := by
  constructor
  · intro h
    obtain ⟨⟨t', rest⟩, hread, h⟩ := Except.bind_eq_ok.1 h
    cases rest with
    | nil =>
      cases h
      exact of_readTemplate hread rfl
    | cons l rest => cases h
  · rintro ⟨d, rfl, rfl⟩
    rw [ofLexemes, d.read]
    rfl

theorem ofText_of_ofLexemes {text : String} {ls : List Lexeme} (h : lexemes text = .ok ls)
    (arity : Nat) : ofText text arity = match ofLexemes ls with
      | .error fault => .error (.malformed (.grammatical fault))
      | .ok t => match t.captures.find? (arity ≤ ·) with
        | some i => .error (.captureOutOfRange (i + 1))
        | none => .ok t := by
  have hparse : parse text = (ofLexemes ls).mapError .grammatical := by rw [parse, h]; rfl
  rw [ofText, hparse]
  cases ofLexemes ls <;> rfl

theorem ofText_eq_ok_iff {text : String} {arity : Nat} {t : Template} :
    ofText text arity = .ok t ↔
      ∃ d : Derivation, lexemes text = .ok d.lexemes ∧ d.template = t ∧
        t.captures.find? (arity ≤ ·) = none := by
  constructor
  · intro h
    cases hls : lexemes text with
    | error fault =>
      have hparse : parse text = .error (.lexical fault.1 fault.2) := by rw [parse, hls]; rfl
      rw [ofText, hparse] at h
      cases h
    | ok ls =>
      rw [ofText_of_ofLexemes hls] at h
      split at h
      · cases h
      · next t' hread =>
        split at h
        · cases h
        · next hcaptures =>
          cases h
          obtain ⟨d, rfl, rfl⟩ := ofLexemes_eq_ok_iff.1 hread
          exact ⟨d, rfl, rfl, hcaptures⟩
  · rintro ⟨d, hls, rfl, hcaptures⟩
    rw [ofText_of_ofLexemes hls, ofLexemes_eq_ok_iff.2 ⟨d, rfl, rfl⟩]
    dsimp only
    rw [hcaptures]

namespace Pairs

/-- The first symbol twice, the second time by a name that is also the name of a helper's part. -/
def text : String := "\x7b let x = $1; Pair.x(x, x.x('y')) \x7d"

theorem isLatest : IsLatest ["x"] "x" 0 where
  getElem?_eq := rfl
  not_after hj := by simp [Nat.ne_of_gt hj]

/-- The names of the last four lexemes that are `x` mean three different things. -/
def derivation : Derivation :=
  .block (.binding "x" (.mk (.capture 1) []) (.result false
    (.mk (.call "Pair" ["x"]
      [.mk (.bound "x" 0 rfl isLatest) [],
        .mk (.bound "x" 0 rfl isLatest) [.method "x" [.mk (.str "y") []]]]
      rfl (by decide)) [])
    false fun _ => ⟨by decide, by decide⟩))

end Pairs
end Lalr.Template
