import Lalr.Proofs.Template.Syntax

/-!
The grammar of templates is unambiguous. Trees are compared from left to right: as long as their
lexemes agree they are made alike, since the next lexeme tells what comes, and names tell what they
are.
-/

namespace Lalr.Template

variable {names : List String}

/-- No member begins with these lexemes. -/
structure Ended (rest : List Lexeme) : Prop where
  not_dot : rest.head? ≠ some (.mark '.')
  not_paren : rest.head? ≠ some (.mark '(')

theorem ended_mark {c : Char} (rest : List Lexeme) (hdot : c ≠ '.') (hparen : c ≠ '(') :
    Ended (.mark c :: rest) := ⟨by simpa using hdot, by simpa using hparen⟩

theorem pathLexemes_inj {path path' : List String} {ls ls' : List Lexeme}
    (h : pathLexemes path ++ .mark '(' :: ls = pathLexemes path' ++ .mark '(' :: ls') :
    path = path' ∧ ls = ls' := by
  induction path generalizing path' with
  | nil =>
    cases path' with
    | nil => simpa [pathLexemes] using h
    | cons x path' => simp [pathLexemes] at h
  | cons x path ih =>
    cases path' with
    | nil => simp [pathLexemes] at h
    | cons y path' =>
      simp only [pathLexemes, List.flatMap_cons, List.cons_append,
        List.nil_append, List.cons.injEq, Lexeme.name.injEq, true_and] at h
      obtain ⟨rfl, h⟩ := h
      obtain ⟨rfl, hrest⟩ := ih h
      exact ⟨rfl, hrest⟩

theorem ended_close {close : Char} (hclose : close = ')' ∨ close = ']') (rest : List Lexeme) :
    Ended (.mark close :: rest) := by
  rcases hclose with rfl | rfl <;> exact ended_mark _ (by decide) (by decide)

theorem ended_comma {rest : List Lexeme} : Ended (.mark ',' :: rest) :=
  ended_mark _ (by decide) (by decide)

theorem head?_membersLexemes_cons (m : Member names) (ms : List (Member names))
    (rest : List Lexeme) : (membersLexemes (m :: ms) ++ rest).head? = some (.mark '.') := by
  cases m <;> rfl

theorem head?_membersLexemes_append {rest : List Lexeme} (hrest : Ended rest)
    (ms : List (Member names)) : (membersLexemes ms ++ rest).head? ≠ some (.mark '(') := by
  cases ms with
  | nil => exact hrest.not_paren
  | cons m ms => rw [head?_membersLexemes_cons]; decide

theorem Head.head?_lexemes (h : Head names) {c : Char} (hc : c ≠ '[' ∧ c ≠ '(')
    (rest : List Lexeme) : (h.lexemes ++ rest).head? ≠ some (.mark c) := by
  cases h <;> simp [lexemes, hc.1.symm, hc.2.symm]

theorem Phrase.head?_lexemes (p : Phrase names) {c : Char} (hc : c ≠ '[' ∧ c ≠ '(')
    (rest : List Lexeme) : (p.lexemes ++ rest).head? ≠ some (.mark c) := by
  cases p with
  | mk h ms =>
    rw [lexemes, List.append_assoc]
    exact h.head?_lexemes hc _

theorem head?_argsLexemes_cons {close : Char} (hclose : close = ')' ∨ close = ']')
    (p : Phrase names) (ps : List (Phrase names)) (rest : List Lexeme) :
    (argsLexemes (p :: ps) ++ rest).head? ≠ some (.mark close) := by
  have hc : close ≠ '[' ∧ close ≠ '(' := by rcases hclose with rfl | rfl <;> decide
  cases ps with
  | nil => exact p.head?_lexemes hc _
  | cons q ps =>
    rw [argsLexemes, List.append_assoc]
    exact p.head?_lexemes hc _

mutual

theorem Phrase.inj {rest rest' : List Lexeme} (hrest : Ended rest) (hrest' : Ended rest') :
    ∀ p q : Phrase names, p.lexemes ++ rest = q.lexemes ++ rest' → p = q ∧ rest = rest'
  | .mk h ms, .mk h' ms' => by
    intro heq
    rw [Phrase.lexemes, Phrase.lexemes, List.append_assoc, List.append_assoc] at heq
    obtain ⟨rfl, hms⟩ := Head.inj h h' heq
    obtain ⟨rfl, hend⟩ := members_inj hrest hrest' ms ms' hms
    exact ⟨rfl, hend⟩
termination_by structural p => p

theorem Head.inj {rest rest' : List Lexeme} :
    ∀ h h' : Head names, h.lexemes ++ rest = h'.lexemes ++ rest' → h = h' ∧ rest = rest'
  | .list ps, h' => by
    intro heq
    cases h' with
    | list qs =>
      have hargs : argsLexemes ps ++ .mark ']' :: rest = argsLexemes qs ++ .mark ']' :: rest' := by
        simpa [Head.lexemes] using heq
      obtain ⟨rfl, hend⟩ := args_inj (.inr rfl) ps qs hargs
      exact ⟨rfl, hend⟩
    | _ => simp [Head.lexemes] at heq
  | .bracketed p, h' => by
    intro heq
    cases h' with
    | bracketed q =>
      have hphrase : p.lexemes ++ .mark ')' :: rest = q.lexemes ++ .mark ')' :: rest' := by
        simpa [Head.lexemes] using heq
      obtain ⟨rfl, hend⟩ := Phrase.inj (ended_mark _ (by decide) (by decide))
        (ended_mark _ (by decide) (by decide)) p q hphrase
      exact ⟨rfl, (List.cons.inj hend).2⟩
    | _ => simp [Head.lexemes] at heq
  | .call x path args hconstant hfree, h' => by
    intro heq
    cases h' with
    | call y path' args' =>
      obtain ⟨rfl, hpath⟩ : x = y ∧ pathLexemes path ++ .mark '(' ::
          (argsLexemes args ++ .mark ')' :: rest) =
            pathLexemes path' ++ .mark '(' :: (argsLexemes args' ++ .mark ')' :: rest') := by
        simpa [Head.lexemes] using heq
      obtain ⟨rfl, hargs⟩ := pathLexemes_inj hpath
      obtain ⟨rfl, hend⟩ := args_inj (.inl rfl) args args' hargs
      exact ⟨rfl, hend⟩
    | bound y i _ hlatest =>
      obtain ⟨rfl, -⟩ : x = y ∧ _ := by simpa [Head.lexemes] using heq
      exact absurd hlatest.mem hfree
    | constant y value hvalue =>
      obtain ⟨rfl, -⟩ : x = y ∧ _ := by simpa [Head.lexemes] using heq
      simp [hconstant] at hvalue
    | _ => simp [Head.lexemes] at heq
  | .bound x i hconstant hlatest, h' => by
    intro heq
    cases h' with
    | bound y j _ hlatest' =>
      obtain ⟨rfl, hend⟩ : x = y ∧ rest = rest' := by simpa [Head.lexemes] using heq
      obtain rfl := hlatest.unique hlatest'
      exact ⟨rfl, hend⟩
    | call y _ _ _ hfree =>
      obtain ⟨rfl, -⟩ : x = y ∧ _ := by simpa [Head.lexemes] using heq
      exact absurd hlatest.mem hfree
    | constant y value hvalue =>
      obtain ⟨rfl, -⟩ : x = y ∧ _ := by simpa [Head.lexemes] using heq
      simp [hconstant] at hvalue
    | _ => simp [Head.lexemes] at heq
  | .constant x value hvalue, h' => by
    intro heq
    cases h' with
    | constant y value' hvalue' =>
      obtain ⟨rfl, hend⟩ : x = y ∧ rest = rest' := by simpa [Head.lexemes] using heq
      obtain rfl := Option.some.inj (hvalue.symm.trans hvalue')
      exact ⟨rfl, hend⟩
    | bound y _ hconstant =>
      obtain ⟨rfl, -⟩ : x = y ∧ _ := by simpa [Head.lexemes] using heq
      simp [hconstant] at hvalue
    | call y _ _ hconstant =>
      obtain ⟨rfl, -⟩ : x = y ∧ _ := by simpa [Head.lexemes] using heq
      simp [hconstant] at hvalue
    | _ => simp [Head.lexemes] at heq
  | .capture i, h' => by cases h' <;> simp_all [Head.lexemes]
  | .int v, h' => by cases h' <;> simp_all [Head.lexemes]
  | .str s, h' => by cases h' <;> simp_all [Head.lexemes]
termination_by structural h => h

theorem members_inj {rest rest' : List Lexeme} (hrest : Ended rest) (hrest' : Ended rest') :
    ∀ ms ms' : List (Member names), membersLexemes ms ++ rest = membersLexemes ms' ++ rest' →
      ms = ms' ∧ rest = rest'
  | [], [] => fun heq => ⟨rfl, heq⟩
  | [], m :: ms' => fun heq => absurd
    ((congrArg List.head? heq).trans (head?_membersLexemes_cons m ms' rest')) hrest.not_dot
  | m :: ms, [] => fun heq => absurd
    ((congrArg List.head? heq).symm.trans (head?_membersLexemes_cons m ms rest)) hrest'.not_dot
  | .field x :: ms, .field y :: ms' => by
    intro heq
    obtain ⟨rfl, htail⟩ : x = y ∧ membersLexemes ms ++ rest = membersLexemes ms' ++ rest' := by
      simpa [membersLexemes, Member.lexemes] using heq
    obtain ⟨rfl, hend⟩ := members_inj hrest hrest' ms ms' htail
    exact ⟨rfl, hend⟩
  | .field x :: ms, .method y args :: ms' => by
    intro heq
    refine absurd ?_ (head?_membersLexemes_append hrest ms)
    have htail : x = y ∧ membersLexemes ms ++ rest = .mark '(' :: (argsLexemes args ++ .mark ')' ::
        (membersLexemes ms' ++ rest')) := by
      simpa [membersLexemes, Member.lexemes] using heq
    rw [htail.2]
    rfl
  | .method x args :: ms, .field y :: ms' => by
    intro heq
    refine absurd ?_ (head?_membersLexemes_append hrest' ms')
    have htail : x = y ∧ .mark '(' :: (argsLexemes args ++ .mark ')' ::
        (membersLexemes ms ++ rest)) = membersLexemes ms' ++ rest' := by
      simpa [membersLexemes, Member.lexemes] using heq
    rw [← htail.2]
    rfl
  | .method x args :: ms, .method y args' :: ms' => by
    intro heq
    obtain ⟨rfl, hargs⟩ : x = y ∧ argsLexemes args ++ .mark ')' :: (membersLexemes ms ++ rest) =
        argsLexemes args' ++ .mark ')' :: (membersLexemes ms' ++ rest') := by
      simpa [membersLexemes, Member.lexemes] using heq
    obtain ⟨rfl, htail⟩ := args_inj (.inl rfl) args args' hargs
    obtain ⟨rfl, hend⟩ := members_inj hrest hrest' ms ms' htail
    exact ⟨rfl, hend⟩
termination_by structural ms => ms

theorem args_inj {close : Char} (hclose : close = ')' ∨ close = ']') {rest rest' : List Lexeme} :
    ∀ ps qs : List (Phrase names),
      argsLexemes ps ++ .mark close :: rest = argsLexemes qs ++ .mark close :: rest' →
      ps = qs ∧ rest = rest'
  | [], [] => fun heq => ⟨rfl, (List.cons.inj heq).2⟩
  | [], q :: qs => fun heq =>
    absurd (congrArg List.head? heq).symm (head?_argsLexemes_cons hclose q qs _)
  | p :: ps, [] => fun heq =>
    absurd (congrArg List.head? heq) (head?_argsLexemes_cons hclose p ps _)
  | [p], [q] => by
    intro heq
    obtain ⟨rfl, hend⟩ := Phrase.inj (ended_close hclose _) (ended_close hclose _) p q heq
    exact ⟨rfl, (List.cons.inj hend).2⟩
  | [p], q :: q' :: qs => by
    intro heq
    rw [argsLexemes, argsLexemes, List.append_assoc, List.cons_append] at heq
    obtain ⟨rfl, hend⟩ := Phrase.inj (ended_close hclose _) ended_comma p q heq
    rcases hclose with rfl | rfl <;> simp at hend
  | p :: p' :: ps, [q] => by
    intro heq
    rw [argsLexemes, argsLexemes, List.append_assoc, List.cons_append] at heq
    obtain ⟨rfl, hend⟩ := Phrase.inj ended_comma (ended_close hclose _) p q heq
    rcases hclose with rfl | rfl <;> simp at hend
  | p :: p' :: ps, q :: q' :: qs => by
    intro heq
    rw [argsLexemes, argsLexemes, List.append_assoc, List.append_assoc, List.cons_append,
      List.cons_append] at heq
    obtain ⟨rfl, htail⟩ := Phrase.inj ended_comma ended_comma p q heq
    obtain ⟨hps, hend⟩ := args_inj hclose (p' :: ps) (q' :: qs) (List.cons.inj htail).2
    exact ⟨congrArg (p :: ·) hps, hend⟩
termination_by structural ps => ps

end

theorem ended_closing (semicolon : Bool) (rest : List Lexeme) :
    Ended (closing semicolon ++ rest) := by
  cases semicolon <;> exact ended_mark _ (by decide) (by decide)

theorem closing_inj {semicolon semicolon' : Bool} {rest rest' : List Lexeme}
    (h : closing semicolon ++ rest = closing semicolon' ++ rest') :
    semicolon = semicolon' ∧ rest = rest' := by
  cases semicolon <;> cases semicolon' <;> simp_all [closing]

theorem Phrase.head?_append (p : Phrase names) (rest : List Lexeme) :
    (p.lexemes ++ rest).head? = p.lexemes.head? := by
  cases p with
  | mk h ms => cases h <;> simp [lexemes, Head.lexemes]

theorem Block.head?_result {keyword : Bool} {p : Phrase names} {semicolon : Bool}
    (hplain : keyword = false → p.Plain) (rest : List Lexeme) :
    ((result keyword p semicolon hplain).lexemes ++ rest).head? ≠ some (.name "let") := by
  cases keyword with
  | true => simp [lexemes, opening]
  | false =>
    rw [lexemes, opening, if_neg Bool.false_ne_true, List.nil_append, List.append_assoc,
      p.head?_append]
    exact (hplain rfl).not_let

/-- The first lexeme tells whether the result has the keyword. -/
theorem opening_inj {keyword keyword' : Bool} {p q : Phrase names} {rest rest' : List Lexeme}
    (hp : keyword = false → p.Plain) (hq : keyword' = false → q.Plain)
    (h : opening keyword ++ (p.lexemes ++ rest) = opening keyword' ++ (q.lexemes ++ rest')) :
    keyword = keyword' ∧ p.lexemes ++ rest = q.lexemes ++ rest' := by
  cases keyword <;> cases keyword'
  case false.false => exact ⟨rfl, h⟩
  case false.true =>
    refine absurd ?_ (hp rfl).not_return
    rw [← p.head?_append rest]
    exact congrArg List.head? h
  case true.false =>
    refine absurd ?_ (hq rfl).not_return
    rw [← q.head?_append rest']
    exact (congrArg List.head? h).symm
  case true.true => exact ⟨rfl, (List.cons.inj h).2⟩

theorem Block.inj (b : Block names) {b' : Block names} {rest rest' : List Lexeme}
    (heq : b.lexemes ++ rest = b'.lexemes ++ rest') : b = b' ∧ rest = rest' := by
  induction b with
  | binding x p b ih =>
    cases b' with
    | binding y q b' =>
      obtain ⟨rfl, hphrase⟩ : x = y ∧ p.lexemes ++ .mark ';' :: (b.lexemes ++ rest) =
          q.lexemes ++ .mark ';' :: (b'.lexemes ++ rest') := by
        simpa using heq
      obtain ⟨rfl, hb⟩ := Phrase.inj (ended_mark _ (by decide) (by decide))
        (ended_mark _ (by decide) (by decide)) p q hphrase
      obtain ⟨rfl, hend⟩ := ih (List.cons.inj hb).2
      exact ⟨rfl, hend⟩
    | result keyword q semicolon hplain =>
      exact absurd (congrArg List.head? heq).symm (head?_result hplain rest')
  | result keyword p semicolon hplain =>
    cases b' with
    | binding y q b' => exact absurd (congrArg List.head? heq) (head?_result hplain rest)
    | result keyword' q semicolon' hplain' =>
      rw [lexemes, lexemes, List.append_assoc, List.append_assoc, List.append_assoc,
        List.append_assoc] at heq
      obtain ⟨rfl, hphrase⟩ := opening_inj hplain hplain' heq
      obtain ⟨rfl, hclosing⟩ := Phrase.inj (ended_closing _ _) (ended_closing _ _) p q hphrase
      obtain ⟨rfl, hend⟩ := closing_inj hclosing
      exact ⟨rfl, hend⟩

end Lalr.Template
