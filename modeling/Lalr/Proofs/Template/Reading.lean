import Lalr.Proofs.Grammar.Declarations
import Lalr.Proofs.Template.Unambiguous

/-!
The readers of expressions are sound and complete for the grammar. What they read is derived from the
lexemes that they take, what is derived they read, and depth beyond what the number of lexemes asks
for makes no difference.
-/

namespace Lalr.Template

variable {names : List String}

theorem expectMark_eq_ok {c : Char} {ls rest : List Lexeme} :
    expectMark c ls = .ok rest ↔ ls = .mark c :: rest := by
  unfold expectMark
  split
  · next d rest' =>
    split
    · next heq =>
      subst heq
      simp
    · next hne => simp [hne]
  · next l rest' hmark => simp [show l ≠ .mark c from hmark c]
  · simp

theorem expectName_eq_ok {x : String} {ls rest : List Lexeme} :
    expectName ls = .ok (x, rest) ↔ ls = .name x :: rest := by
  unfold expectName
  split <;> simp_all

theorem intercalate_dot (path x : String) (xs : List String) :
    ".".intercalate ((path ++ "." ++ x) :: xs) = ".".intercalate (path :: x :: xs) := by
  cases xs with
  | nil => rfl
  | cons y xs => simp [String.intercalate_cons_cons, String.append_assoc]

theorem of_readPath {path path' : String} {ls rest : List Lexeme}
    (h : readPath path ls = .ok (path', rest)) :
    ∃ xs, ".".intercalate (path :: xs) = path' ∧ ls = pathLexemes xs ++ rest := by
  induction path, ls using readPath.induct with
  | case1 path x ls ih =>
    rw [readPath] at h
    obtain ⟨xs, rfl, rfl⟩ := ih h
    exact ⟨x :: xs, (intercalate_dot path x xs).symm, rfl⟩
  | case2 path ls hname =>
    rw [readPath.eq_2 _ _ hname] at h
    cases hx : expectName ls with
    | ok read => exact absurd (expectName_eq_ok.1 hx) (hname read.1 read.2)
    | error fault =>
      rw [hx] at h
      cases h
  | case3 path ls hname hdot =>
    rw [readPath.eq_3 _ _ hname hdot] at h
    cases h
    exact ⟨[], rfl, rfl⟩

theorem readPath_append (path : String) (xs : List String) (rest : List Lexeme) :
    readPath path (pathLexemes xs ++ .mark '(' :: rest) =
      .ok (".".intercalate (path :: xs), .mark '(' :: rest) := by
  induction xs generalizing path with
  | nil => rfl
  | cons x xs ih =>
    rw [← intercalate_dot, ← ih]
    rfl

/-- Up to a depth, what is read has been derived from the lexemes that are gone. -/
structure ReadsDerived (names : List String) (n : Nat) : Prop where
  expr {ls rest : List Lexeme} {e : Expr} : readExpr names n ls = .ok (e, rest) →
    ∃ p : Phrase names, p.expr = e ∧ ls = p.lexemes ++ rest
  members {ls rest : List Lexeme} {e e' : Expr} : readMembers names e n ls = .ok (e', rest) →
    ∃ ms : List (Member names), ofMembers e ms = e' ∧ ls = membersLexemes ms ++ rest
  args {close : Char} {ls rest : List Lexeme} {es : List Expr} :
    readArgs names close n ls = .ok (es, rest) →
    ∃ ps : List (Phrase names), exprs ps = es ∧ ls = argsLexemes ps ++ .mark close :: rest
  items {close : Char} {ls rest : List Lexeme} {es : List Expr} :
    readItems names close n ls = .ok (es, rest) → ∃ (p : Phrase names) (ps : List (Phrase names)),
    exprs (p :: ps) = es ∧ ls = argsLexemes (p :: ps) ++ .mark close :: rest
  primary {ls rest : List Lexeme} {e : Expr} : readPrimary names n ls = .ok (e, rest) →
    ∃ h : Head names, h.expr = e ∧ ls = h.lexemes ++ rest

theorem readsDerived (names : List String) (n : Nat) : ReadsDerived names n := by
  induction n with
  | zero => constructor <;> intros <;> contradiction
  | succ n ih =>
    constructor
    case expr =>
      intro ls rest e h
      obtain ⟨⟨e₀, rest₀⟩, hprimary, hmembers⟩ := Except.bind_eq_ok.1 h
      obtain ⟨head, rfl, rfl⟩ := ih.primary hprimary
      obtain ⟨ms, rfl, rfl⟩ := ih.members hmembers
      exact ⟨.mk head ms, rfl, by rw [Phrase.lexemes, List.append_assoc]⟩
    case members =>
      intro ls rest e e' h
      unfold readMembers at h
      split at h
      · contradiction
      · next heq =>
        obtain rfl := Nat.succ.inj heq
        obtain ⟨⟨x, rest₁⟩, hx, hread⟩ := Except.bind_eq_ok.1 h
        have hls := expectName_eq_ok.1 hx
        dsimp only at hread
        split at hread
        · obtain ⟨⟨args, rest₂⟩, hargs, hmembers⟩ := Except.bind_eq_ok.1 hread
          obtain ⟨ps, rfl, rfl⟩ := ih.args hargs
          obtain ⟨ms, rfl, rfl⟩ := ih.members hmembers
          exact ⟨.method x ps :: ms, rfl, by simp [hls, membersLexemes, Member.lexemes]⟩
        · obtain ⟨ms, rfl, rfl⟩ := ih.members hread
          exact ⟨.field x :: ms, rfl, by simp [hls, membersLexemes, Member.lexemes]⟩
      · cases h
        exact ⟨[], rfl, rfl⟩
    case args =>
      intro close ls rest es h
      unfold readArgs at h
      split at h
      · next hclose =>
        cases h
        exact ⟨[], rfl, (List.cons_head?_tail hclose).symm⟩
      · obtain ⟨p, ps, rfl, rfl⟩ := ih.items h
        exact ⟨p :: ps, rfl, rfl⟩
    case items =>
      intro close ls rest es h
      obtain ⟨⟨e, rest₁⟩, he, hread⟩ := Except.bind_eq_ok.1 h
      obtain ⟨p, rfl, rfl⟩ := ih.expr he
      dsimp only at hread
      split at hread
      · obtain ⟨⟨es, rest₂⟩, hes, hread⟩ := Except.bind_eq_ok.1 hread
        cases hread
        obtain ⟨q, ps, rfl, rfl⟩ := ih.items hes
        exact ⟨p, q :: ps, rfl, by simp [argsLexemes]⟩
      · obtain ⟨rest₂, hclose, hread⟩ := Except.bind_eq_ok.1 hread
        cases hread
        exact ⟨p, [], rfl, by rw [expectMark_eq_ok.1 hclose]; rfl⟩
    case primary =>
      intro ls rest e h
      unfold readPrimary at h
      split at h
      · next i rest =>
        cases h
        exact ⟨.capture i, rfl, rfl⟩
      · next v rest =>
        cases h
        exact ⟨.int v, rfl, rfl⟩
      · next s rest =>
        cases h
        exact ⟨.str s, rfl, rfl⟩
      · obtain ⟨⟨items, rest₁⟩, hitems, hread⟩ := Except.bind_eq_ok.1 h
        cases hread
        obtain ⟨ps, rfl, rfl⟩ := ih.args hitems
        exact ⟨.list ps, rfl, by simp [Head.lexemes]⟩
      · obtain ⟨⟨e₁, rest₁⟩, he, hread⟩ := Except.bind_eq_ok.1 h
        obtain ⟨rest₂, hclose, hread⟩ := Except.bind_eq_ok.1 hread
        cases hread
        obtain ⟨p, rfl, rfl⟩ := ih.expr he
        exact ⟨.bracketed p, rfl, by simp [Head.lexemes, expectMark_eq_ok.1 hclose]⟩
      · next x rest =>
        split at h
        · next value hvalue =>
          cases h
          exact ⟨.constant x value hvalue, rfl, rfl⟩
        · next i hconstant hlatest =>
          cases h
          exact ⟨.bound x i hconstant (latest?_eq_some_iff.1 hlatest), rfl, rfl⟩
        · next hconstant hfree =>
          obtain ⟨⟨path, rest₁⟩, hpath, hread⟩ := Except.bind_eq_ok.1 h
          obtain ⟨xs, rfl, rfl⟩ := of_readPath hpath
          dsimp only at hread
          split at hread
          · obtain ⟨⟨args, rest₂⟩, hargs, hread⟩ := Except.bind_eq_ok.1 hread
            cases hread
            obtain ⟨ps, rfl, rfl⟩ := ih.args hargs
            exact ⟨.call x xs ps hconstant (latest?_eq_none_iff.1 hfree), rfl, by
              simp [Head.lexemes]⟩
          · cases hread
      · cases h
      · cases h

theorem readArgs_of_items {close : Char} (hclose : close = ')' ∨ close = ']') {n : Nat}
    {ps : List (Phrase names)} {rest : List Lexeme}
    (hitems : ps ≠ [] → readItems names close n (argsLexemes ps ++ .mark close :: rest) =
      .ok (exprs ps, rest)) :
    readArgs names close (n + 1) (argsLexemes ps ++ .mark close :: rest) =
      .ok (exprs ps, rest) := by
  rw [readArgs]
  cases ps with
  | nil => exact if_pos rfl
  | cons p ps =>
    rw [if_neg (head?_argsLexemes_cons hclose p ps _)]
    exact hitems (List.cons_ne_nil p ps)

theorem readMembers_of_not_dot {ls : List Lexeme} (hdot : ls.head? ≠ some (.mark '.')) {e : Expr}
    {n : Nat} : readMembers names e (n + 1) ls = .ok (e, ls) := by
  unfold readMembers
  split
  · contradiction
  · exact absurd rfl hdot
  · rfl

theorem readMembers_field {e : Expr} {n : Nat} {x : String} {ls : List Lexeme}
    (h : ls.head? ≠ some (.mark '(')) :
    readMembers names e (n + 1) (.mark '.' :: .name x :: ls) =
      readMembers names (.field e x) n ls := by
  rw [readMembers]
  dsimp only [expectName, bind, Except.bind]
  split
  · exact absurd rfl h
  · rfl

theorem readMembers_method {e : Expr} {n : Nat} {x : String} {ls rest : List Lexeme}
    {args : List Expr} (h : readArgs names ')' n ls = .ok (args, rest)) :
    readMembers names e (n + 1) (.mark '.' :: .name x :: .mark '(' :: ls) =
      readMembers names (.method e x args) n rest := by
  rw [readMembers]
  show readArgs names ')' n ls >>= _ = _
  rw [h]
  rfl

mutual

theorem Phrase.read {rest : List Lexeme} (hrest : Ended rest) : ∀ (p : Phrase names) {n : Nat},
    4 * (p.lexemes ++ rest).length + 2 ≤ n →
    readExpr names n (p.lexemes ++ rest) = .ok (p.expr, rest)
  | .mk h ms, n + 1, hn => by
    rw [Phrase.lexemes, List.append_assoc] at hn ⊢
    have hms : 4 * (membersLexemes ms ++ rest).length + 1 ≤ n := by
      rw [List.length_append] at hn
      omega
    rw [readExpr, h.read (by omega)]
    exact members_read hrest ms hms
termination_by structural p => p

theorem Head.read {rest : List Lexeme} : ∀ (h : Head names) {n : Nat},
    4 * (h.lexemes ++ rest).length + 1 ≤ n →
    readPrimary names n (h.lexemes ++ rest) = .ok (h.expr, rest)
  | .capture i, n + 1, _ => rfl
  | .int v, n + 1, _ => rfl
  | .str s, n + 1, _ => rfl
  | .constant x value hvalue, n + 1, _ => by
    simp [readPrimary, Head.lexemes, Head.expr, hvalue]
  | .bound x i hconstant hlatest, n + 1, _ => by
    simp [readPrimary, Head.lexemes, Head.expr, hconstant, latest?_eq_some_iff.2 hlatest]
  | .list ps, n + 2, hn => by
    simp only [Head.lexemes, List.cons_append, List.append_assoc, List.nil_append,
      List.length_cons] at hn ⊢
    have hargs : readArgs names ']' (n + 1) (argsLexemes ps ++ .mark ']' :: rest) =
        .ok (exprs ps, rest) :=
      readArgs_of_items (.inr rfl) fun hne => items_read (.inr rfl) ps hne (by omega)
    rw [readPrimary, hargs]
    rfl
  | .bracketed p, n + 1, hn => by
    simp only [Head.lexemes, List.cons_append, List.append_assoc, List.nil_append,
      List.length_cons] at hn ⊢
    rw [readPrimary, p.read (ended_close (.inl rfl) rest) (by omega)]
    rfl
  | .call x path args hconstant hfree, n + 2, hn => by
    simp only [Head.lexemes, List.cons_append, List.append_assoc, List.nil_append,
      List.length_cons, List.length_append] at hn ⊢
    have hargs : readArgs names ')' (n + 1) (argsLexemes args ++ .mark ')' :: rest) =
        .ok (exprs args, rest) :=
      readArgs_of_items (.inl rfl) fun hne => items_read (.inl rfl) args hne (by simp; omega)
    rw [readPrimary]
    simp only [hconstant, latest?_eq_none_iff.2 hfree, readPath_append]
    show readArgs names ')' (n + 1) _ >>= _ = _
    rw [hargs]
    rfl
termination_by structural h => h

theorem members_read {rest : List Lexeme} (hrest : Ended rest) : ∀ (ms : List (Member names))
    {e : Expr} {n : Nat}, 4 * (membersLexemes ms ++ rest).length + 1 ≤ n →
    readMembers names e n (membersLexemes ms ++ rest) = .ok (ofMembers e ms, rest)
  | [], e, n + 1, _ => readMembers_of_not_dot hrest.not_dot
  | .field x :: ms, e, n + 1, hn => by
    simp only [membersLexemes, Member.lexemes, List.cons_append, List.nil_append,
      List.length_cons] at hn ⊢
    rw [readMembers_field (head?_membersLexemes_append hrest ms)]
    exact members_read hrest ms (by omega)
  | .method x args :: ms, e, n + 2, hn => by
    simp only [membersLexemes, Member.lexemes, List.cons_append, List.append_assoc,
      List.nil_append, List.length_cons, List.length_append] at hn ⊢
    have hargs : readArgs names ')' (n + 1)
        (argsLexemes args ++ .mark ')' :: (membersLexemes ms ++ rest)) =
          .ok (exprs args, membersLexemes ms ++ rest) :=
      readArgs_of_items (.inl rfl) fun hne => items_read (.inl rfl) args hne (by simp; omega)
    rw [readMembers_method hargs]
    exact members_read hrest ms (by simp; omega)
termination_by structural ms => ms

theorem items_read {close : Char} (hclose : close = ')' ∨ close = ']') {rest : List Lexeme} :
    ∀ (ps : List (Phrase names)) {n : Nat}, ps ≠ [] →
    4 * (argsLexemes ps ++ .mark close :: rest).length + 3 ≤ n →
    readItems names close n (argsLexemes ps ++ .mark close :: rest) = .ok (exprs ps, rest)
  | [p], n + 1, _, hn => by
    rw [readItems, argsLexemes, p.read (ended_close hclose rest) (by rw [argsLexemes] at hn; omega)]
    rcases hclose with rfl | rfl <;> rfl
  | p :: q :: ps, n + 1, _, hn => by
    simp only [argsLexemes, List.cons_append, List.append_assoc, List.length_cons,
      List.length_append] at hn ⊢
    have hps : readItems names close n (argsLexemes (q :: ps) ++ .mark close :: rest) =
        .ok (exprs (q :: ps), rest) :=
      items_read hclose (q :: ps) (List.cons_ne_nil q ps) (by simp; omega)
    rw [readItems, p.read ended_comma (by simp; omega)]
    show readItems names close n _ >>= _ = _
    rw [hps]
    rfl
termination_by structural ps => ps

end

/-- From a depth on that the number of lexemes gives, one level more changes nothing. -/
structure Settled (names : List String) (n : Nat) : Prop where
  expr {ls : List Lexeme} : 4 * ls.length + 2 ≤ n →
    readExpr names (n + 1) ls = readExpr names n ls
  members {e : Expr} {ls : List Lexeme} : 4 * ls.length + 1 ≤ n →
    readMembers names e (n + 1) ls = readMembers names e n ls
  args {close : Char} {ls : List Lexeme} : 4 * ls.length + 4 ≤ n →
    readArgs names close (n + 1) ls = readArgs names close n ls
  items {close : Char} {ls : List Lexeme} : 4 * ls.length + 3 ≤ n →
    readItems names close (n + 1) ls = readItems names close n ls
  primary {ls : List Lexeme} : 4 * ls.length + 1 ≤ n →
    readPrimary names (n + 1) ls = readPrimary names n ls

theorem length_of_readExpr {n : Nat} {ls rest : List Lexeme} {e : Expr}
    (h : readExpr names n ls = .ok (e, rest)) : rest.length ≤ ls.length := by
  obtain ⟨p, -, rfl⟩ := (readsDerived names n).expr h
  simp

theorem length_of_readPrimary {n : Nat} {ls rest : List Lexeme} {e : Expr}
    (h : readPrimary names n ls = .ok (e, rest)) : rest.length ≤ ls.length := by
  obtain ⟨p, -, rfl⟩ := (readsDerived names n).primary h
  simp

theorem length_of_readArgs {close : Char} {n : Nat} {ls rest : List Lexeme} {es : List Expr}
    (h : readArgs names close n ls = .ok (es, rest)) : rest.length < ls.length := by
  obtain ⟨ps, -, rfl⟩ := (readsDerived names n).args h
  simp; omega

theorem length_of_expectName {x : String} {ls rest : List Lexeme}
    (h : expectName ls = .ok (x, rest)) : ls.length = rest.length + 1 := by
  rw [expectName_eq_ok.1 h, List.length_cons]

theorem length_of_readPath {path path' : String} {ls rest : List Lexeme}
    (h : readPath path ls = .ok (path', rest)) : rest.length ≤ ls.length := by
  obtain ⟨xs, -, rfl⟩ := of_readPath h
  simp

theorem settled (names : List String) (n : Nat) : Settled names n := by
  induction n with
  | zero => constructor <;> intros <;> omega
  | succ n ih =>
    constructor
    case expr =>
      intro ls hn
      rw [readExpr, readExpr, ih.primary (by omega)]
      refine Except.bind_congr_ok fun read hread => ih.members ?_
      have := length_of_readPrimary hread
      omega
    case members =>
      intro e ls hn
      by_cases hdot : ls.head? = some (.mark '.')
      · obtain ⟨rest, rfl⟩ : ∃ rest, ls = .mark '.' :: rest := ⟨_, (List.cons_head?_tail hdot).symm⟩
        rw [readMembers, readMembers]
        rw [List.length_cons] at hn
        refine Except.bind_congr_ok fun ⟨x, rest₁⟩ hx => ?_
        have hrest := length_of_expectName hx
        dsimp only
        split
        · rw [List.length_cons] at hrest
          rw [ih.args (by omega)]
          refine Except.bind_congr_ok fun read hread => ih.members ?_
          have := length_of_readArgs hread
          omega
        · exact ih.members (by omega)
      · rw [readMembers_of_not_dot hdot, readMembers_of_not_dot hdot]
    case args =>
      intro close ls hn
      rw [readArgs, readArgs, ih.items (by omega)]
    case items =>
      intro close ls hn
      rw [readItems, readItems, ih.expr (by omega)]
      refine Except.bind_congr_ok fun ⟨e, rest⟩ hread => ?_
      have hrest := length_of_readExpr hread
      dsimp only
      split
      · rw [List.length_cons] at hrest
        rw [ih.items (by omega)]
      · rfl
    case primary =>
      intro ls hn
      unfold readPrimary
      dsimp only
      split
      · rfl
      · rfl
      · rfl
      · rw [List.length_cons] at hn
        rw [ih.args (by omega)]
      · rw [List.length_cons] at hn
        rw [ih.expr (by omega)]
      · rw [List.length_cons] at hn
        split
        · rfl
        · rfl
        · refine Except.bind_congr_ok fun ⟨path, rest⟩ hpath => ?_
          have hrest := length_of_readPath hpath
          dsimp only
          split
          · rw [List.length_cons] at hrest
            rw [ih.args (by omega)]
          · rfl
      · rfl
      · rfl

theorem Phrase.read_depth (p : Phrase names) {rest : List Lexeme} (hrest : Ended rest) :
    readExpr names (depth (p.lexemes ++ rest)) (p.lexemes ++ rest) = .ok (p.expr, rest) :=
  p.read hrest (Nat.add_le_add_left (by decide) _)

end Lalr.Template
