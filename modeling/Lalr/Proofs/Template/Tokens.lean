import Lalr.Proofs.Grammar.Declarations
import Lalr.Template.Reader
import Mathlib.Data.List.TakeWhile

/-!
Lexemes one by one: what they are made of, and how those of a text follow from those of the text
after the first one.
-/

namespace Lalr.Template

/-- A name can begin with the character, which nothing else does. -/
structure StartsName (c : Char) : Prop where
  not_blank : Text.isBlank c = false
  not_dollar : c ≠ '$'
  not_digit : Text.isDigit c = false
  not_quote : c ≠ '"' ∧ c ≠ '\''
  isNameStart : isNameStart c = true

/-- The lexeme can come from text. -/
inductive Lexeme.Spelled : Lexeme → Prop
  | capture {i : Nat} (hpos : 0 < i) (hmax : i ≤ maxIndex) : Spelled (.capture i)
  | int {n : Nat} (hmax : n ≤ maxInt) : Spelled (.int (.ofNat n))
  | str (s : String) : Spelled (.str s)
  | name {c : Char} {cs : List Char} (hstart : StartsName c)
    (hrest : ∀ d ∈ cs, isNameRest d = true) : Spelled (.name (.ofList (c :: cs)))
  | mark {c : Char} (hmark : isMark c = true) : Spelled (.mark c)

theorem spelled_of_lexemeAt {c : Char} {cs rest : List Char} {l : Lexeme}
    (hblank : Text.isBlank c = false) (h : lexemeAt c cs = .ok (l, rest)) : l.Spelled := by
  unfold lexemeAt at h
  dsimp only at h
  split at h
  · split at h
    · cases h
    · next hindex =>
      split at h
      · cases h
      · next hzero =>
        cases h
        rw [Bool.or_eq_true, not_or, decide_eq_true_eq, decide_eq_true_eq] at hindex
        exact .capture (Nat.pos_of_ne_zero hzero) (Nat.le_of_not_lt hindex.2)
  · next hdollar =>
    split at h
    · split at h
      · cases h
      · next hmax =>
        cases h
        exact .int (Nat.le_of_not_lt hmax)
    · next hdigit =>
      split at h
      · split at h
        · cases h
          exact .str _
        · cases h
      · next hquote =>
        split at h
        · next hstart =>
          cases h
          rw [Bool.or_eq_true, not_or, decide_eq_true_eq, decide_eq_true_eq] at hquote
          exact .name ⟨hblank, hdollar, Bool.eq_false_iff.2 hdigit, hquote, hstart⟩
            fun d hd => List.mem_takeWhile_imp hd
        · split at h
          · next hmark =>
            cases h
            exact .mark hmark
          · cases h

theorem length_of_closeString {quote : Char} {cs s rest : List Char}
    (h : closeString quote cs = some (s, rest)) : rest.length < cs.length := by
  induction cs using closeString.induct quote generalizing s with
  | case1 => cases h
  | case2 => cases h
  | case3 e cs ih =>
    rw [closeString] at h
    obtain ⟨⟨s', rest'⟩, hs, heq⟩ := Option.map_eq_some_iff.1 h
    cases heq
    exact Nat.lt_succ_of_lt (Nat.lt_succ_of_lt (ih hs))
  | case4 cs hend hescape =>
    rw [closeString.eq_4 _ _ _ hend hescape, if_pos rfl] at h
    cases h
    exact Nat.lt_succ_self _
  | case5 c cs hend hescape hquote ih =>
    rw [closeString.eq_4 _ _ _ hend hescape, if_neg hquote] at h
    obtain ⟨⟨s', rest'⟩, hs, heq⟩ := Option.map_eq_some_iff.1 h
    cases heq
    exact Nat.lt_succ_of_lt (ih hs)

theorem length_of_lexemeAt {c : Char} {cs rest : List Char} {l : Lexeme}
    (h : lexemeAt c cs = .ok (l, rest)) : rest.length ≤ cs.length := by
  unfold lexemeAt at h
  dsimp only at h
  split at h
  · split at h
    · cases h
    · split at h
      · cases h
      · cases h
        exact (List.dropWhile_sublist _).length_le
  · split at h
    · split at h
      · cases h
      · cases h
        exact (List.dropWhile_sublist _).length_le
    · split at h
      · split at h
        · next hclose =>
          cases h
          exact (length_of_closeString hclose).le
        · cases h
      · split at h
        · cases h
          exact (List.dropWhile_sublist _).length_le
        · split at h
          · cases h
            exact Nat.le_refl _
          · cases h

theorem lexemesIn_succ {n : Nat} {cs : List Char} (hn : cs.length ≤ n) :
    lexemesIn (n + 1) cs = lexemesIn n cs := by
  induction n generalizing cs with
  | zero =>
    obtain rfl := List.length_eq_zero_iff.1 (Nat.le_zero.1 hn)
    rfl
  | succ n ih =>
    cases cs with
    | nil => rfl
    | cons c cs =>
      have hcs : cs.length ≤ n := Nat.le_of_succ_le_succ hn
      rw [lexemesIn, lexemesIn]
      split
      · exact ih hcs
      · split
        · rfl
        · next hl => rw [ih ((length_of_lexemeAt hl).trans hcs)]

/-- The characters are those of the lexemes, with blanks around them. -/
def Tokens (cs : List Char) (ls : List Lexeme) : Prop := lexemesIn cs.length cs = .ok ls

theorem tokens_of_lexemesIn {n : Nat} {cs : List Char} (hn : cs.length ≤ n) :
    lexemesIn n cs = lexemesIn cs.length cs := by
  induction hn with
  | refl => rfl
  | step hn ih => rw [lexemesIn_succ hn, ih]

theorem lexemes_eq_ok_iff {text : String} {ls : List Lexeme} :
    lexemes text = .ok ls ↔ Tokens text.toList ls := Except.mapError_eq_ok

@[simp] theorem tokens_nil {ls : List Lexeme} : Tokens [] ls ↔ ls = [] := by
  rw [Tokens, List.length_nil, lexemesIn, Except.ok.injEq, eq_comm]

theorem tokens_blank {c : Char} {cs : List Char} {ls : List Lexeme}
    (hblank : Text.isBlank c = true) : Tokens (c :: cs) ls ↔ Tokens cs ls := by
  rw [Tokens, List.length_cons, lexemesIn, if_pos hblank, Tokens]

theorem tokens_cons_iff {c : Char} {cs : List Char} {ls : List Lexeme}
    (hblank : Text.isBlank c = false) : Tokens (c :: cs) ls ↔
      ∃ l rest ls', lexemeAt c cs = .ok (l, rest) ∧ Tokens rest ls' ∧ l :: ls' = ls := by
  rw [Tokens, List.length_cons, lexemesIn, if_neg (Bool.eq_false_iff.1 hblank)]
  split
  · next hfault => simp [hfault]
  · next l rest hl =>
    rw [Except.map_eq_ok, tokens_of_lexemesIn (length_of_lexemeAt hl)]
    simp [hl, Tokens]

theorem spelled_of_tokens {cs : List Char} {ls : List Lexeme} (h : Tokens cs ls) :
    ∀ l ∈ ls, l.Spelled := by
  induction hn : cs.length using Nat.strong_induction_on generalizing cs ls with
  | _ n ih =>
    subst hn
    cases cs with
    | nil => simp_all
    | cons c cs =>
      cases hblank : Text.isBlank c with
      | true => exact ih _ (Nat.lt_succ_self _) ((tokens_blank hblank).1 h) rfl
      | false =>
        obtain ⟨l, rest, ls', hl, htokens, rfl⟩ := (tokens_cons_iff hblank).1 h
        have hrest := ih _ (Nat.lt_succ_of_le (length_of_lexemeAt hl)) htokens rfl
        exact List.forall_mem_cons.2 ⟨spelled_of_lexemeAt hblank hl, hrest⟩

end Lalr.Template
