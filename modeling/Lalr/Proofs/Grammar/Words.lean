import Lalr.Grammar.Spec
import Mathlib.Order.Basic

/-!
Names that can be listed with blanks between them, as those of symbols can.
-/

namespace Lalr

namespace Text

/-- It is not empty and nothing in it separates names. -/
def IsWord (name : String) : Prop := name ≠ "" ∧ ∀ c ∈ name.toList, isSeparator c = false

theorem not_isSeparator_of_le {c : Char} (h : '!' ≤ c) : isSeparator c = false := by
  by_contra hsep
  simp only [isSeparator, Bool.not_eq_false, Bool.or_eq_true, decide_eq_true_eq] at hsep
  rcases hsep with (((rfl | rfl) | rfl) | rfl) | rfl <;> exact absurd h (by decide)

theorem le_of_isLetter {c : Char} (h : isLetter c = true) : '!' ≤ c := by
  simp only [isLetter, Bool.or_eq_true, Bool.and_eq_true, decide_eq_true_eq] at h
  rcases h with ⟨h, -⟩ | ⟨h, -⟩
  · exact Char.le_trans (by decide) h
  · exact Char.le_trans (by decide) h

theorem le_of_isDigit {c : Char} (h : isDigit c = true) : '!' ≤ c := by
  simp only [isDigit, Bool.and_eq_true, decide_eq_true_eq] at h
  exact Char.le_trans (by decide) h.1

theorem isWord_of_isSymbolName {name : String} (h : isSymbolName name = true) : IsWord name := by
  obtain ⟨h, -⟩ := Bool.and_eq_true_iff.1 h
  rcases Bool.or_eq_true_iff.1 h with h | h
  · unfold isIdentifier at h
    split at h
    · cases h
    · next c cs hname =>
      simp only [Bool.and_eq_true, Bool.or_eq_true, List.all_eq_true, decide_eq_true_eq] at h
      refine ⟨fun hnil => by simp [hnil] at hname, fun d hd => not_isSeparator_of_le ?_⟩
      rw [hname, List.mem_cons] at hd
      rcases hd with rfl | hd
      · rcases h.1 with (hc | rfl) | rfl
        · exact le_of_isLetter hc
        · decide
        · decide
      · rcases h.2 d hd with (hc | hc) | rfl
        · exact le_of_isLetter hc
        · exact le_of_isDigit hc
        · decide
  · simp only [isPunctuation, Bool.and_eq_true, List.all_eq_true, decide_eq_true_eq] at h
    refine ⟨h.1, fun c hc => not_isSeparator_of_le ?_⟩
    have hpunctuation := h.2 c hc
    simp only [isPunctuationChar, Bool.and_eq_true, decide_eq_true_eq] at hpunctuation
    exact hpunctuation.1.1.1
theorem words_append_cons (xs ys : List Char) {c : Char} (hc : isSeparator c = true) :
    words (.ofList (xs ++ c :: ys)) = words (.ofList xs) ++ words (.ofList ys) := by
  simp [words, List.splitOnP_append_cons xs ys hc]

theorem words_of_isWord {name : String} (h : IsWord name) : words name = [name] := by
  simp [words, List.splitOnP_eq_singleton h.2, h.1]

theorem words_intercalate {names : List String} (h : ∀ name ∈ names, IsWord name) :
    words (" ".intercalate names) = names := by
  induction names with
  | nil => decide
  | cons name names ih =>
    cases names with
    | nil => simpa using words_of_isWord (h name (List.mem_singleton_self _))
    | cons next names =>
      have hname := words_of_isWord (h name (List.mem_cons_self ..))
      have hnames := ih fun x hx => h x (List.mem_cons_of_mem _ hx)
      have hsplit := words_append_cons name.toList (" ".intercalate (next :: names)).toList
        (by decide : isSeparator ' ' = true)
      rw [String.ofList_toList, String.ofList_toList, hname, hnames] at hsplit
      rw [String.intercalate_cons_cons, ← String.ofList_toList (s := name ++ " " ++ _)]
      simpa using hsplit

end Text

theorem validNames_of_isSymbolName {site : Site} {names : List String}
    (h : ∀ name ∈ names, Text.isSymbolName name = true) : validNames site names = .ok names := by
  have hnone : names.find? (!Text.isSymbolName ·) = none := by simpa using h
  simp [validNames, hnone]

end Lalr
