import Lalr.Proofs.Template.Tokens
import Mathlib.Data.Bool.AllAny

/-!
Reading back the text that shows a lexeme. All lexemes come back but strings: a string is shown in the
escapes of a literal, and of these a template knows four.
-/

namespace Lalr.Template

/-- What is read where the character is shown. -/
def rereadChar (c : Char) : List Char :=
  match Text.literalEscape? c with
  | some e => [unescape e]
  | none => if Text.isPrintable c then [c] else ['u', '{'] ++ Text.hex c ++ ['}']

def reread (s : String) : String := .ofList (s.toList.flatMap rereadChar)

def Lexeme.reread : Lexeme → Lexeme
  | .str s => .str (Template.reread s)
  | l => l

/-- No number and no name goes on with the characters. -/
def Apart (cs : List Char) : Prop :=
  ∀ c ∈ cs.head?, Text.isDigit c = false ∧ isNameRest c = false

theorem apart_nil : Apart [] := nofun

theorem apart_cons {c : Char} {cs : List Char} :
    Apart (c :: cs) ↔ Text.isDigit c = false ∧ isNameRest c = false := by
  simp [Apart]

theorem apart_mark {c : Char} (hmark : isMark c = true) (cs : List Char) : Apart (c :: cs) := by
  -- Said by `all`: to decide it as it stands can mean to go through all characters there are.
  have hall : ∀ d ∈ ['{', '}', '(', ')', '[', ']', '.', ',', ';', '='],
      Text.isDigit d = false ∧ isNameRest d = false :=
    List.all_iff_forall_prop.1 (by decide +kernel)
  exact apart_cons.2 (hall c (List.contains_iff_mem.1 hmark))

theorem takeWhile_append_apart {p : Char → Bool} {ds cs : List Char} (hds : ∀ d ∈ ds, p d = true)
    (hcs : ∀ c ∈ cs.head?, p c = false) : (ds ++ cs).takeWhile p = ds := by
  rw [List.takeWhile_append_of_pos hds]
  cases cs with
  | nil => simp
  | cons c cs => simp [hcs c rfl]

theorem dropWhile_append_apart {p : Char → Bool} {ds cs : List Char} (hds : ∀ d ∈ ds, p d = true)
    (hcs : ∀ c ∈ cs.head?, p c = false) : (ds ++ cs).dropWhile p = cs := by
  rw [List.dropWhile_append_of_pos hds]
  cases cs with
  | nil => rfl
  | cons c cs => simp [hcs c rfl]

/-! Numbers. -/

theorem decimal_toDigits (n : Nat) : decimal (Nat.toDigits 10 n) = n := Nat.ofDigitChars_ten_toDigits

theorem isDigit_of_mem_toDigits {n : Nat} {c : Char} (hc : c ∈ Nat.toDigits 10 n) :
    Text.isDigit c = true := by
  have h := Nat.isDigit_of_mem_toDigits (by decide) (Nat.le_refl 10) hc
  simpa [Text.isDigit, Char.isDigit, Char.le_def] using h

theorem toList_toString (n : Nat) : (toString n).toList = Nat.toDigits 10 n := by
  rw [Nat.toString_eq_ofList_toDigits, String.toList_ofList]

theorem not_blank_of_isDigit {c : Char} (hc : Text.isDigit c = true) :
    Text.isBlank c = false ∧ c ≠ '$' := by
  have hall : ∀ k < 10, Text.isBlank (Char.ofNat (48 + k)) = false ∧ Char.ofNat (48 + k) ≠ '$' := by
    decide +kernel
  simp only [Text.isDigit, Bool.and_eq_true, decide_eq_true_eq, Char.le_def, UInt32.le_iff_toNat_le]
    at hc
  have hnat : 48 ≤ c.toNat ∧ c.toNat ≤ 57 := hc
  have h := hall (c.toNat - 48) (by omega)
  rwa [show 48 + (c.toNat - 48) = c.toNat by omega, Char.ofNat_toNat] at h

theorem tokens_capture {i : Nat} (hpos : 0 < i) (hmax : i ≤ maxIndex) {cs : List Char}
    {ls : List Lexeme} (hcs : Apart cs) (h : Tokens cs ls) :
    Tokens ((Lexeme.capture i).text.toList ++ cs) (.capture i :: ls) := by
  have hdigits : ∀ d ∈ Nat.toDigits 10 i, Text.isDigit d = true := fun d => isDigit_of_mem_toDigits
  have hapart : ∀ c ∈ cs.head?, Text.isDigit c = false := fun c hc => (hcs c hc).1
  have htext : (Lexeme.capture i).text.toList ++ cs = '$' :: (Nat.toDigits 10 i ++ cs) := by
    simp [Lexeme.text]
  have hlexeme : lexemeAt '$' (Nat.toDigits 10 i ++ cs) = .ok (.capture i, cs) := by
    simp [lexemeAt, takeWhile_append_apart hdigits hapart, dropWhile_append_apart hdigits hapart,
      decimal_toDigits, Nat.toDigits_ne_nil, Nat.not_lt.2 hmax, hpos.ne']
  rw [htext, tokens_cons_iff (by decide +kernel)]
  exact ⟨_, _, _, hlexeme, h, rfl⟩

theorem text_int {n : Nat} (hmax : n ≤ maxInt) :
    (Lexeme.int (.ofNat n)).text.toList = Nat.toDigits 10 n := by
  have hlt : n < 2 ^ 63 := Nat.lt_of_le_of_lt hmax (by decide)
  rw [Lexeme.text, Literal.text, Int64.toInt_ofNat_of_lt hlt]
  exact toList_toString n

theorem tokens_int {n : Nat} (hmax : n ≤ maxInt) {cs : List Char} {ls : List Lexeme}
    (hcs : Apart cs) (h : Tokens cs ls) :
    Tokens ((Lexeme.int (.ofNat n)).text.toList ++ cs) (.int (.ofNat n) :: ls) := by
  rw [text_int hmax]
  have hdigits : ∀ d ∈ Nat.toDigits 10 n, Text.isDigit d = true := fun d => isDigit_of_mem_toDigits
  have hapart : ∀ c ∈ cs.head?, Text.isDigit c = false := fun c hc => (hcs c hc).1
  have hdecimal := decimal_toDigits n
  cases hds : Nat.toDigits 10 n with
  | nil => exact absurd hds Nat.toDigits_ne_nil
  | cons d ds =>
    rw [hds] at hdigits hdecimal
    obtain ⟨hd, hds⟩ := List.forall_mem_cons.1 hdigits
    obtain ⟨hblank, hdollar⟩ := not_blank_of_isDigit hd
    have hlexeme : lexemeAt d (ds ++ cs) = .ok (.int (.ofNat n), cs) := by
      simp [lexemeAt, hdollar, hd, takeWhile_append_apart hds hapart,
        dropWhile_append_apart hds hapart, hdecimal, Nat.not_lt.2 hmax]
    rw [List.cons_append, tokens_cons_iff hblank]
    exact ⟨_, _, _, hlexeme, h, rfl⟩

/-! Names and marks. -/

theorem tokens_name {c : Char} {ds : List Char} (hstart : StartsName c)
    (hrest : ∀ d ∈ ds, isNameRest d = true) {cs : List Char} {ls : List Lexeme} (hcs : Apart cs)
    (h : Tokens cs ls) :
    Tokens ((String.ofList (c :: ds)).toList ++ cs) (.name (.ofList (c :: ds)) :: ls) := by
  have hapart : ∀ c ∈ cs.head?, isNameRest c = false := fun c hc => (hcs c hc).2
  have hlexeme : lexemeAt c (ds ++ cs) = .ok (.name (.ofList (c :: ds)), cs) := by
    simp [lexemeAt, hstart.not_dollar, hstart.not_digit, hstart.not_quote, hstart.isNameStart,
      takeWhile_append_apart hrest hapart, dropWhile_append_apart hrest hapart]
  rw [String.toList_ofList, List.cons_append, tokens_cons_iff hstart.not_blank]
  exact ⟨_, _, _, hlexeme, h, rfl⟩

theorem tokens_mark {c : Char} (hmark : isMark c = true) {cs : List Char} {ls : List Lexeme}
    (h : Tokens cs ls) : Tokens (c :: cs) (.mark c :: ls) := by
  have hall : ∀ d ∈ ['{', '}', '(', ')', '[', ']', '.', ',', ';', '='],
      Text.isBlank d = false ∧ d ≠ '$' ∧ Text.isDigit d = false ∧ d ≠ '"' ∧ d ≠ '\'' ∧
        isNameStart d = false := List.all_iff_forall_prop.1 (by decide +kernel)
  obtain ⟨hblank, hdollar, hdigit, hquote, hquote', hstart⟩ :=
    hall c (List.contains_iff_mem.1 hmark)
  have hlexeme : lexemeAt c cs = .ok (.mark c, cs) := by
    simp [lexemeAt, hdollar, hdigit, hquote, hquote', hstart, hmark]
  rw [tokens_cons_iff hblank]
  exact ⟨_, _, _, hlexeme, h, rfl⟩

theorem tokens_space {cs : List Char} {ls : List Lexeme} (h : Tokens cs ls) :
    Tokens (' ' :: cs) ls := (tokens_blank (by decide +kernel)).2 h

/-! Strings. -/

theorem mem_toDigits {n : Nat} {c : Char} (hc : c ∈ Nat.toDigits 16 n) :
    c ∈ (List.range 16).map Nat.digitChar := by
  induction n using Nat.strong_induction_on with
  | _ n ih =>
    by_cases hn : n < 16
    · rw [Nat.toDigits_of_lt_base hn, List.mem_singleton] at hc
      exact hc ▸ List.mem_map_of_mem (List.mem_range.2 hn)
    · rw [Nat.toDigits_of_base_le (by decide) (Nat.le_of_not_lt hn), List.mem_append,
        List.mem_singleton] at hc
      rcases hc with hc | rfl
      · exact ih (n / 16) (Nat.div_lt_self (by omega) (by decide)) hc
      · exact List.mem_map_of_mem (List.mem_range.2 (Nat.mod_lt n (by decide)))

theorem closeString_cons {c : Char} (hquote : c ≠ '"') (hescape : c ≠ '\\') (rest : List Char) :
    closeString '"' (c :: rest) =
      (closeString '"' rest).map fun (s, rest) => (c :: s, rest) := by
  rw [closeString.eq_4 _ _ _ (fun h => absurd h hescape) (fun _ _ h => absurd h hescape),
    if_neg hquote]

theorem closeString_append {ds : List Char} (hds : ∀ d ∈ ds, d ≠ '"' ∧ d ≠ '\\')
    (rest : List Char) : closeString '"' (ds ++ rest) =
      (closeString '"' rest).map fun (s, rest) => (ds ++ s, rest) := by
  induction ds with
  | nil => simp
  | cons d ds ih =>
    obtain ⟨⟨hquote, hescape⟩, hds⟩ := List.forall_mem_cons.1 hds
    rw [List.cons_append, closeString_cons hquote hescape, ih hds, Option.map_map]
    rfl

theorem closeString_literalChar (c : Char) (rest : List Char) :
    closeString '"' (Text.literalChar c ++ rest) =
      (closeString '"' rest).map fun (s, rest) => (rereadChar c ++ s, rest) := by
  unfold Text.literalChar rereadChar
  cases hescape : Text.literalEscape? c with
  | some e => rfl
  | none =>
    dsimp only
    split
    · refine closeString_append (fun d hd => ?_) rest
      rw [List.mem_singleton.1 hd]
      constructor <;> rintro rfl <;> cases hescape
    · have hhex : ∀ d ∈ ['{'] ++ Text.hex c ++ ['}'], d ≠ '"' ∧ d ≠ '\\' := by
        have hall : ∀ d ∈ ['{'] ++ (List.range 16).map Nat.digitChar ++ ['}'],
            d ≠ '"' ∧ d ≠ '\\' := List.all_iff_forall_prop.1 (by decide)
        intro d hd
        refine hall d ?_
        simp only [List.mem_append] at hd ⊢
        exact hd.imp_left (Or.imp_right mem_toDigits)
      have hraw := closeString_append hhex rest
      simp only [List.cons_append, List.nil_append, List.append_assoc] at hraw ⊢
      rw [closeString, hraw, Option.map_map]
      rfl

theorem closeString_quoted (cs rest : List Char) :
    closeString '"' (cs.flatMap Text.literalChar ++ '"' :: rest) =
      some (cs.flatMap rereadChar, rest) := by
  induction cs with
  | nil => rfl
  | cons c cs ih =>
    rw [List.flatMap_cons, List.append_assoc, closeString_literalChar, ih]
    rfl

theorem tokens_str (s : String) {cs : List Char} {ls : List Lexeme} (h : Tokens cs ls) :
    Tokens ((Lexeme.str s).text.toList ++ cs) (.str (reread s) :: ls) := by
  have htext : (Lexeme.str s).text.toList ++ cs =
      '"' :: (s.toList.flatMap Text.literalChar ++ '"' :: cs) := by
    simp [Lexeme.text, Literal.text, Text.quoteLiteral, Text.quoteWith]
  have hlexeme : lexemeAt '"' (s.toList.flatMap Text.literalChar ++ '"' :: cs) =
      .ok (.str (reread s), cs) := by
    have hdigit : Text.isDigit '"' = false := by decide
    simp [lexemeAt, hdigit, closeString_quoted, reread]
  rw [htext, tokens_cons_iff (by decide +kernel)]
  exact ⟨_, _, _, hlexeme, h, rfl⟩

/-- What shows a lexeme is read as that lexeme, unless it is a string. -/
theorem tokens_text {l : Lexeme} (hl : l.Spelled) {cs : List Char} {ls : List Lexeme}
    (hcs : Apart cs) (h : Tokens cs ls) : Tokens (l.text.toList ++ cs) (l.reread :: ls) := by
  cases hl with
  | capture hpos hmax => exact tokens_capture hpos hmax hcs h
  | int hmax => exact tokens_int hmax hcs h
  | str s => exact tokens_str s h
  | name hstart hrest => exact tokens_name hstart hrest hcs h
  | @mark c hmark =>
    have htext : (Lexeme.mark c).text.toList = [c] := by simp [Lexeme.text, Char.toString]
    rw [htext]
    exact tokens_mark hmark h

/-! Where strings come back. -/

/-- The character is shown as it is, or in an escape that a template knows. -/
def ComesBack (c : Char) : Prop :=
  Text.literalChar c = [c] ∨ Text.literalChar c ∈
    [['\\', 'n'], ['\\', 't'], ['\\', '\\'], ['\\', '"']]

instance (c : Char) : Decidable (ComesBack c) := inferInstanceAs (Decidable (_ ∨ _))

theorem mem_of_literalEscape? {c e : Char} (h : Text.literalEscape? c = some e) :
    c ∈ ['\x00', '\t', '\n', '\r', '\\', '"'] := by
  unfold Text.literalEscape? at h
  split at h
  case h_7 => cases h
  all_goals decide

/-- The other escapes that a literal has. -/
theorem not_comesBack_iff {c : Char} : ¬ ComesBack c ↔
    Text.literalChar c = ['\\', '0'] ∨ Text.literalChar c = ['\\', 'r'] ∨
      Text.literalChar c = ['\\', 'u', '{'] ++ Text.hex c ++ ['}'] := by
  have hall : ∀ c ∈ ['\x00', '\t', '\n', '\r', '\\', '"'], ¬ ComesBack c ↔
      Text.literalChar c = ['\\', '0'] ∨ Text.literalChar c = ['\\', 'r'] ∨
        Text.literalChar c = ['\\', 'u', '{'] ++ Text.hex c ++ ['}'] :=
    List.all_iff_forall_prop.1 (by decide +kernel)
  cases hescape : Text.literalEscape? c with
  | some e => exact hall c (mem_of_literalEscape? hescape)
  | none =>
    by_cases hprintable : Text.isPrintable c = true
    · simp [ComesBack, Text.literalChar, hescape, hprintable]
    · simp [ComesBack, Text.literalChar, hescape, hprintable]

theorem rereadChar_of_comesBack {c : Char} (h : ComesBack c) : rereadChar c = [c] := by
  have hall : ∀ c ∈ ['\x00', '\t', '\n', '\r', '\\', '"'], ComesBack c → rereadChar c = [c] :=
    List.all_iff_forall_prop.1 (by decide +kernel)
  cases hescape : Text.literalEscape? c with
  | some e => exact hall c (mem_of_literalEscape? hescape) h
  | none =>
    by_cases hprintable : Text.isPrintable c = true
    · simp [rereadChar, hescape, hprintable]
    · simp [ComesBack, Text.literalChar, hescape, hprintable] at h

/-- A character that does not come back leaves another one at its place. -/
theorem head?_rereadChar {c : Char} (h : ¬ ComesBack c) :
    rereadChar c ≠ [] ∧ (rereadChar c).head? ≠ some c := by
  have hall : ∀ c ∈ ['\x00', '\t', '\n', '\r', '\\', '"'], ¬ ComesBack c →
      rereadChar c ≠ [] ∧ (rereadChar c).head? ≠ some c :=
    List.all_iff_forall_prop.1 (by decide +kernel)
  cases hescape : Text.literalEscape? c with
  | some e => exact hall c (mem_of_literalEscape? hescape) h
  | none =>
    by_cases hprintable : Text.isPrintable c = true
    · exact absurd (.inl (by simp [Text.literalChar, hescape, hprintable])) h
    · have hu : Text.isPrintable 'u' = true := by decide +kernel
      have hne : 'u' ≠ c := fun heq => hprintable (heq ▸ hu)
      simp [rereadChar, hescape, hprintable, hne]

theorem flatMap_rereadChar_eq_iff {cs : List Char} :
    cs.flatMap rereadChar = cs ↔ ∀ c ∈ cs, ComesBack c := by
  induction cs with
  | nil => simp
  | cons c cs ih =>
    rw [List.flatMap_cons, List.forall_mem_cons, ← ih]
    by_cases h : ComesBack c
    · simp [rereadChar_of_comesBack h, h]
    · obtain ⟨hne, hhead⟩ := head?_rereadChar h
      cases hread : rereadChar c with
      | nil => exact absurd hread hne
      | cons d ds =>
        have hdc : d ≠ c := by simpa [hread] using hhead
        simp [h, hdc]

theorem reread_eq_iff {s : String} : reread s = s ↔ ∀ c ∈ s.toList, ComesBack c := by
  rw [← flatMap_rereadChar_eq_iff, ← String.toList_inj, reread, String.toList_ofList]

end Lalr.Template
