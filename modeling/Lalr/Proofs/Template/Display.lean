import Lalr.Proofs.Template.Accepted
import Lalr.Proofs.Template.Spelling

/-!
Reading back the text of a template. It is derived as the template was, without the brackets that did
not matter, and with each string as it is reread.
-/

namespace Lalr

/-! Changing strings, and nothing else. -/

def Literal.mapString (f : String → String) : Literal → Literal
  | .str s => .str (f s)
  | l => l

namespace Expr

mutual

def mapStrings (f : String → String) : Expr → Expr
  | .capture i => .capture i
  | .bound i => .bound i
  | .literal l => .literal (l.mapString f)
  | .list items => .list (mapStringsAll f items)
  | .call h args => .call h (mapStringsAll f args)
  | .method r m args => .method (r.mapStrings f) m (mapStringsAll f args)
  | .field r x => .field (r.mapStrings f) x

def mapStringsAll (f : String → String) : List Expr → List Expr
  | [] => []
  | e :: es => e.mapStrings f :: mapStringsAll f es

end

def string? : Expr → Option String
  | .literal (.str s) => some s
  | _ => none

variable {f : String → String}

mutual

theorem captures_mapStrings : ∀ e : Expr, (e.mapStrings f).captures = e.captures
  | .capture _ | .bound _ | .literal _ => by simp [mapStrings]
  | .list items => by simp [mapStrings, capturesOf_mapStringsAll items]
  | .call h args => by simp [mapStrings, capturesOf_mapStringsAll args]
  | .method r m args => by
    simp [mapStrings, captures_mapStrings r, capturesOf_mapStringsAll args]
  | .field r x => by simp [mapStrings, captures_mapStrings r]

theorem capturesOf_mapStringsAll : ∀ es : List Expr, capturesOf (mapStringsAll f es) = capturesOf es
  | [] => rfl
  | e :: es => by simp [mapStringsAll, captures_mapStrings e, capturesOf_mapStringsAll es]

end

mutual

theorem mapStrings_eq_iff : ∀ e : Expr,
    e.mapStrings f = e ↔ ∀ s ∈ e.nodes.filterMap string?, f s = s
  | .capture _ | .bound _ => by simp [mapStrings, nodes, string?]
  | .literal l => by cases l <;> simp [mapStrings, Literal.mapString, nodes, string?]
  | .list items => by
    simp [mapStrings, nodes, string?, List.filterMap_cons, mapStringsAll_eq_iff items]
  | .call h args => by
    simp [mapStrings, nodes, string?, List.filterMap_cons, mapStringsAll_eq_iff args]
  | .method r m args => by
    simp [mapStrings, nodes, string?, List.filterMap_cons, mapStrings_eq_iff r,
      mapStringsAll_eq_iff args, or_imp, forall_and]
  | .field r x => by simp [mapStrings, nodes, string?, List.filterMap_cons, mapStrings_eq_iff r]

theorem mapStringsAll_eq_iff : ∀ es : List Expr,
    mapStringsAll f es = es ↔ ∀ s ∈ (nodesOf es).filterMap string?, f s = s
  | [] => by simp [mapStringsAll, nodesOf]
  | e :: es => by
    simp [mapStringsAll, nodesOf, mapStrings_eq_iff e, mapStringsAll_eq_iff es, or_imp, forall_and]

end

end Expr

namespace Template

def mapStrings (f : String → String) (t : Template) : Template :=
  ⟨t.bindings.map fun (x, e) => (x, e.mapStrings f), t.result.mapStrings f⟩

/-- The string literals, in order. -/
def strings (t : Template) : List String := t.nodes.filterMap Expr.string?

theorem captures_mapStrings (f : String → String) (t : Template) :
    (t.mapStrings f).captures = t.captures := by
  simp [captures_eq, mapStrings, Expr.capturesOf_eq_flatMap, List.flatMap_map,
    Expr.captures_mapStrings]

theorem mapStrings_eq_iff {f : String → String} {t : Template} :
    t.mapStrings f = t ↔ ∀ s ∈ t.strings, f s = s := by
  obtain ⟨bindings, result⟩ := t
  have hbindings : (bindings.map fun (x, e) => (x, e.mapStrings f)) = bindings ↔
      ∀ s ∈ (bindings.flatMap (·.2.nodes)).filterMap Expr.string?, f s = s := by
    induction bindings with
    | nil => simp
    | cons b bindings ih =>
      obtain ⟨x, e⟩ := b
      rw [List.flatMap_cons, List.filterMap_append, List.forall_mem_append, ← ih,
        ← e.mapStrings_eq_iff]
      simp
  rw [mapStrings, mk.injEq, strings, nodes, List.filterMap_append, List.forall_mem_append, hbindings,
    result.mapStrings_eq_iff]

/-! The derivation that the text of an expression has. -/

variable {names : List String}

mutual

/-- Without brackets, with strings reread and with further members. -/
def Phrase.shown (after : List (Member names)) : Phrase names → Phrase names
  | .mk head members => head.shown (shownMembers members ++ after)

def Head.shown (after : List (Member names)) : Head names → Phrase names
  | .capture i => .mk (.capture i) after
  | .int v => .mk (.int v) after
  | .str s => .mk (.str (reread s)) after
  | .constant x value hvalue => .mk (.constant x value hvalue) after
  | .bound x i hconstant hlatest => .mk (.bound x i hconstant hlatest) after
  | .list items => .mk (.list (shownAll items)) after
  | .bracketed p => p.shown after
  | .call x path args hconstant hfree => .mk (.call x path (shownAll args) hconstant hfree) after

def Member.shown : Member names → Member names
  | .field x => .field x
  | .method x args => .method x (shownAll args)

def shownMembers : List (Member names) → List (Member names)
  | [] => []
  | m :: ms => m.shown :: shownMembers ms

def shownAll : List (Phrase names) → List (Phrase names)
  | [] => []
  | p :: ps => p.shown [] :: shownAll ps

end

theorem mapString_of_constant? {x : String} {value : Literal} (h : constant? x = some value)
    {f : String → String} : value.mapString f = value := by
  unfold constant? at h
  split at h <;> cases h <;> rfl

theorem membersLexemes_append (ms ms' : List (Member names)) :
    membersLexemes (ms ++ ms') = membersLexemes ms ++ membersLexemes ms' := by
  induction ms with
  | nil => rfl
  | cons m ms ih => simp [membersLexemes, ih]

theorem ofMembers_append (e : Expr) (ms ms' : List (Member names)) :
    ofMembers e (ms ++ ms') = ofMembers (ofMembers e ms) ms' := by
  induction ms generalizing e with
  | nil => rfl
  | cons m ms ih => exact ih _

mutual

theorem Phrase.expr_shown : ∀ (p : Phrase names) (after : List (Member names)),
    (p.shown after).expr = ofMembers (p.expr.mapStrings reread) after
  | .mk head members, after => by
    rw [Phrase.shown, head.expr_shown, ofMembers_append, ofMembers_shownMembers members]
    rfl

theorem Head.expr_shown : ∀ (h : Head names) (after : List (Member names)),
    (h.shown after).expr = ofMembers (h.expr.mapStrings reread) after
  | .capture _, _ | .int _, _ | .str _, _ | .bound _ _ _ _, _ => rfl
  | .constant x value hvalue, after => by
    simp [Head.shown, Phrase.expr, Head.expr, Expr.mapStrings, mapString_of_constant? hvalue]
  | .list items, after => by
    simp [Head.shown, Phrase.expr, Head.expr, Expr.mapStrings, exprs_shownAll items]
  | .bracketed p, after => p.expr_shown after
  | .call x path args _ _, after => by
    simp [Head.shown, Phrase.expr, Head.expr, Expr.mapStrings, exprs_shownAll args]

theorem ofMembers_shownMembers {e : Expr} : ∀ ms : List (Member names),
    ofMembers (e.mapStrings reread) (shownMembers ms) = (ofMembers e ms).mapStrings reread
  | [] => rfl
  | .field x :: ms => ofMembers_shownMembers (e := .field e x) ms
  | .method x args :: ms => by
    rw [shownMembers, Member.shown, ofMembers, ofMembers, ← ofMembers_shownMembers ms]
    simp [Member.expr, Expr.mapStrings, exprs_shownAll args]

theorem exprs_shownAll : ∀ ps : List (Phrase names),
    exprs (shownAll ps) = Expr.mapStringsAll reread (exprs ps)
  | [] => rfl
  | p :: ps => by
    rw [shownAll, exprs, exprs, Expr.mapStringsAll, p.expr_shown, exprs_shownAll ps]
    rfl

end

/-! The lexemes of the text of an expression. -/

def memberText (full : List String) : Member names → String
  | .field x => "." ++ x
  | .method x args => "." ++ x ++ "(" ++ ", ".intercalate (Expr.texts full (exprs args)) ++ ")"

def membersText (full : List String) : List (Member names) → String
  | [] => ""
  | m :: ms => memberText full m ++ membersText full ms

theorem text_ofMembers (full : List String) {e : Expr} (ms : List (Member names)) :
    (ofMembers e ms).text full = e.text full ++ membersText full ms := by
  induction ms generalizing e with
  | nil => simp [ofMembers, membersText]
  | cons m ms ih =>
    rw [ofMembers, ih]
    cases m <;> simp [Member.expr, Expr.text, membersText, memberText, String.append_assoc]

theorem apart_membersText {full : List String} {cs : List Char} (hcs : Apart cs)
    (ms : List (Member names)) : Apart ((membersText full ms).toList ++ cs) := by
  cases ms with
  | nil => simpa [membersText] using hcs
  | cons m ms => cases m <;> simpa [membersText, memberText] using apart_mark (c := '.') (by decide) _

theorem text_constant {x : String} {value : Literal} (h : constant? x = some value) :
    value.text = x := by
  unfold constant? at h
  split at h <;> cases h <;> rfl

theorem tokens_of_name {x : String} (hx : (Lexeme.name x).Spelled) {cs : List Char}
    {ls : List Lexeme} (hcs : Apart cs) (h : Tokens cs ls) :
    Tokens (x.toList ++ cs) (.name x :: ls) := tokens_text hx hcs h

theorem isMark_close {close : Char} (hclose : close = ')' ∨ close = ']') :
    isMark close = true := by
  rcases hclose with rfl | rfl <;> decide

theorem tokens_dot {cs : List Char} {ls : List Lexeme} (h : Tokens cs ls) :
    Tokens ('.' :: cs) (.mark '.' :: ls) := tokens_mark (by decide) h

/-- A path of names with dots between them. -/
theorem tokens_path {x : String} (path : List String) (hx : (Lexeme.name x).Spelled)
    (hpath : ∀ l ∈ pathLexemes path, l.Spelled) {cs : List Char} {ls : List Lexeme}
    (hcs : Apart cs) (h : Tokens cs ls) :
    Tokens ((".".intercalate (x :: path)).toList ++ cs) (.name x :: (pathLexemes path ++ ls)) := by
  induction path generalizing x with
  | nil => simpa [pathLexemes] using tokens_of_name hx hcs h
  | cons y path ih =>
    have hy : (Lexeme.name y).Spelled := hpath _ (by simp [pathLexemes])
    have htail := ih hy fun l hl => hpath l (List.mem_append_right [_, _] hl)
    have hname := tokens_of_name hx (apart_mark (by decide) _) (tokens_dot htail)
    simpa [String.intercalate_cons_cons, pathLexemes] using hname

mutual

theorem Phrase.tokens_shown {full : List String} (hfull : names <+: full) :
    ∀ (p : Phrase names), (∀ l ∈ p.lexemes, l.Spelled) →
    ∀ (after : List (Member names)) {cs : List Char} {ls : List Lexeme}, Apart cs →
    Tokens cs (membersLexemes after ++ ls) →
    Tokens ((p.expr.text full).toList ++ cs) ((p.shown after).lexemes ++ ls)
  | .mk head members, hp, after, cs, ls, hcs, h => by
    rw [Phrase.lexemes, List.forall_mem_append] at hp
    have hmembers := tokens_shownMembers hfull members hp.2 hcs h
    rw [← List.append_assoc, ← membersLexemes_append] at hmembers
    have hhead := head.tokens_shown hfull hp.1 _ (apart_membersText hcs members) hmembers
    rw [Phrase.expr, text_ofMembers, String.toList_append, List.append_assoc]
    exact hhead
termination_by structural p => p

theorem Head.tokens_shown {full : List String} (hfull : names <+: full) :
    ∀ (h : Head names), (∀ l ∈ h.lexemes, l.Spelled) →
    ∀ (after : List (Member names)) {cs : List Char} {ls : List Lexeme}, Apart cs →
    Tokens cs (membersLexemes after ++ ls) →
    Tokens ((h.expr.text full).toList ++ cs) ((h.shown after).lexemes ++ ls)
  | .capture i, hp, after, cs, ls, hcs, h => by
    have hi : (Lexeme.capture i).Spelled := hp _ (by simp [Head.lexemes])
    have htext : (Expr.capture (i - 1)).text full = (Lexeme.capture i).text := by
      cases hi with
      | capture hpos => rw [Expr.text, Nat.sub_add_cancel hpos]; rfl
    have htokens := tokens_text hi hcs h
    rw [← htext] at htokens
    exact htokens
  | .int v, hp, after, cs, ls, hcs, h => tokens_text (hp (.int v) (by simp [Head.lexemes])) hcs h
  | .str s, hp, after, cs, ls, hcs, h => tokens_text (hp (.str s) (by simp [Head.lexemes])) hcs h
  | .constant x value hvalue, hp, after, cs, ls, hcs, h => by
    have htext : (Head.constant x value hvalue : Head names).expr.text full = x :=
      text_constant hvalue
    rw [htext]
    exact tokens_of_name (hp (.name x) (by simp [Head.lexemes])) hcs h
  | .bound x i hconstant hlatest, hp, after, cs, ls, hcs, h => by
    have hget : full[i]? = some x := by
      obtain ⟨hi, hx⟩ := List.getElem?_eq_some_iff.1 hlatest.getElem?_eq
      rw [List.prefix_iff_getElem?.1 hfull i hi, hx]
    have htext : (Head.bound x i hconstant hlatest).expr.text full = x := by
      rw [Head.expr, Expr.text, List.getD_eq_getElem?_getD, hget, Option.getD_some]
    rw [htext]
    exact tokens_of_name (hp (.name x) (by simp [Head.lexemes])) hcs h
  | .list items, hp, after, cs, ls, hcs, h => by
    have hitems := tokens_shownAll hfull (.inr rfl) items
      (fun l hl => hp l (by simp [Head.lexemes, hl])) h
    simpa [Head.expr, Head.shown, Head.lexemes, Phrase.lexemes, Expr.text] using
      tokens_mark (c := '[') (by decide) hitems
  | .bracketed p, hp, after, cs, ls, hcs, h =>
    p.tokens_shown hfull (fun l hl => hp l (by simp [Head.lexemes, hl])) after hcs h
  | .call x path args hconstant hfree, hp, after, cs, ls, hcs, h => by
    have hargs := tokens_shownAll hfull (.inl rfl) args
      (fun l hl => hp l (by simp [Head.lexemes, hl])) h
    have hpath := tokens_path path (hp (.name x) (by simp [Head.lexemes]))
      (fun l hl => hp l (by simp [Head.lexemes, hl])) (apart_mark (by decide) _)
      (tokens_mark (c := '(') (by decide) hargs)
    simpa [Head.expr, Head.shown, Head.lexemes, Phrase.lexemes, Expr.text] using hpath
termination_by structural h => h

theorem tokens_shownMembers {full : List String} (hfull : names <+: full) :
    ∀ (ms : List (Member names)), (∀ l ∈ membersLexemes ms, l.Spelled) →
    ∀ {cs : List Char} {ls : List Lexeme}, Apart cs → Tokens cs ls →
    Tokens ((membersText full ms).toList ++ cs) (membersLexemes (shownMembers ms) ++ ls)
  | [], _, cs, ls, _, h => by simpa [membersText, shownMembers, membersLexemes] using h
  | .field x :: ms, hp, cs, ls, hcs, h => by
    have hms := tokens_shownMembers hfull ms
      (fun l hl => hp l (by simp [membersLexemes, hl])) hcs h
    have hx := tokens_of_name (hp (.name x) (by simp [membersLexemes, Member.lexemes]))
      (apart_membersText hcs ms) hms
    simpa [membersText, memberText, shownMembers, Member.shown, membersLexemes, Member.lexemes] using
      tokens_dot hx
  | .method x args :: ms, hp, cs, ls, hcs, h => by
    have hms := tokens_shownMembers hfull ms
      (fun l hl => hp l (by simp [membersLexemes, hl])) hcs h
    have hargs := tokens_shownAll hfull (.inl rfl) args
      (fun l hl => hp l (by simp [membersLexemes, Member.lexemes, hl])) hms
    have hx := tokens_of_name (hp (.name x) (by simp [membersLexemes, Member.lexemes]))
      (apart_mark (by decide) _) (tokens_mark (c := '(') (by decide) hargs)
    simpa [membersText, memberText, shownMembers, Member.shown, membersLexemes, Member.lexemes] using
      tokens_dot hx
termination_by structural ms => ms

theorem tokens_shownAll {full : List String} (hfull : names <+: full) {close : Char}
    (hclose : close = ')' ∨ close = ']') : ∀ (ps : List (Phrase names)),
    (∀ l ∈ argsLexemes ps, l.Spelled) → ∀ {cs : List Char} {ls : List Lexeme}, Tokens cs ls →
    Tokens ((", ".intercalate (Expr.texts full (exprs ps))).toList ++ close :: cs)
      (argsLexemes (shownAll ps) ++ .mark close :: ls)
  | [], _, cs, ls, h => by
    simpa [exprs, Expr.texts, shownAll, argsLexemes] using tokens_mark (isMark_close hclose) h
  | [p], hp, cs, ls, h => by
    have hp' := p.tokens_shown hfull hp [] (apart_mark (isMark_close hclose) _)
      (tokens_mark (isMark_close hclose) h)
    simpa [exprs, Expr.texts, shownAll, argsLexemes] using hp'
  | p :: q :: ps, hp, cs, ls, h => by
    have hps := tokens_shownAll hfull hclose (q :: ps)
      (fun l hl => hp l (by simp [argsLexemes, hl])) h
    have hp' := p.tokens_shown hfull (fun l hl => hp l (by simp [argsLexemes, hl])) []
      (apart_mark (by decide) _) (tokens_mark (c := ',') (by decide) (tokens_space hps))
    simpa [exprs, Expr.texts, shownAll, argsLexemes, String.intercalate_cons_cons] using hp'
termination_by structural ps => ps

end

/-! The same for blocks. -/

/-- With its keyword and its semicolon. -/
def Block.shown : {names : List String} → Block names → Block names
  | _, .binding x p rest => .binding x (p.shown []) rest.shown
  | _, .result _ p _ _ => .result true (p.shown []) true nofun

def Block.bindings : {names : List String} → Block names → List (String × Expr)
  | _, .binding x p rest => (x, p.expr) :: rest.bindings
  | _, .result _ _ _ _ => []

def Block.value : {names : List String} → Block names → Expr
  | _, .binding _ _ rest => rest.value
  | _, .result _ p _ _ => p.expr

namespace Block

variable (x : String) (p : Phrase names) (rest : Block (names ++ [x])) (keyword semicolon : Bool)
  (hplain : keyword = false → p.Plain)

@[simp] theorem shown_binding :
    (binding x p rest).shown = .binding x (p.shown []) rest.shown := rfl

@[simp] theorem shown_result :
    (result keyword p semicolon hplain).shown = .result true (p.shown []) true nofun := rfl

@[simp] theorem bindings_binding :
    (binding x p rest).bindings = (x, p.expr) :: rest.bindings := rfl

@[simp] theorem bindings_result : (result keyword p semicolon hplain).bindings = [] := rfl

@[simp] theorem value_binding : (binding x p rest).value = rest.value := rfl

@[simp] theorem value_result : (result keyword p semicolon hplain).value = p.expr := rfl

end Block

theorem Block.template_eq (b : Block names) (bindings : List (String × Expr)) :
    b.template bindings = ⟨bindings ++ b.bindings, b.value⟩ := by
  induction b generalizing bindings with
  | binding x p rest ih => simp [ih]
  | result keyword p semicolon hplain => simp

theorem Block.bindings_shown (b : Block names) :
    b.shown.bindings = b.bindings.map fun (x, e) => (x, e.mapStrings reread) := by
  induction b with
  | binding x p rest ih => simp [ih, p.expr_shown, ofMembers]
  | result keyword p semicolon hplain => rfl

theorem Block.value_shown (b : Block names) : b.shown.value = b.value.mapStrings reread := by
  induction b with
  | binding x p rest ih => exact ih
  | result keyword p semicolon hplain => exact p.expr_shown []

/-- A block that binds nothing is shown without its braces. -/
def Derivation.shown : Derivation → Derivation
  | .bare p => .bare (p.shown [])
  | .block (.result _ p _ _) => .bare (p.shown [])
  | .block (.binding x p rest) => .block (Block.binding x p rest).shown

theorem Derivation.template_shown (d : Derivation) :
    d.shown.template = d.template.mapStrings reread := by
  match d with
  | .bare p | .block (.result _ p _ _) =>
    exact congrArg (Template.mk []) (p.expr_shown [])
  | .block (.binding x p rest) =>
    simp only [shown, template, Block.template_eq, Block.bindings_shown, Block.value_shown]
    rfl

def bindingText (full : List String) (b : String × Expr) : String :=
  " let " ++ b.1 ++ " = " ++ b.2.text full ++ ";"

theorem apart_space (cs : List Char) : Apart (' ' :: cs) := apart_cons.2 (by decide +kernel)

theorem spelled_return : (Lexeme.name "return").Spelled := by
  have hstart : StartsName 'r' :=
    ⟨by decide +kernel, by decide, by decide, by decide, by decide +kernel⟩
  have hrest : ∀ c ∈ ['e', 't', 'u', 'r', 'n'], isNameRest c = true :=
    List.all_iff_forall_prop.1 (by decide +kernel)
  exact .name hstart hrest

theorem Block.tokens_shown {full : List String} (b : Block names)
    (hfull : names ++ b.bindings.map (·.1) <+: full) (hb : ∀ l ∈ b.lexemes, l.Spelled) :
    Tokens (b.bindings.flatMap (fun b => (bindingText full b).toList) ++
      (" return " ++ b.value.text full ++ "; \x7d").toList) b.shown.lexemes := by
  induction b with
  | @binding names x p rest ih =>
    have hp : ∀ l ∈ p.lexemes, l.Spelled := fun l hl => hb l (by simp [hl])
    have hprefix : names <+: full := (List.prefix_append _ _).trans hfull
    have hrest := ih (by simpa using hfull)
      fun l hl => hb l (by simp [hl])
    have hvalue := p.tokens_shown hprefix hp [] (apart_mark (by decide) _)
      (tokens_mark (c := ';') (by decide) hrest)
    have hx := tokens_of_name (hb (.name x) (by simp)) (apart_space _)
      (tokens_space (tokens_mark (c := '=') (by decide) (tokens_space hvalue)))
    have hlet := tokens_space (tokens_of_name (hb (.name "let") (by simp))
      (apart_space _) (tokens_space hx))
    simpa [bindingText] using hlet
  | @result names keyword p semicolon hplain =>
    have hp : ∀ l ∈ p.lexemes, l.Spelled := fun l hl => hb l (by simp [hl])
    have hprefix : names <+: full := (List.prefix_append _ _).trans hfull
    have hclose := tokens_mark (c := ';') (by decide)
      (tokens_space (tokens_mark (c := '\x7d') (by decide) (tokens_nil.2 rfl)))
    have hvalue := p.tokens_shown hprefix hp [] (apart_mark (by decide) _) hclose
    have hreturn := tokens_space (tokens_of_name spelled_return (apart_space _)
      (tokens_space hvalue))
    simpa [opening, closing] using hreturn

theorem toList_intercalate_empty (l : List String) :
    ("".intercalate l).toList = l.flatMap String.toList := by
  induction l with
  | nil => rfl
  | cons s l ih => cases l <;> simp_all [String.intercalate_cons_cons]

theorem toList_text_of_bindings {t : Template} (h : t.bindings ≠ []) :
    t.text.toList = '\x7b' :: (t.bindings.flatMap (fun b => (bindingText t.names b).toList) ++
      (" return " ++ t.result.text t.names ++ "; \x7d").toList) := by
  have hshort : t.isShorthand = false := by simpa [isShorthand] using h
  have hlets : (t.bindings.map fun (x, e) => " let " ++ x ++ " = " ++ e.text t.names ++ ";") =
      t.bindings.map (bindingText t.names) := rfl
  rw [text, hshort, if_neg Bool.false_ne_true, hlets]
  simp only [String.toList_append, toList_intercalate_empty, List.flatMap_map, List.append_assoc]
  rfl

theorem Derivation.tokens_shown (d : Derivation) (hd : ∀ l ∈ d.lexemes, l.Spelled) :
    Tokens d.template.text.toList d.shown.lexemes := by
  match d with
  | .bare p | .block (.result _ p _ _) =>
    have hp := p.tokens_shown (List.prefix_refl [])
      (fun l hl => hd l (by simp [lexemes, hl])) [] apart_nil
      (tokens_nil.2 rfl)
    simp only [List.append_nil] at hp
    exact hp
  | .block (.binding x p rest) =>
    have hfull : ([] : List String) ++ (Block.binding x p rest).bindings.map (·.1) <+:
        (Block.binding x p rest).bindings.map (·.1) := List.prefix_refl _
    have hb := Block.tokens_shown (.binding x p rest) hfull
      fun l hl => hd l (List.mem_cons_of_mem _ hl)
    rw [template, Block.template_eq, toList_text_of_bindings (by simp)]
    exact tokens_mark (by decide) hb

/-- The text of a template is read as the template with its strings reread, and so as the template
itself just if every character of its strings is shown as it is or in an escape that is known. -/
theorem ofText_text {text : String} {arity : Nat} {t : Template} (h : ofText text arity = .ok t) :
    ofText t.text arity = .ok (t.mapStrings reread) ∧
    (ofText t.text arity = .ok t ↔ ∀ s ∈ t.strings, ∀ c ∈ s.toList, ComesBack c) ∧
    ∀ c, ¬ ComesBack c ↔ Text.literalChar c = ['\\', '0'] ∨ Text.literalChar c = ['\\', 'r'] ∨
      Text.literalChar c = ['\\', 'u', '\x7b'] ++ Text.hex c ++ ['\x7d'] := by
  obtain ⟨d, hls, rfl, hcaptures⟩ := ofText_eq_ok_iff.1 h
  have hshown : lexemes d.template.text = .ok d.shown.lexemes :=
    lexemes_eq_ok_iff.2 (d.tokens_shown (spelled_of_tokens (lexemes_eq_ok_iff.1 hls)))
  have hread : ofText d.template.text arity = .ok (d.template.mapStrings reread) :=
    ofText_eq_ok_iff.2 ⟨d.shown, hshown, d.template_shown, by rwa [captures_mapStrings]⟩
  refine ⟨hread, ?_, fun _ => not_comesBack_iff⟩
  rw [hread, Except.ok.injEq, mapStrings_eq_iff]
  exact forall₂_congr fun s _ => reread_eq_iff

namespace Keywords

def value (c : Char) : String := .ofList ['x', c]

/-- A binding with the name of a keyword. -/
def text (c : Char) : String := "\x7b let let = ('" ++ value c ++ "'); return let \x7d"

theorem isLatest : IsLatest ["let"] "let" 0 where
  getElem?_eq := rfl
  not_after hj := by simp [Nat.ne_of_gt hj]

def derivation (c : Char) : Derivation :=
  .block (.binding "let" (.mk (.bracketed (.mk (.str (value c)) [])) [])
    (.result true (.mk (.bound "let" 0 rfl isLatest) []) false nofun))

def template (c : Char) : Template := ⟨[("let", .literal (.str (value c)))], .bound 0⟩

/-- A quote comes back, a carriage return is lost. -/
theorem ofText_shown :
    ofText (text '"') 0 = .ok (template '"') ∧
    ofText (template '"').text 0 = .ok (template '"') ∧
    ofText (text '\r') 0 = .ok (template '\r') ∧
    ofText (template '\r').text 0 = .ok (template 'r') ∧
    ofText (template '\r').text 0 ≠ .ok (template '\r') := by
  have hquote : ofText (text '"') 0 = .ok (template '"') :=
    ofText_eq_ok_iff.2 ⟨derivation '"', by decide +kernel, rfl, rfl⟩
  have hreturn : ofText (text '\r') 0 = .ok (template '\r') :=
    ofText_eq_ok_iff.2 ⟨derivation '\r', by decide +kernel, rfl, rfl⟩
  have hback : reread (value '"') = value '"' := by decide +kernel
  have hlost : ¬ ComesBack '\r' := by decide +kernel
  refine ⟨hquote, (ofText_text hquote).2.1.2 (List.forall_mem_singleton.2 (reread_eq_iff.1 hback)),
    hreturn, (ofText_text hreturn).1, fun h => hlost ?_⟩
  exact (ofText_text hreturn).2.1.1 h (value '\r') (List.mem_singleton_self _) '\r' (by decide)

end Keywords
end Template
end Lalr
