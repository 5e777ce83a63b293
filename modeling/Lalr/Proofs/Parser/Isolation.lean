import Lalr.Proofs.Parser.Calls
import Mathlib.Data.List.SplitBy

/-!
One parse does not tell on the next. Wherever a parse is over, the calls that follow are answered as
by a new parser that has the context which is left, and to parse a list is to start anew, to take
its tokens one by one and to finish.
-/

namespace Lalr

variable {ν σ V : Type}

abbrev Answer (V : Type) := Except ParseError (Option V)

def Call.isReset : Call V → Bool
  | .reset => true
  | _ => false

/-- A token was taken, and the parse can go on with the next call. -/
def goesOn : Call V × Answer V → Bool
  | (.addToken _, .ok _) => true
  | _ => false

/-- Calls with their answers, cut after each failure, after each call for a value and on both sides
of each reset. -/
def segments (log : List (Call V × Answer V)) : List (List (Call V × Answer V)) :=
  log.splitBy fun x y => goesOn x && !y.1.isReset

namespace Parser

variable {m : Machine ν σ V} {p p' : Parser σ V} {log : List (Call V × Answer V)}

/-- The calls get these answers. -/
def Answers (m : Machine ν σ V) (p : Parser σ V) (log : List (Call V × Answer V))
    (p' : Parser σ V) : Prop :=
  p.calls m (log.map (·.1)) = some (log.map (·.2), p')

/-- The calls of each segment get their answers from a new parser, with the context that the
segment before it left. -/
inductive AnswersApart (m : Machine ν σ V) : σ → List (List (Call V × Answer V)) → σ → Prop
  | nil (c : σ) : AnswersApart m c [] c
  | cons {c c' segment rest p} (h : ({ context := c } : Parser σ V).Answers m segment p)
      (hrest : AnswersApart m p.context rest c') : AnswersApart m c (segment :: rest) c'

@[simp] theorem answers_nil : p.Answers m [] p' ↔ p = p' := by simp [Answers, calls]

theorem answers_cons {x : Call V × Answer V} :
    p.Answers m (x :: log) p' ↔ ∃ q, p.call m x.1 = some (x.2, q) ∧ q.Answers m log p' := by
  rw [Answers, List.map_cons, List.map_cons, calls_cons_eq_some]
  constructor
  · rintro ⟨answer, rest, q, heq, hcall, hcalls⟩
    obtain ⟨rfl, rfl⟩ := List.cons.inj heq
    exact ⟨q, hcall, hcalls⟩
  · rintro ⟨q, hcall, hcalls⟩
    exact ⟨_, _, q, rfl, hcall, hcalls⟩

theorem answers_append {log' : List (Call V × Answer V)} :
    p.Answers m (log ++ log') p' ↔ ∃ q, p.Answers m log q ∧ q.Answers m log' p' := by
  induction log generalizing p with
  | nil => simp
  | cons x log ih =>
    simp only [List.cons_append, answers_cons, ih]
    constructor
    · rintro ⟨q, hcall, r, hlog, hlog'⟩
      exact ⟨r, ⟨q, hcall, hlog⟩, hlog'⟩
    · rintro ⟨r, ⟨q, hcall, hlog⟩, hlog'⟩
      exact ⟨q, hcall, r, hlog, hlog'⟩

/-- Every call is answered. -/
theorem exists_log {calls : List (Call V)} {answers : List (Answer V)}
    (h : p.calls m calls = some (answers, p')) :
    ∃ log, log.map (·.1) = calls ∧ log.map (·.2) = answers ∧ p.Answers m log p' := by
  suffices hlength : calls.length = answers.length by
    refine ⟨calls.zip answers, List.map_fst_zip (Nat.le_of_eq hlength),
      List.map_snd_zip (Nat.le_of_eq hlength.symm), ?_⟩
    rwa [Answers, List.map_fst_zip (Nat.le_of_eq hlength),
      List.map_snd_zip (Nat.le_of_eq hlength.symm)]
  induction calls generalizing p answers with
  | nil =>
    cases h
    rfl
  | cons call calls ih =>
    obtain ⟨answer, rest, q, rfl, -, hcalls⟩ := calls_cons_eq_some.1 h
    rw [List.length_cons, List.length_cons, ih hcalls]

theorem addToken_error {t : Token V} {e : ParseError}
    (h : p.addToken m t = some (.error e, p')) : p' = { context := p'.context } := by
  cases added h <;> rfl

theorem finish_new {here : Location} {result : Except ParseError V}
    (h : p.finish m here = some (result, p')) : p' = { context := p'.context } := by
  cases finished h <;> rfl

theorem addTokens_new {ts : List (Token V)} {result : Except ParseError V}
    (h : p.addTokens m ts = some (result, p')) : p' = { context := p'.context } := by
  induction ts generalizing p with
  | nil => exact finish_new h
  | cons t ts ih =>
    rw [addTokens] at h
    split at h
    · exact finish_new h
    · obtain ⟨⟨_ | _, q⟩, hadd, h⟩ := Option.bind_eq_some_iff.1 h
      · cases h
        exact addToken_error hadd
      · exact ih h

/-- A call that ends a parse leaves a new parser. -/
theorem call_new {x : Call V × Answer V} (h : p.call m x.1 = some (x.2, p'))
    (hx : goesOn x = false) : p' = { context := p'.context } := by
  obtain ⟨call, answer⟩ := x
  cases called h with
  | @addToken _ result _ hadd =>
    cases result with
    | ok u => cases hx
    | error e => exact addToken_error hadd
  | finish hfinish => exact finish_new hfinish
  | parse hparse => exact addTokens_new hparse
  | reset => rfl

/-- What came before a reset makes no difference after it. -/
theorem answers_of_reset {y : Call V × Answer V} (hy : y.1.isReset = true) :
    p.Answers m (y :: log) p' ↔
      ({ context := p.context } : Parser σ V).Answers m (y :: log) p' := by
  obtain ⟨call, answer⟩ := y
  cases call with
  | reset => rw [answers_cons, answers_cons]; rfl
  | addToken t => cases hy
  | finish here => cases hy
  | parse ts => cases hy

theorem Answers.new (h : p.Answers m log p') (hne : log ≠ [])
    (hlast : goesOn (log.getLast hne) = false) : p' = { context := p'.context } := by
  rw [← List.dropLast_concat_getLast hne] at h
  obtain ⟨q, -, h⟩ := answers_append.1 h
  obtain ⟨r, hcall, hr⟩ := answers_cons.1 h
  rw [answers_nil] at hr
  subst hr
  exact call_new hcall hlast

/-- Where a parse is over, the parser may be exchanged for a new one. -/
theorem Answers.exchange {segment : List (Call V × Answer V)}
    {rest : List (List (Call V × Answer V))} (h : p.Answers m segment p')
    (hcut : ∀ next ∈ rest.head?, ∃ (ha : segment ≠ []) (hb : next ≠ []),
      (goesOn (segment.getLast ha) && !(next.head hb).1.isReset) = false) (c : σ) :
    (∃ q, p'.Answers m rest.flatten q ∧ q.context = c) ↔
      ∃ q, ({ context := p'.context } : Parser σ V).Answers m rest.flatten q ∧ q.context = c := by
  cases rest with
  | nil => simp
  | cons next rest =>
    obtain ⟨ha, hb, hcut⟩ := hcut next rfl
    cases hlast : goesOn (segment.getLast ha) with
    | false => rw [← h.new ha hlast]
    | true =>
      have hreset : (next.head hb).1.isReset = true := by simpa [hlast] using hcut
      rw [List.flatten_cons, ← List.cons_head_tail hb, List.cons_append]
      simp only [answers_of_reset (p := p') hreset]

theorem answersApart_iff {segments : List (List (Call V × Answer V))} {c c' : σ}
    (hcut : segments.IsChain fun a b => ∃ (ha : a ≠ []) (hb : b ≠ []),
      (goesOn (a.getLast ha) && !(b.head hb).1.isReset) = false) :
    AnswersApart m c segments c' ↔
      ∃ p', ({ context := c } : Parser σ V).Answers m segments.flatten p' ∧ p'.context = c' := by
  induction segments generalizing c with
  | nil =>
    constructor
    · rintro ⟨⟩
      exact ⟨_, answers_nil.2 rfl, rfl⟩
    · rintro ⟨p', h, rfl⟩
      rw [List.flatten_nil, answers_nil] at h
      subst h
      exact .nil c
  | cons segment rest ih =>
    rw [List.isChain_cons] at hcut
    constructor
    · rintro (_ | ⟨h, hrest⟩)
      obtain ⟨p', hp', rfl⟩ := (h.exchange hcut.1 c').2 ((ih hcut.2).1 hrest)
      exact ⟨p', answers_append.2 ⟨_, h, hp'⟩, rfl⟩
    · rintro ⟨p', h, rfl⟩
      obtain ⟨q, hsegment, hrest⟩ := answers_append.1 h
      exact .cons hsegment ((ih hcut.2).2 ((hsegment.exchange hcut.1 _).1 ⟨p', hrest, rfl⟩))

/-- Any calls on a parser get the answers that those of each segment get from a parser of their own,
which starts with the context that the segment before left. And to parse a list is to reset, to take
the tokens up to the first that ends the input or is not taken, and where all were taken to finish,
at the token that ends the input or else at the last one. -/
theorem calls_apart (m : Machine ν σ V) :
    (∀ (c : σ) calls answers c',
      (∃ p', ({ context := c } : Parser σ V).calls m calls = some (answers, p') ∧ p'.context = c') ↔
        ∃ log, log.map (·.1) = calls ∧ log.map (·.2) = answers ∧
          AnswersApart m c (segments log) c') ∧
    ∀ (p : Parser σ V) ts, p.parse m ts = (do
      match ← p.reset.push m (ts.takeWhile (·.terminal ≠ Grammar.endName)) with
      | (.ok (), q) => q.finish m (((ts.find? (·.terminal = Grammar.endName)).or ts.getLast?).map
          Token.location |>.getD {})
      | (.error e, q) => return (.error e, q)) := by
  have hsegments : ∀ (log : List (Call V × Answer V)) (c c' : σ),
      AnswersApart m c (segments log) c' ↔
        ∃ p', ({ context := c } : Parser σ V).Answers m log p' ∧ p'.context = c' := by
    intro log c c'
    have hcut := List.isChain_getLast_head_splitBy
      (fun x y : Call V × Answer V => goesOn x && !y.1.isReset) log
    rw [segments, answersApart_iff hcut, List.flatten_splitBy]
  constructor
  · intro c calls answers c'
    simp only [hsegments]
    constructor
    · rintro ⟨p', h, rfl⟩
      obtain ⟨log, hcalls, hanswers, hlog⟩ := exists_log h
      exact ⟨log, hcalls, hanswers, p', hlog, rfl⟩
    · rintro ⟨log, rfl, rfl, p', hlog, rfl⟩
      exact ⟨p', hlog, rfl⟩
  · intro p ts
    rw [parse, addTokens_eq, ← endOf_eq]
    rfl

end Parser
end Lalr
