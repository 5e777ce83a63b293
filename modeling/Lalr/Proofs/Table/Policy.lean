import Lalr.Proofs.Table.Resolution
import Mathlib.Data.List.Flatten

/-!
The policy for ties. It decides no cell: where several rules are favoured the earliest is chosen under
either policy, and the tie is a finding under the one and a clash under the other. So rejecting ties
changes nothing about a table but that there is none where there are ties.
-/

namespace Lalr

variable {ν : Type}

def Finding.isTie : Finding → Bool
  | .tieByOrder _ _ _ => true
  | .unusedToken _ | .neverReduced _ => false

/-- The tie that was found is a clash between the rules of the group. -/
def Verdict.rejecting (v : Verdict) (group : List Nat) : Verdict :=
  { v with
    tie := none
    clashes := (v.tie.map fun _ => Clash.reduceReduce group).toList ++ v.clashes }

namespace Ranking

variable {rank : Ranking} {terminal : Nat} {shift? : Option Nat} {rules : List Nat}

def withPolicy (rank : Ranking) (policy : TiePolicy) : Ranking := { rank with policy }

@[simp] theorem favoured_withPolicy (rank : Ranking) (policy : TiePolicy) :
    (rank.withPolicy policy).favoured = rank.favoured := rfl

@[simp] theorem against_withPolicy (rank : Ranking) (policy : TiePolicy) :
    (rank.withPolicy policy).against = rank.against := rfl

@[simp] theorem policy_withPolicy (rank : Ranking) (policy : TiePolicy) :
    (rank.withPolicy policy).policy = policy := rfl

theorem verdict_reject (rank : Ranking) (terminal : Nat) (shift? : Option Nat)
    (rules : List Nat) :
    (rank.withPolicy .reject).verdict terminal shift? rules =
      ((rank.withPolicy .earliest).verdict terminal shift? rules).rejecting
        (rank.favoured rules) := by
  cases hhead : (rank.favoured rules).head? with
  | none => simp [verdict, Verdict.rejecting, hhead]
  | some winner =>
    by_cases htied : 1 < (rank.favoured rules).length <;>
      simp [verdict, Verdict.rejecting, hhead, htied]

theorem mem_of_tie {winner : Nat}
    (h : (rank.verdict terminal shift? rules).tie = some winner) : winner ∈ rules := by
  cases hhead : (rank.favoured rules).head? with
  | none => simp [verdict, hhead] at h
  | some first =>
    have hfirst : first = winner := by
      simp only [verdict, hhead, Option.ite_none_right_eq_some, Option.some.injEq] at h
      exact h.2
    exact (rank.favoured_sublist rules).subset (List.mem_of_mem_head? (hfirst ▸ hhead))

end Ranking

/-! The same declarations, grammar and table under another policy. -/

def Spec.withPolicy (spec : Spec ν) (policy : TiePolicy) : Spec ν := { spec with policy }

def Grammar.withPolicy (g : Grammar ν) (policy : TiePolicy) : Grammar ν := { g with policy }

/-- The rows with what was dropped, the states and the findings are the same. -/
def Table.withPolicy (t : Table ν) (policy : TiePolicy) : Table ν :=
  { t with grammar := t.grammar.withPolicy policy }

theorem Grammar.verdict_reject (g : Grammar ν) (q a : Nat) :
    (g.withPolicy .reject).verdict q a =
      ((g.withPolicy .earliest).verdict q a).rejecting
        (g.ranking.favoured (g.cfg.reducible q a)) :=
  g.ranking.verdict_reject a (g.cfg.goTo q (.terminal a)) (g.cfg.reducible q a)

namespace Analysis

variable {g : Grammar ν}

theorem cells_reject (g : Grammar ν) :
    (ofGrammar (g.withPolicy .reject)).cells =
      (ofGrammar (g.withPolicy .earliest)).cells.map fun (q, a, v) =>
        (q, a, v.rejecting (g.ranking.favoured (g.cfg.reducible q a))) := by
  simp only [cells_ofGrammar, Grammar.verdict_reject, List.map_flatMap, List.map_map,
    Function.comp_def]
  rfl

/-! What becomes of the moves is the same under both policies. -/

theorem rows_reject (g : Grammar ν) :
    (ofGrammar (g.withPolicy .reject)).table.rows =
      (ofGrammar (g.withPolicy .earliest)).table.rows := by
  simp only [table, verdicts_ofGrammar, Array.map_map, Function.comp_def, Grammar.verdict_reject]
  rfl

theorem isReduced_reject (g : Grammar ν) (r : Nat) :
    (ofGrammar (g.withPolicy .reject)).isReduced r =
      (ofGrammar (g.withPolicy .earliest)).isReduced r := by
  simp only [isReduced, cells_reject, List.any_map]
  rfl

theorem isDisplaced_reject (g : Grammar ν) (r : Nat) :
    (ofGrammar (g.withPolicy .reject)).isDisplaced r =
      (ofGrammar (g.withPolicy .earliest)).isDisplaced r := by
  simp only [isDisplaced, cells_reject, List.any_map]
  rfl

theorem unreduced_reject (g : Grammar ν) :
    (ofGrammar (g.withPolicy .reject)).unreduced =
      (ofGrammar (g.withPolicy .earliest)).unreduced := by
  simp only [unreduced, isReduced_reject]
  rfl

/-! What becomes of the ties is not. -/

theorem ties_eq_nil_iff :
    (ofGrammar g).ties = [] ↔ ∀ x ∈ (ofGrammar g).cells, x.2.2.tie = none := by
  rw [ties, List.filterMap_eq_nil_iff]
  refine forall₂_congr fun ⟨q, a, v⟩ hcell => ?_
  obtain ⟨-, -, rfl⟩ := mem_cells_ofGrammar.1 hcell
  cases htie : (g.verdict q a).tie with
  | none => simp [htie]
  | some winner =>
    -- a tie is won by a rule of the grammar, so that there is a rule to speak of
    have hlt : winner < g.productions.size := by
      simpa [Grammar.cfg] using (Cfg.mem_reducible_iff.1 (Ranking.mem_of_tie htie)).1
    simp [ofGrammar, htie, hlt]

theorem isTie_of_mem_ties {a : Analysis ν} {d : Diagnostic} (h : d ∈ a.ties) :
    d.finding.isTie = true := by
  obtain ⟨⟨q, t, v⟩, -, h⟩ := List.mem_filterMap.1 h
  obtain ⟨r, -, h⟩ := Option.bind_eq_some_iff.1 h
  obtain ⟨p, -, h⟩ := Option.bind_eq_some_iff.1 h
  cases h
  rfl

theorem ties_reject (g : Grammar ν) : (ofGrammar (g.withPolicy .reject)).ties = [] := by
  rw [ties_eq_nil_iff, cells_reject, List.forall_mem_map]
  exact fun _ _ => rfl

theorem conflicts_sublist (g : Grammar ν) :
    (ofGrammar (g.withPolicy .earliest)).conflicts.Sublist
      (ofGrammar (g.withPolicy .reject)).conflicts := by
  simp only [conflicts, cells_reject, List.flatMap_map]
  refine List.Sublist.flatMap_right _ fun x _ => ?_
  exact (List.sublist_append_right ..).map _

theorem conflicts_reject_of_untied (h : (ofGrammar (g.withPolicy .earliest)).ties = []) :
    (ofGrammar (g.withPolicy .reject)).conflicts =
      (ofGrammar (g.withPolicy .earliest)).conflicts := by
  simp only [conflicts, cells_reject, List.flatMap_map]
  refine List.flatMap_congr fun x hx => ?_
  simp only [Verdict.rejecting, ties_eq_nil_iff.1 h x hx, Option.map_none, Option.toList_none,
    List.nil_append]
  rfl

theorem conflicts_reject_of_tied (h : (ofGrammar (g.withPolicy .earliest)).ties ≠ []) :
    (ofGrammar (g.withPolicy .reject)).conflicts ≠ [] := by
  rw [ne_eq, ties_eq_nil_iff] at h
  push Not at h
  obtain ⟨x, hx, htie⟩ := h
  obtain ⟨winner, hwinner⟩ := Option.ne_none_iff_exists'.1 htie
  simp only [conflicts, cells_reject, List.flatMap_map, ne_eq, List.flatMap_eq_nil_iff]
  exact fun hnil => by simpa [Verdict.rejecting, hwinner] using hnil x hx

theorem table_reject_of_untied (h : (ofGrammar (g.withPolicy .earliest)).ties = []) :
    (ofGrammar (g.withPolicy .reject)).table =
      (ofGrammar (g.withPolicy .earliest)).table.withPolicy .reject := by
  have hfindings : (ofGrammar (g.withPolicy .reject)).table.diagnostics =
      (ofGrammar (g.withPolicy .earliest)).table.diagnostics := by
    simp only [table, neverReduced, unreduced_reject, ties_reject, h]
    rfl
  rw [Table.withPolicy, ← hfindings, ← rows_reject]
  rfl

/-- A table speaks of ties just if there are some. -/
theorem untied_table_iff (hg : ∀ d ∈ g.diagnostics, d.finding.isTie = false) :
    (∀ d ∈ (ofGrammar g).table.diagnostics, d.finding.isTie = false) ↔
      (ofGrammar g).ties = [] := by
  have hnever : ∀ d ∈ (ofGrammar g).neverReduced, d.finding.isTie = false := by
    rw [neverReduced, List.forall_mem_map]
    exact fun _ _ => rfl
  constructor
  · intro h
    rw [List.eq_nil_iff_forall_not_mem]
    intro d hd
    have hmem : d ∈ (ofGrammar g).table.diagnostics :=
      List.mem_append_left _ (List.mem_append_right _ hd)
    exact Bool.false_ne_true ((h d hmem).symm.trans (isTie_of_mem_ties hd))
  · intro h d hd
    rcases List.mem_append.1 hd with hd | hd
    · rw [h, List.append_nil] at hd
      exact hg d hd
    · exact hnever d hd

end Analysis

namespace Grammar

variable {g : Grammar ν}

/-- Without ties the policy makes no difference, not even to what a build fails for. -/
theorem build_reject_of_untied (h : (Analysis.ofGrammar (g.withPolicy .earliest)).ties = []) :
    (g.withPolicy .reject).build =
      (g.withPolicy .earliest).build.map (·.withPolicy .reject) := by
  simp only [build, Analysis.build, Analysis.conflicts_reject_of_untied h,
    Analysis.unreduced_reject, Analysis.isDisplaced_reject, Analysis.table_reject_of_untied h]
  split <;> rfl

theorem build_of_conflicts (h : (Analysis.ofGrammar g).conflicts ≠ []) :
    g.build = .error (.conflicts (Analysis.ofGrammar g).conflicts) :=
  build_of_clashes (not_not.1 fun hclash => h (conflicts_eq_nil_iff.2 hclash))

theorem of_build_eq_conflicts {cs : List Conflict} (h : g.build = .error (.conflicts cs)) :
    cs ≠ [] ∧ cs = (Analysis.ofGrammar g).conflicts := by
  by_cases hnil : (Analysis.ofGrammar g).conflicts = []
  · have hclash := conflicts_eq_nil_iff.1 hnil
    obtain hused | ⟨r, p, hr⟩ := g.used_or_firstUnused
    · rw [build_of_used hclash hused] at h
      cases h
    · rw [build_of_firstUnused hclash hr] at h
      cases h
  · rw [build_of_conflicts hnil] at h
    cases h
    exact ⟨hnil, rfl⟩

theorem build_reject_eq_ok_iff (hg : ∀ d ∈ g.diagnostics, d.finding.isTie = false) {t : Table ν} :
    (g.withPolicy .reject).build = .ok t ↔
      ∃ t', (g.withPolicy .earliest).build = .ok t' ∧
        (∀ d ∈ t'.diagnostics, d.finding.isTie = false) ∧ t = t'.withPolicy .reject := by
  have huntied : ∀ {t'}, (g.withPolicy .earliest).build = .ok t' →
      ((∀ d ∈ t'.diagnostics, d.finding.isTie = false) ↔
        (Analysis.ofGrammar (g.withPolicy .earliest)).ties = []) := by
    intro t' ht'
    rw [(of_build ht').2.2]
    exact Analysis.untied_table_iff hg
  by_cases hties : (Analysis.ofGrammar (g.withPolicy .earliest)).ties = []
  · rw [build_reject_of_untied hties, Except.map_eq_ok]
    refine exists_congr fun t' => and_congr_right fun ht' => ?_
    rw [eq_comm, and_iff_right ((huntied ht').2 hties)]
  · rw [build_of_conflicts (Analysis.conflicts_reject_of_tied hties)]
    refine iff_of_false nofun ?_
    rintro ⟨t', ht', hnone, -⟩
    exact hties ((huntied ht').1 hnone)

theorem build_reject_of_conflicts {cs : List Conflict}
    (h : (g.withPolicy .earliest).build = .error (.conflicts cs)) :
    ∃ cs', (g.withPolicy .reject).build = .error (.conflicts cs') ∧ cs.Sublist cs' := by
  obtain ⟨hne, rfl⟩ := of_build_eq_conflicts h
  have hsub := Analysis.conflicts_sublist g
  exact ⟨_, build_of_conflicts fun hnil => hne (List.eq_nil_of_sublist_nil (hnil ▸ hsub)), hsub⟩

end Grammar

namespace Spec

variable {spec : Spec ν}

theorem assemble_withPolicy (spec : Spec ν) (policy : TiePolicy) :
    (spec.withPolicy policy).assemble = spec.assemble.map (·.withPolicy policy) := by
  have hfault : (spec.withPolicy policy).fault? = spec.fault? := rfl
  rw [assemble, assemble, hfault]
  split <;> rfl

theorem isTie_of_assemble {g : Grammar ν} (h : spec.assemble = .ok g) :
    ∀ d ∈ g.diagnostics, d.finding.isTie = false := by
  obtain rfl := (assemble_eq_ok h).2
  exact List.forall_mem_map.2 fun _ _ => rfl

theorem build_withPolicy_of_assemble {g : Grammar ν} (h : spec.assemble = .ok g)
    (policy : TiePolicy) : (spec.withPolicy policy).build = (g.withPolicy policy).build := by
  rw [build, assemble_withPolicy, h]
  rfl

theorem build_withPolicy_of_error {e : GrammarError} (h : spec.assemble = .error e)
    (policy : TiePolicy) : (spec.withPolicy policy).build = .error (.grammar e) := by
  rw [build, assemble_withPolicy, h]
  rfl

/-- Rejecting ties only rejects. There is a table just if there is one where the earliest rule is
taken and no tie was found for it, and then it is that table, with the same moves, dropped moves and
findings. Conflicts that were there anyway are among those that are reported. -/
theorem reject_only_rejects (spec : Spec ν) :
    (∀ t, (spec.withPolicy .reject).build = .ok t ↔
      ∃ t', (spec.withPolicy .earliest).build = .ok t' ∧
        (∀ d ∈ t'.diagnostics, d.finding.isTie = false) ∧ t = t'.withPolicy .reject) ∧
    ∀ cs, (spec.withPolicy .earliest).build = .error (.conflicts cs) →
      ∃ cs', (spec.withPolicy .reject).build = .error (.conflicts cs') ∧ cs.Sublist cs' := by
  cases hassemble : spec.assemble with
  | error e =>
    simp only [build_withPolicy_of_error hassemble]
    simp
  | ok g =>
    simp only [build_withPolicy_of_assemble hassemble]
    exact ⟨fun t => Grammar.build_reject_eq_ok_iff (isTie_of_assemble hassemble),
      fun cs => Grammar.build_reject_of_conflicts⟩

end Spec

/-- Rules for names and numbers tie. -/
example :
    let declared : Except _ (Spec Unit) := Spec.declareAll {} [(default, .tokens "n"),
      (default, .rule "value" "number" (.native ()) none),
      (default, .rule "value" "name" (.native ()) none),
      (default, .rule "number" "n" (.native ()) none), (default, .rule "name" "n" (.native ()) none)]
    declared.toOption.map (fun spec => [.earliest, .reject].map fun policy =>
      (spec.withPolicy policy).build.toOption.isSome) = some [true, false] := by
  decide +kernel

end Lalr
