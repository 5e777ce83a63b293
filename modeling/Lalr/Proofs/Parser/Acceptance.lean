import Lalr.Proofs.Parser.Moves
import Lalr.Proofs.Table.Bounds

/-!
There is one cell in which a whole input is accepted. A token is taken only by shifting it, and the
end of input only by way of that cell.
-/

namespace Lalr

variable {ν σ V : Type}

open Relation (ReflTransGen)

/-- A built table speaks only of what is there, the end of input is never shifted, and it is
accepted in the state after a sentence alone, in no other cell. So a token that is taken was
shifted, and a value is that of a sentence on top of the stack in that state. -/
theorem Parser.accepts_in_one_cell {m : Machine ν σ V} (hm : m.table.IsBuilt) :
    m.table.Closed ∧ ∃ q, m.table.goto? 0 m.table.grammar.start = some q ∧
      (∀ q' a, m.table.move q' a = .accept ↔ q' = q ∧ a = 0) ∧
      (∀ (p p' : Parser σ V) token, p.addToken m token = some (.ok (), p') → ∃ a x q',
        m.table.grammar.terminal? token.terminal = some a ∧
        ReflTransGen (m.Reduces (.token a token.value) token.location) (p.stack, p.context) x ∧
        m.table.lookup x.1.state a = .shift q' ∧
        p'.stack = ⟨q', token.value, token.location⟩ :: x.1) ∧
      ∀ (p p' : Parser σ V) here v, p.finish m here = some (.ok v, p') → ∃ frame below,
        ReflTransGen (m.Reduces .endOfInput here) (p.stack, p.context)
          (frame :: below, p'.context) ∧
        frame.state = q ∧ frame.value = v := by
  obtain ⟨q₀, a₀, hmove⟩ := hm.exists_move_accept
  obtain ⟨-, hq⟩ := hm.goto?_of_move_accept hmove
  refine ⟨hm.closed, q₀, hq, fun q' a => hm.move_eq_accept_iff hq,
    fun p p' token hadd => addToken_shifts hm hadd, fun p p' here v hfinish => ?_⟩
  obtain ⟨frame, below, hx, haccept, hvalue⟩ := finish_accepts hm hfinish
  exact ⟨frame, below, hx, ((hm.move_eq_accept_iff hq).1 haccept).1, hvalue⟩

/-- State 1 is the one after a sum. -/
theorem Sums.accepts_in_state_one :
    table.Closed ∧ table.goto? 0 table.grammar.start = some 1 ∧
      ∀ q a, table.move q a = .accept ↔ q = 1 ∧ a = 0 := by
  obtain ⟨hclosed, q, hq, haccept, -⟩ := Parser.accepts_in_one_cell (m := machine) isBuilt
  have hone : table.goto? 0 table.grammar.start = some 1 := by decide +kernel
  obtain rfl : q = 1 := Option.some.inj (hq.symm.trans hone)
  exact ⟨hclosed, hone, haccept⟩

end Lalr
