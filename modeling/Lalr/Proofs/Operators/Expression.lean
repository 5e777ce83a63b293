import Lalr.Grammar.Spec
import Lalr.Parser.Basic
import Mathlib.Data.List.Forall2

/-!
Operators in bands of precedence, and expressions over them, written with brackets only where the
bands would group the operands otherwise.
-/

namespace Lalr

variable {V : Type}

/-- Bands of operators, the loosest first. An operator is in one band only, and none of them is a
symbol that expressions are made of besides. -/
structure Operators where
  bands : List (Associativity × List String)
  nodup : (bands.flatMap (·.2)).Nodup
  isSymbolName {o : String} : o ∈ bands.flatMap (·.2) → Text.isSymbolName o = true
  fresh {o : String} : o ∈ bands.flatMap (·.2) → o ∉ ["E", "NUM", "(", ")"]

namespace Operators

def names (ops : Operators) : List String := ops.bands.flatMap (·.2)

def Operator (ops : Operators) : Type := { o : String // o ∈ ops.names }

instance (ops : Operators) : DecidableEq ops.Operator :=
  inferInstanceAs (DecidableEq { o : String // o ∈ ops.names })

variable (ops : Operators)

/-- The number of bands that are looser. -/
def level (o : ops.Operator) : Nat := ops.bands.findIdx (o.1 ∈ ·.2)

theorem exists_band (o : ops.Operator) : ∃ b ∈ ops.bands, o.1 ∈ b.2 :=
  List.mem_flatMap.1 o.2

theorem level_lt (o : ops.Operator) : ops.level o < ops.bands.length :=
  List.findIdx_lt_length.2 (by simpa using ops.exists_band o)

def associativity (o : ops.Operator) : Associativity := (ops.bands.get ⟨_, ops.level_lt o⟩).1

/-- Operators on one level are in one band. -/
theorem associativity_eq {o p : ops.Operator} (h : ops.level o = ops.level p) :
    ops.associativity o = ops.associativity p := by
  unfold associativity
  congr 2
  exact Fin.ext h

/-- Of `x o y p z` the last two are taken together. -/
def GroupsRight (o p : ops.Operator) : Prop :=
  ops.level o < ops.level p ∨ ops.level o = ops.level p ∧ ops.associativity p = .right

/-- Of `x o y p z` the first two are taken together. -/
def GroupsLeft (o p : ops.Operator) : Prop :=
  ops.level p < ops.level o ∨ ops.level o = ops.level p ∧ ops.associativity p = .left

/-- An operand with `p` on top needs brackets on that side of `o`. -/
def NeedsBrackets (side : Associativity) (o p : ops.Operator) : Prop :=
  ops.level p < ops.level o ∨ ops.level p = ops.level o ∧ ops.associativity o ≠ side

instance (side : Associativity) (o p : ops.Operator) : Decidable (ops.NeedsBrackets side o p) :=
  inferInstanceAs (Decidable (_ ∨ _ ∧ _))

variable {ops}

theorem groupsLeft_of_not_needsBrackets {o p : ops.Operator} (h : ¬ ops.NeedsBrackets .left o p) :
    ops.GroupsLeft p o := by
  rw [NeedsBrackets, not_or, not_and_or, not_ne_iff] at h
  unfold GroupsLeft
  rcases h.2 with hne | hleft
  · exact .inl (by omega)
  · exact (Nat.lt_or_eq_of_le (Nat.le_of_not_lt h.1)).imp_right fun heq => ⟨heq.symm, hleft⟩

theorem groupsRight_of_not_needsBrackets {o p : ops.Operator}
    (h : ¬ ops.NeedsBrackets .right o p) : ops.GroupsRight o p := by
  rw [NeedsBrackets, not_or, not_and_or, not_ne_iff] at h
  unfold GroupsRight
  rcases h.2 with hne | hright
  · exact .inl (by omega)
  · exact (Nat.lt_or_eq_of_le (Nat.le_of_not_lt h.1)).imp_right fun heq =>
      ⟨heq, (ops.associativity_eq heq).symm.trans hright⟩

/-- What waits for `o` waits for what binds tighter on its left. -/
theorem GroupsRight.of_groupsLeft {o p q : ops.Operator} (h : ops.GroupsRight q o)
    (hp : ops.GroupsLeft p o) : ops.GroupsRight q p := by
  rcases h with hlt | ⟨heq, hright⟩ <;> rcases hp with hlt' | ⟨heq', hleft⟩
  · exact .inl (by omega)
  · exact .inl (by omega)
  · exact .inl (by omega)
  · rw [hright] at hleft
    cases hleft

/-- What ends `o` ends what binds tighter on its right. -/
theorem GroupsLeft.of_groupsRight {o p q : ops.Operator} (h : ops.GroupsLeft o p)
    (hq : ops.GroupsRight o q) : ops.GroupsLeft q p := by
  rcases h with hlt | ⟨heq, hleft⟩ <;> rcases hq with hlt' | ⟨heq', hright⟩
  · exact .inl (by omega)
  · exact .inl (by omega)
  · exact .inl (by omega)
  · rw [← ops.associativity_eq heq', ops.associativity_eq heq, hleft] at hright
    cases hright

/-- What is written between blanks. -/
inductive Mark (ops : Operators)
  | number
  | opening
  | closing
  | operator (o : ops.Operator)
  deriving DecidableEq

def Mark.name : Mark ops → String
  | .number => "NUM"
  | .opening => "("
  | .closing => ")"
  | .operator o => o.1

/-- The leaves are numbers. -/
inductive Expression (ops : Operators) (V : Type)
  | number (value : V)
  | binary (o : ops.Operator) (left right : Expression ops V)

namespace Expression

/-- What an expression comes to where nodes are made that way. -/
def fold (node : ops.Operator → V → V → V) : Expression ops V → V
  | .number v => v
  | .binary o l r => node o (l.fold node) (r.fold node)

def top? : Expression ops V → Option ops.Operator
  | .number _ => none
  | .binary o _ _ => some o

/-- A number is written with its value. -/
abbrev Writing (ops : Operators) (V : Type) := List (Mark ops × Option V)

def enclose (w : Writing ops V) : Writing ops V := (.opening, none) :: w ++ [(.closing, none)]

/-- The writing of an expression as an operand on that side of an operator. -/
def operand (side : Associativity) (o : ops.Operator) (e : Expression ops V) (w : Writing ops V) :
    Writing ops V :=
  if ∃ p ∈ e.top?, ops.NeedsBrackets side o p then enclose w else w

/-- With as few brackets as possible. -/
def print : Expression ops V → Writing ops V
  | .number v => [(.number, some v)]
  | .binary o l r =>
    l.operand .left o l.print ++ (.operator o, none) :: r.operand .right o r.print

end Expression

/-- The tokens are what is written. What the value of a token is matters for numbers only. -/
def Spells (ts : List (Token V)) (w : Expression.Writing ops V) : Prop :=
  List.Forall₂ (fun t x => t.terminal = x.1.name ∧ ∀ v ∈ x.2, t.value = v) ts w

end Operators
end Lalr
