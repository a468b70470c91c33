/-
# Comparison operators

The six operators of a bound, with the spellings that a constraint may use for them.
-/
import VersionRanges.Error

namespace VersionRanges

/-- The comparison operators. -/
inductive Operator where
  | eq
  | lt
  | le
  | gt
  | ge
  | ne
deriving DecidableEq, Repr

namespace Operator

/-- The canonical spelling of an operator. -/
def symbol : Operator → Text
  | eq => ['=', '=']
  | lt => ['<']
  | le => ['<', '=']
  | gt => ['>']
  | ge => ['>', '=']
  | ne => ['!', '=']

/-- The direction that an operator points to: its canonical spelling without the equals signs. The
two operators that point downward share one direction, and so do the two that point upward. -/
def direction (op : Operator) : Text := op.symbol.filter (· != '=')

/-- Whether an operator excludes its own boundary. -/
def isStrict (op : Operator) : Bool := op.symbol == op.direction

/-- The spellings that `ofToken` reads. -/
def tokens : List Text :=
  [['='], ['=', '='], ['<'], ['<', '='], ['>'], ['>', '='], ['<', '>'], ['!', '=']]

/-- The operator that a token spells. -/
def ofToken : Text → Except Error Operator
  | ['='] | ['=', '='] => .ok eq
  | ['<'] => .ok lt
  | ['<', '='] => .ok le
  | ['>'] => .ok gt
  | ['>', '='] => .ok ge
  | ['!', '='] | ['<', '>'] => .ok ne
  | token => .error (.unknownOperator token)

/-- Whether two values that compare as `ordering` stand in the relation of an operator. -/
def admits : Operator → Ordering → Bool
  | eq, ordering => ordering == .eq
  | lt, ordering => ordering == .lt
  | le, ordering => ordering != .gt
  | gt, ordering => ordering == .gt
  | ge, ordering => ordering != .lt
  | ne, ordering => ordering != .eq

/-- The operator with its operands exchanged. -/
def mirror : Operator → Operator
  | eq => eq
  | lt => gt
  | le => ge
  | gt => lt
  | ge => le
  | ne => ne

/-- Exchanging the operands turns both the operator and the comparison around. -/
theorem admits_mirror (op : Operator) (ordering : Ordering) :
    op.mirror.admits ordering.swap = op.admits ordering := by
  cases op <;> cases ordering <;> rfl

/-- The canonical spelling of an operator is read as that operator. -/
theorem ofToken_symbol (op : Operator) : ofToken op.symbol = .ok op := by
  cases op <;> rfl

end Operator

end VersionRanges
