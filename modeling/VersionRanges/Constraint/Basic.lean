/-
# Constraints

A constraint is a tree: it admits everything, or it is a bound, or it joins other constraints by
*and* or *or*. Each node may carry a label, a text for people that replaces the rendering of the
node. A group made by the operations of this module has at least one member.
-/
import VersionRanges.Constraint.Bound

namespace VersionRanges

/-- How a group joins its members. -/
inductive Connective where
  /-- All members have to hold. -/
  | and
  /-- At least one member has to hold. -/
  | or
deriving DecidableEq, Repr

/-- The text between the members of a group. -/
def Connective.separator : Connective → Text
  | and => [' ']
  | or => " || ".toList

/-- Constraints on versions, with the label of each node. -/
inductive Constraint where
  /-- The constraint that admits every version. -/
  | anything (label : Option Text)
  /-- A single bound. -/
  | atom (bound : Bound) (label : Option Text)
  /-- Several constraints joined by a connective. -/
  | group (connective : Connective) (members : List Constraint) (label : Option Text)
deriving Repr

namespace Constraint

/-- The label attached to a constraint. -/
def label : Constraint → Option Text
  | anything label | atom _ label | group _ _ label => label

/-- The constraint with a label attached in place of its own. -/
def withLabel (text : Text) : Constraint → Constraint
  | anything _ => anything (some text)
  | atom bound _ => atom bound (some text)
  | group connective members _ => group connective members (some text)

/-- The group of some constraints. A group needs a member. -/
def ofMembers (connective : Connective) (members : List Constraint) : Except Error Constraint :=
  if members.isEmpty then .error .emptyGroup else .ok (group connective members none)

/-- Joins constraints without trivial groups: nothing to join admits everything, and a single
constraint is left as it is. -/
def join (connective : Connective) : List Constraint → Constraint
  | [] => anything none
  | [member] => member
  | members => group connective members none

/-- Whether a constraint is the one that admits everything. -/
def isAnything : Constraint → Bool
  | anything _ => true
  | _ => false

/-- The bound that a constraint is, if it is one. -/
def asBound? : Constraint → Option Bound
  | atom bound _ => some bound
  | _ => none

/-- The connective and the members of a constraint, if it is a group. -/
def asGroup? : Constraint → Option (Connective × List Constraint)
  | group connective members _ => some (connective, members)
  | _ => none

/-! ## Evaluation -/

mutual

/-- The value of a constraint under given values of its bounds. -/
def evaluate (value : Bound → Bool) : Constraint → Bool
  | anything _ => true
  | atom bound _ => value bound
  | group .and members _ => evaluateAll value members
  | group .or members _ => evaluateSome value members

/-- Whether all of the constraints hold under given values of their bounds. -/
def evaluateAll (value : Bound → Bool) : List Constraint → Bool
  | [] => true
  | member :: members => evaluate value member && evaluateAll value members

/-- Whether at least one of the constraints holds under given values of their bounds. -/
def evaluateSome (value : Bound → Bool) : List Constraint → Bool
  | [] => false
  | member :: members => evaluate value member || evaluateSome value members

end

/-- All of the constraints hold when each of them does. -/
theorem evaluateAll_eq (value : Bound → Bool) (members : List Constraint) :
    evaluateAll value members = members.all (evaluate value) := by
  induction members with
  | nil => rfl
  | cons member members ih => simp [evaluateAll, ih]

/-- Some constraint holds when one of them does. -/
theorem evaluateSome_eq (value : Bound → Bool) (members : List Constraint) :
    evaluateSome value members = members.any (evaluate value) := by
  induction members with
  | nil => rfl
  | cons member members ih => simp [evaluateSome, ih]

/-! ## Rendering -/

mutual

/-- The text derived from the structure of a constraint. -/
def render : Constraint → Text
  | anything _ => ['[', ']']
  | atom bound _ => bound.render
  | group connective members _ =>
    '[' :: List.intercalate connective.separator (renderMembers members) ++ [']']

/-- The texts derived from the structure of several constraints. -/
def renderMembers : List Constraint → List Text
  | [] => []
  | member :: members => render member :: renderMembers members

end

/-- The text of a constraint for people: its label, or else the text derived from its structure. -/
def pretty (constraint : Constraint) : Text := constraint.label.getD constraint.render

/-! ## Equality -/

mutual

/-- Decides whether two constraints have the same structure and the same labels. -/
def decideEq : (first second : Constraint) → Decidable (first = second)
  | anything label, anything label' => decidable_of_iff (label = label') (by simp)
  | atom bound label, atom bound' label' =>
    decidable_of_iff (bound = bound' ∧ label = label') (by simp)
  | group connective members label, group connective' members' label' =>
    match decideEqMembers members members' with
    | isTrue same =>
      decidable_of_iff (connective = connective' ∧ label = label') (by simp [same])
    | isFalse differ => isFalse (by simp [differ])
  | anything _, atom _ _ | anything _, group _ _ _ | atom _ _, anything _
  | atom _ _, group _ _ _ | group _ _ _, anything _ | group _ _ _, atom _ _ => isFalse nofun

/-- Decides whether two lists hold the same constraints in the same order. -/
def decideEqMembers : (first second : List Constraint) → Decidable (first = second)
  | [], [] => isTrue rfl
  | [], _ :: _ | _ :: _, [] => isFalse nofun
  | first :: moreFirst, second :: moreSecond =>
    match decideEq first second, decideEqMembers moreFirst moreSecond with
    | isTrue same, isTrue sameMore => isTrue (by rw [same, sameMore])
    | isFalse differ, _ => isFalse (by simp [differ])
    | _, isFalse differ => isFalse (by simp [differ])

end

instance : DecidableEq Constraint := decideEq

end Constraint

end VersionRanges
