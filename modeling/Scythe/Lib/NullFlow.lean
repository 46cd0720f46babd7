import Mathlib.Logic.Basic

-- How a missing value passes through operations on values that may be missing.
namespace NullFlow

-- When an operation's result is missing, for its first operand and the others.
-- An operation that follows none of the other rules has a table of its own.
inductive Rule where
  | first
  | any
  | all
  | never
  | table (onMissing onValue : Bool)
  deriving DecidableEq,Repr

def Rule.gives (rule : Rule) (others : List (Option V)) (missing : Bool) : Bool :=
  match rule with
  | .first => missing
  | .any => missing || others.any (·.isNone)
  | .all => missing && others.all (·.isNone)
  | .never => false
  | .table onMissing onValue => if missing then onMissing else onValue

inductive Step (V : Type u) where
  | operation (rule : Rule) (others : List (Option V)) (result : Option V → V)
  | replacement (value : Option V)

def Step.apply : Step V → Option V → Option V
  | .operation rule others result,x => if rule.gives others x.isNone then none else some (result x)
  | .replacement value,_ => value

def Step.gives : Step V → Bool → Bool
  | .operation rule others _,missing => rule.gives others missing
  | .replacement value,_ => value.isNone

@[simp] theorem Step.apply_isNone (step : Step V) (x : Option V) : (step.apply x).isNone = step.gives x.isNone := by
  cases step with
  | operation rule others result =>
    rw [Step.apply,Step.gives]
    cases rule.gives others x.isNone with
    | false => rfl
    | true => rfl
  | replacement value => rfl

-- The steps from the outermost to the innermost one.
def through (steps : List (Step V)) (x : Option V) : Option V := steps.foldr Step.apply x

def missingThrough (steps : List (Step V)) (missing : Bool) : Bool := steps.foldr Step.gives missing

theorem through_isNone (steps : List (Step V)) (x : Option V) :
    (through steps x).isNone = missingThrough steps x.isNone := by
  induction steps with
  | nil => rfl
  | cons step steps ih =>
    calc (through (step :: steps) x).isNone
        = step.gives (through steps x).isNone := step.apply_isNone _
      _ = step.gives (missingThrough steps x.isNone) := by rw [ih]

-- What is innermost is a value and yet the result is missing, or the other way
-- round.
def Enters (steps : List (Step V)) : Prop := missingThrough steps false = true
def Vanishes (steps : List (Step V)) : Prop := missingThrough steps true = false

theorem through_none_iff (steps : List (Step V)) (x : Option V) {present : Bool} (is : x.isSome = present) :
    (through steps x = none ↔ present = false) ↔
      (present = true → ¬Enters steps) ∧ (present = false → ¬Vanishes steps) := by
  have flows : through steps x = none ↔ missingThrough steps (!present) = true := by
    rw [←Option.isNone_iff_eq_none,through_isNone,←is,Option.not_isSome]
  rw [flows]
  unfold Enters Vanishes
  cases present with
  | false => simp
  | true => simp

-- Steps that follow their first operand let nothing in and nothing out.
def Step.Faithful : Step V → Prop
  | .operation .first _ _ => True
  | _ => False

theorem missingThrough_faithful {steps : List (Step V)} (faithful : ∀ step ∈ steps,step.Faithful) (missing : Bool) :
    missingThrough steps missing = missing := by
  induction steps with
  | nil => rfl
  | cons step steps ih =>
    have below := ih fun step member => faithful step (List.mem_cons_of_mem _ member)
    have here := faithful step List.mem_cons_self
    rw [missingThrough,List.foldr_cons]
    rw [missingThrough] at below
    rw [below]
    cases step with
    | operation rule others result =>
      cases rule with
      | first => rfl
      | _ => exact absurd here id
    | replacement value => exact absurd here id

end NullFlow
