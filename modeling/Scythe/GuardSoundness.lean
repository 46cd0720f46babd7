import Scythe.Helpers
import Scythe.Lib.NullTerms

-- What the condition of a CASE arm says of its result.
namespace Scythe.GuardSoundness
open NullTerms Text

inductive Operator where
  | cast (kind : CastKind) (dataType : DataType)
  | unary (op : UnaryOperator)
  | binary (op : BinaryOperator)

inductive Atom where
  | column (reference : List String)
  | expr (e : Expr)

-- How a dialect treats nulls: which operators are null with an operand, which are not
-- where no operand is, and which expressions never are.
structure NullRules extends Rules Operator where
  never : Expr → Bool

section
variable [CaseMap] (rules : NullRules) (scope : Scope)

-- The column that a name stands for. The only source may be left out.
def reference (parts : List Ident) : List String :=
  match scope.sources,parts.map identToLower with
  | [source],[qualifier,name] => if qualifier = source.aliasName then [name] else [qualifier,name]
  | _,names => names

-- An expression as the database evaluates it on a row. Function calls, subqueries and
-- all else that is no operator have a value of their own.
def term : Expr → Term Atom Operator
  | .nested inner => term inner
  | .cast kind inner dataType => .unary (.cast kind dataType) (term inner)
  | .unaryOp op inner => .unary (.unary op) (term inner)
  | .binaryOp left op right => .binary (.binary op) (term left) (term right)
  | .isNull inner => .isNull (term inner)
  | .isNotNull inner => .isNotNull (term inner)
  | .identifier ident => .atom (.column (reference scope [ident]))
  | .compoundIdentifier parts => .atom (.column (reference scope parts))
  | e => if rules.never e then .never (.expr e) else .atom (.expr e)

-- On no row where the condition is true the result is null, and the condition is not
-- about one operand of it.
structure Guards (condition result : Expr) : Prop where
  present : ∀ (engine : Engine Atom Operator) (row : engine.Row),
    engine.Holds rules.toRules row (term rules scope condition) → engine.eval rules.toRules row (term rules scope result) ≠ none
  whole : ∀ inner,condition = .isNotNull inner → ¬OneOperand (term rules scope inner) (term rules scope result)

-- The guarded expression makes the result sure, as a whole.
structure Covers (inner result : Expr) : Prop where
  sure : Sure rules.toRules (term rules scope inner) (term rules scope result)
  whole : ¬OneOperand (term rules scope inner) (term rules scope result)

theorem accepted_condition {condition result : Expr} (accepted : isNotNullGuard condition result scope = true) :
    ∃ inner,condition = .isNotNull inner := by
  unfold isNotNullGuard at accepted
  split at accepted
  · exact ⟨_,rfl⟩
  · cases accepted

theorem guards_iff (inner result : Expr) : Guards rules scope (.isNotNull inner) result ↔ Covers rules scope inner result := by
  have guarded := guarded_iff rules.toRules (term rules scope inner) (term rules scope result)
  have condition : term rules scope (.isNotNull inner) = .isNotNull (term rules scope inner) := by rw [term]
  constructor
  · intro guards
    refine ⟨guarded.mp ?_,guards.whole inner rfl⟩
    rw [← condition]
    exact guards.present
  · intro covers
    constructor
    · rw [condition]
      exact guarded.mpr covers.sure
    · intro other same
      cases same
      exact covers.whole

-- A condition that is accepted guards its result just if what it asks about makes the
-- result sure, as a whole.
theorem guard_sound_iff (condition result : Expr) :
    (isNotNullGuard condition result scope = true → Guards rules scope condition result) ↔
      (isNotNullGuard condition result scope = true → ∃ inner,condition = .isNotNull inner ∧ Covers rules scope inner result) := by
  apply imp_congr_right
  intro accepted
  obtain ⟨inner,rfl⟩ := accepted_condition scope accepted
  rw [guards_iff]
  constructor
  · exact fun covers => ⟨inner,rfl,covers⟩
  · intro found
    obtain ⟨other,same,covers⟩ := found
    cases same
    exact covers

end

section

local instance guardAscii : CaseMap := ascii

def postgres : NullRules where
  strict
    | .binary .and | .binary .or | .binary .other => false
    | _ => true
  total
    | .binary .arrow | .binary .longArrow | .binary .hashArrow | .binary .hashLongArrow | .binary .other => false
    | .unary .other | .cast _ _ => false
    | _ => true
  never := isLiteral

-- Whole numbers, and sums of them.
def sums : Engine Atom Operator where
  Row := List String → Option Int
  Value := Int
  truth
    | true => 1
    | false => 0
  distinct := by decide
  never _ _ := 0
  atom row
    | .column reference => row reference
    | .expr _ => none
  unary _ _ v := v
  binary _ _ v w := v + w
  unaryOpen _ _ _ := none
  binaryOpen _ _ _ _ := none
  countsNull _ := false
  countsNotNull _ := true

def bareColumn (name : String) : Expr := .identifier ⟨name,false⟩

def oneSource : Scope := ⟨[⟨"t","t",[],false⟩]⟩

-- The row of one known number.
def known (name : String) : List String → Option Int := fun reference => if reference = [name] then some 1 else none

-- CASE WHEN a IS NOT NULL THEN a + b END
theorem sum_unguarded :
    isNotNullGuard (.isNotNull (bareColumn "a")) (.binaryOp (bareColumn "a") .plus (bareColumn "b")) oneSource = true ∧
      ¬Guards postgres oneSource (.isNotNull (bareColumn "a")) (.binaryOp (bareColumn "a") .plus (bareColumn "b")) := by
  constructor
  · decide
  · intro guards
    apply guards.present sums (known "a")
    · rfl
    · rfl

end

end Scythe.GuardSoundness
