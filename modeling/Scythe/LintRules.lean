import Scythe.UnboundParams
import Scythe.SyntaxParts

-- The rules that walk the expressions of a statement, each with the walk of its file.
namespace Scythe.LintRules
open Text UnboundParams

-- The parser library prints the names of objects.
class NamePrinter where
  name : ObjectName → String

section Walks
variable {β : Type}

-- The walk over a query is the same in every file, but for what it takes of a SELECT.
mutual

def walkSetExpr (ofSelect : Select → List β) : SetExpr → List β
  | .select select => ofSelect select
  | .query query => walkQuery ofSelect query
  | .setOperation _ left right => walkSetExpr ofSelect left ++ walkSetExpr ofSelect right
  | .values _ | .other _ => []

def walkQuery (ofSelect : Select → List β) : Query → List β
  | ⟨_,body,_,_,_⟩ => walkSetExpr ofSelect body

end

namespace Antipattern
variable (visitor : Expr → List β)

def walkExpr : Expr → List β
  | .binaryOp left op right => visitor (.binaryOp left op right) ++ (walkExpr left ++ walkExpr right)
  | .unaryOp op inner => visitor (.unaryOp op inner) ++ walkExpr inner
  | .nested inner => visitor (.nested inner) ++ walkExpr inner
  | .isNull inner => visitor (.isNull inner) ++ walkExpr inner
  | .isNotNull inner => visitor (.isNotNull inner) ++ walkExpr inner
  | expr => visitor expr

-- The joins whose condition the rules of this file look at.
def hasConstraint : JoinOperator → Bool
  | .join | .inner | .left | .leftOuter | .right | .rightOuter | .fullOuter => true
  | _ => false

def joinConstraintExpr (join : Join) : Option Expr := if hasConstraint join.joinOperator then join.condition else none

def walkSelect (select : Select) : List β :=
  select.selection.toList.flatMap (walkExpr visitor) ++ (select.having.toList.flatMap (walkExpr visitor) ++
    select.sources.flatMap fun tables => tables.joins.flatMap fun join =>
      (joinConstraintExpr join).toList.flatMap (walkExpr visitor))

def walkExprs : Statement → List β
  | .query query => walkQuery (walkSelect visitor) query
  | .update update => update.selection.toList.flatMap (walkExpr visitor)
  | .delete delete => delete.selection.toList.flatMap (walkExpr visitor)
  | .insert _ | .other => []

end Antipattern

namespace Performance
variable (visitor : Expr → List β)

mutual

def walkExpr : Expr → List β
  | .binaryOp left op right => visitor (.binaryOp left op right) ++ (walkExpr left ++ walkExpr right)
  | .unaryOp op inner => visitor (.unaryOp op inner) ++ walkExpr inner
  | .nested inner => visitor (.nested inner) ++ walkExpr inner
  | .isNull inner => visitor (.isNull inner) ++ walkExpr inner
  | .isNotNull inner => visitor (.isNotNull inner) ++ walkExpr inner
  | .like inner negated pattern => visitor (.like inner negated pattern) ++ (walkExpr inner ++ walkExpr pattern)
  | .iLike inner negated pattern => visitor (.iLike inner negated pattern) ++ (walkExpr inner ++ walkExpr pattern)
  | .inSubquery inner subquery negated => visitor (.inSubquery inner subquery negated) ++ walkExpr inner
  | .inList inner list negated => visitor (.inList inner list negated) ++ (walkExpr inner ++ walkList list)
  | expr => visitor expr

def walkList : List Expr → List β
  | [] => []
  | e :: es => walkExpr e ++ walkList es

end

def walkSelect (select : Select) : List β :=
  select.selection.toList.flatMap (walkExpr visitor) ++ select.having.toList.flatMap (walkExpr visitor)

def walkExprs : Statement → List β
  | .query query => walkQuery (walkSelect visitor) query
  | .update update => update.selection.toList.flatMap (walkExpr visitor)
  | .delete delete => delete.selection.toList.flatMap (walkExpr visitor)
  | .insert _ | .other => []

end Performance

namespace Style
variable (visitor : Expr → List β)

mutual

def walkExpr : Expr → List β
  | .binaryOp left op right => visitor (.binaryOp left op right) ++ (walkExpr left ++ walkExpr right)
  | .unaryOp op inner => visitor (.unaryOp op inner) ++ walkExpr inner
  | .nested inner => visitor (.nested inner) ++ walkExpr inner
  | .function func => visitor (.function func) ++ walkFunction func
  | .case operand conditions elseResult =>
    visitor (.case operand conditions elseResult) ++
      (walkOption operand ++ (walkConditions conditions ++ walkOption elseResult))
  | expr => visitor expr

def walkFunction : Function → List β
  | ⟨_,args,_,_,_,_⟩ => walkArguments args

def walkArguments : FunctionArguments → List β
  | .list args _ _ => walkArgs args
  | .none | .subquery _ => []

def walkArgs : List FunctionArg → List β
  | [] => []
  | arg :: args => walkArg arg ++ walkArgs args

def walkArg : FunctionArg → List β
  | .unnamed arg => walkArgExpr arg
  | .named _ arg => walkArgExpr arg
  | .exprNamed _ arg => walkArgExpr arg

def walkArgExpr : FunctionArgExpr → List β
  | .expr e => walkExpr e
  | .qualifiedWildcard _ | .wildcard => []

def walkOption : Option Expr → List β
  | none => []
  | some e => walkExpr e

def walkConditions : List CaseWhen → List β
  | [] => []
  | arm :: arms => walkCondition arm ++ walkConditions arms

def walkCondition : CaseWhen → List β
  | ⟨condition,result⟩ => walkExpr condition ++ walkExpr result

end

def walkItem : SelectItem → List β
  | .unnamedExpr e | .exprWithAlias e _ => walkExpr visitor e
  | _ => []

def walkSelect (select : Select) : List β :=
  select.projection.flatMap (walkItem visitor) ++ (select.selection.toList.flatMap (walkExpr visitor) ++
    select.having.toList.flatMap (walkExpr visitor))

def walkExprs : Statement → List β
  | .query query => walkQuery (walkSelect visitor) query
  | _ => []

end Style

end Walks

section Patterns

def isNullLiteral : Expr → Bool
  | .value v => v.value = .null
  | _ => false

-- The operator of a comparison with a NULL.
def comparedNull : Expr → Option String
  | .binaryOp left op right =>
    if (op = .eq || op = .notEq) && (isNullLiteral left || isNullLiteral right) then
      some (if op = .eq then "=" else "!=")
    else none
  | _ => none

def extractStringValue : Expr → Option String
  | .value v =>
    match v.value with
    | .singleQuotedString s | .escapedStringLiteral s | .dollarQuotedString s => some s
    | _ => none
  | _ => none

def leadingWildcard : Expr → Option String
  | .like _ _ pattern | .iLike _ _ pattern => (extractStringValue pattern).filter fun s => startsWith s "%"
  | _ => none

def isNotInSubquery : Expr → Bool
  | .inSubquery _ _ negated => negated
  | _ => false

def isCoalescePattern [Printer] : Expr → Bool
  | .case none [⟨.isNull tested,_⟩] (some elseExpr) => Printer.expr tested = Printer.expr elseExpr
  | _ => false

def isOne : FunctionArg → Bool
  | .unnamed (.expr (.value v)) => v.value = .number "1"
  | _ => false

def isCountOne [CaseMap] [NamePrinter] : Expr → Bool
  | .function func =>
    CaseMap.lowercase (NamePrinter.name func.name) = "count" &&
      match func.args with
      | .list [arg] _ _ => isOne arg
      | _ => false
  | _ => false

end Patterns

section Rules
variable [Printer] [CaseMap] [NamePrinter]

inductive LintRule where
  | notEqualNull
  | likeStartsWithWildcard
  | notInSubquery
  | preferCoalesceOverCase
  | preferCountStar
  deriving DecidableEq

def LintRule.id : LintRule → String
  | .notEqualNull => "SC-A01"
  | .likeStartsWithWildcard => "SC-P02"
  | .notInSubquery => "SC-P03"
  | .preferCoalesceOverCase => "SC-T02"
  | .preferCountStar => "SC-T03"

def LintRule.finding (rule : LintRule) (message : String) : Violation := ⟨rule.id,message.toList,none⟩

-- What a rule says of one expression.
def LintRule.visit (rule : LintRule) (expr : Expr) : List Violation :=
  match rule with
  | .notEqualNull =>
    (comparedNull expr).toList.map fun op =>
      rule.finding s!"comparison `{op} NULL` always yields NULL — use IS NULL or IS NOT NULL"
  | .likeStartsWithWildcard =>
    (leadingWildcard expr).toList.map fun s =>
      rule.finding s!"LIKE pattern \"{s}\" starts with % — index cannot be used"
  | .notInSubquery =>
    if isNotInSubquery expr then [rule.finding "NOT IN (SELECT ...) — consider NOT EXISTS for NULL safety"] else []
  | .preferCoalesceOverCase =>
    if isCoalescePattern expr then [rule.finding "CASE WHEN x IS NULL THEN y ELSE x END — use COALESCE(x, y)"] else []
  | .preferCountStar =>
    if isCountOne expr then
      [⟨rule.id,"COUNT(1) — prefer COUNT(*)".toList,some ⟨"Replace with COUNT(*)","COUNT(*)"⟩⟩]
    else []

def LintRule.walkExprs (rule : LintRule) (visitor : Expr → List Violation) (stmt : Statement) : List Violation :=
  match rule with
  | .notEqualNull => Antipattern.walkExprs visitor stmt
  | .likeStartsWithWildcard | .notInSubquery => Performance.walkExprs visitor stmt
  | .preferCoalesceOverCase | .preferCountStar => Style.walkExprs visitor stmt

def LintRule.checkQuery (rule : LintRule) (stmt : Statement) : List Violation := rule.walkExprs rule.visit stmt

end Rules

end Scythe.LintRules
