import Scythe.Analyzer

namespace Scythe
open Text

def Expr.placeholder? : Expr → Option Occurrence
  | .value vws => vws.placeholder?.map fun token => ⟨token,vws.span⟩
  | _ => none

-- When the expression is a placeholder whose position resolves, register what
-- the body says under it. The answer tells whether it was.
def registerAt (e : Expr) (body : Analysis Registration) : Analysis Bool :=
  match e.placeholder? with
  | some occurrence => Analysis.place occurrence body
  | none => return false

def Registration.ofTyped (name neutralType : String) (nullable : Bool) : Registration :=
  ⟨some name,some neutralType,nullable,none⟩

def Registration.ofNothing : Registration := ⟨none,none,false,none⟩

def comparisonSymbol : BinaryOperator → Option String
  | .eq => some "="
  | .notEq => some "<>"
  | .lt => some "<"
  | .ltEq => some "<="
  | .gt => some ">"
  | .gtEq => some ">="
  | _ => none

def operatorError (left right : TypeInfo) (symbol : String) : Option String :=
  if left.neutralType ≠ "unknown" ∧ right.neutralType ≠ "unknown" ∧
      ¬startsWith left.neutralType "__" ∧ ¬startsWith right.neutralType "__" ∧
      left.neutralType ≠ right.neutralType ∧ ¬isComparableTypes left.neutralType right.neutralType then
    some (s!"operator does not exist: {neutralToSqlLabel left.neutralType} {symbol} " ++
      s!"{neutralToSqlLabel right.neutralType}")
  else none

variable [CaseMap] (catalog : Catalog) (self : Methods)

def comparisonRegistration (colSide : Expr) (scope : Scope) (op : Option BinaryOperator)
    (castType : Option String) : Analysis Registration := do
  let colTi ← self.inferExprType colSide scope
  return ⟨some (deriveParamNameFromComparison (exprToName colSide) colSide op),
    some (castType.getD colTi.neutralType),false,colTi.sourceRelation⟩

def tryBindParamFromComparison (paramSide colSide : Expr) (scope : Scope) (op : Option BinaryOperator) :
    Analysis Unit := do
  match paramSide with
  | .value _ => discard <| registerAt paramSide (comparisonRegistration self colSide scope op none)
  | .cast _ inner dataType =>
    discard <| registerAt inner
      (comparisonRegistration self colSide scope op (some (datatypeToNeutral dataType catalog)))
  | _ => return ()

def collectParamFromExpr (e : Expr) (name typeStr : String) : Analysis Unit :=
  match e with
  | .value _ => discard <| registerAt e (return .ofTyped name typeStr false)
  | .cast _ inner dataType =>
    discard <| registerAt inner (return .ofTyped name (datatypeToNeutral dataType catalog) false)
  | _ => return ()

def collectParamFromExprWithTypeNullable (e : Expr) (typeStr name : String) (nullable : Bool) : Analysis Unit :=
  let again := fun e => self.collectParamFromExprWithTypeNullable e typeStr name nullable
  match e with
  | .value _ => discard <| registerAt e (return .ofTyped name typeStr nullable)
  | .cast _ inner dataType => do
    let registered ← registerAt inner (return .ofTyped name (datatypeToNeutral dataType catalog) nullable)
    if registered then return () else again inner
  | .nested inner => again inner
  | .unaryOp _ inner => again inner
  | .binaryOp left _ right => do
    again left
    again right
  | .function func => (getFunctionArgs func).forM again
  | .case operand conditions elseResult => do
    operand.forM again
    conditions.forM fun caseWhen => do
      again caseWhen.condition
      again caseWhen.result
    elseResult.forM again
  | _ => return ()

def collectParamFromExprWithType (e : Expr) (typeStr name : String) : Analysis Unit :=
  self.collectParamFromExprWithTypeNullable e typeStr name false

def collectParamTypeFromCast (e : Expr) (neutralType : String) : Analysis Unit :=
  discard <| registerAt e
    (return ⟨if neutralType = "interval" then some "duration" else none,some neutralType,false,none⟩)

-- The elements of an array take numbered names.
def collectParamFromElements (leftTi : TypeInfo) (leftName : String) : Nat → List Expr → Analysis Unit
  | _,[] => return ()
  | i,elem :: elems => do
    discard <| registerAt elem (return .ofTyped s!"{leftName}{i + 1}" leftTi.neutralType false)
    collectParamFromElements leftTi leftName (i + 1) elems

def collectParamFromAny (e : Expr) (leftTi : TypeInfo) (leftName : String) : Analysis Unit :=
  match e with
  | .value _ =>
    discard <| registerAt e (return .ofTyped (pluralize leftName) s!"array<{leftTi.neutralType}>" false)
  | .cast _ inner dataType =>
    discard <| registerAt inner (return ⟨none,some (datatypeToNeutral dataType catalog),false,none⟩)
  | .nested inner => self.collectParamFromAny inner leftTi leftName
  | .array elems => collectParamFromElements leftTi leftName 0 elems
  | _ => return ()

-- The items of an IN list that are placeholders themselves.
def collectParamsFromList (list : List Expr) (colTi : TypeInfo) (colName : String) : Analysis Unit :=
  list.forM fun item => discard <| registerAt item (return .ofTyped colName colTi.neutralType false)

def collectParamsFromComparison (left right : Expr) (op : BinaryOperator) (symbol : String) (scope : Scope) :
    Analysis Unit := do
  tryBindParamFromComparison catalog self left right scope (some op)
  tryBindParamFromComparison catalog self right left scope (some op)
  let leftTi ← self.inferExprType left scope
  let rightTi ← self.inferExprType right scope
  match operatorError leftTi rightTi symbol with
  | some message => Analysis.typeError message
  | none => return ()

def collectParamsFromWhere (inferFunctionType : Function → Scope → Analysis TypeInfo) (e : Expr) (scope : Scope) :
    Analysis Unit :=
  match e with
  | .binaryOp left op right =>
    match comparisonSymbol op with
    | some symbol => collectParamsFromComparison catalog self left right op symbol scope
    | none => do
      self.collectParamsFromWhere left scope
      self.collectParamsFromWhere right scope
  | .between colExpr _ low high => do
    let colTi ← self.inferExprType colExpr scope
    collectParamFromExprWithType self low colTi.neutralType "start"
    collectParamFromExprWithType self high colTi.neutralType "end"
  | .like colExpr _ pattern => collectParamFromExprWithType self pattern "string" (exprToName colExpr)
  | .iLike colExpr _ pattern => collectParamFromExprWithType self pattern "string" (exprToName colExpr)
  | .inList colExpr list _ => do
    let colTi ← self.inferExprType colExpr scope
    collectParamsFromList list colTi (exprToName colExpr)
  | .isNull inner => self.collectParamsFromWhere inner scope
  | .isNotNull inner => self.collectParamsFromWhere inner scope
  | .nested inner => self.collectParamsFromWhere inner scope
  | .unaryOp _ inner => self.collectParamsFromWhere inner scope
  | .anyOp left _ right => do
    let leftTi ← self.inferExprType left scope
    discard <| registerAt right
      (return .ofTyped (pluralize (exprToName left)) s!"array<{leftTi.neutralType}>" false)
    self.collectParamFromAny right leftTi (exprToName left)
  | .inSubquery _ subquery _ => discard <| Analysis.attempt (self.analyzeQuery subquery)
  | .exists subquery _ => discard <| Analysis.attempt (self.analyzeQuery subquery)
  | .subquery subquery => discard <| Analysis.attempt (self.analyzeQuery subquery)
  | .case _ conditions elseResult => do
    conditions.forM fun caseWhen => do
      self.collectParamsFromWhere caseWhen.condition scope
      discard <| self.inferExprType caseWhen.result scope
    elseResult.forM fun elseExpr => discard <| self.inferExprType elseExpr scope
  | .function func => do
    discard <| inferFunctionType func scope
    (getFunctionArgs func).forM fun arg => self.collectParamsFromWhere arg scope
  | .cast _ inner dataType => do
    collectParamTypeFromCast inner (datatypeToNeutral dataType catalog)
    self.collectParamsFromWhere inner scope
  | e => discard <| self.inferExprType e scope

end Scythe
