import Scythe.Lib.Itinerary
import Scythe.Walk

namespace Scythe
open Numbering Text

-- The placeholders that the analyzer's functions come by on their way through
-- the syntax tree. It hangs on the catalog and on the CTEs in sight, never on a
-- scope; a branch that hangs on inferred types stays open.
abbrev Route := Itinerary String Slot

structure Routes where
  inferExprType : Expr → Route
  collectParamsFromWhere : Expr → Route
  collectParamFromExprWithTypeNullable : Expr → Route
  collectParamFromAny : Expr → Route
  analyzeQuery : Query → Route
  analyzeSetExpr : SetExpr → Route
  addTableFactorToScope : TableFactor → Route

namespace Route

def each (route : α → Route) (items : List α) : Route := .all (items.map route)
def optional (route : α → Route) (item : Option α) : Route := .ofOption (item.map route)

def place (occurrence : Occurrence) : Route :=
  match occurrence.slot with
  | some slot => .one slot
  | none => .skip

def registerAt (e : Expr) (body : Route) : Route :=
  match e.placeholder? with
  | some occurrence => (place occurrence).seq body
  | none => .skip

def registered (e : Expr) : Route := registerAt e .skip

variable [CaseMap] (catalog : Catalog) (self : Routes)

def tryBindParamFromComparison (paramSide colSide : Expr) : Route :=
  match paramSide with
  | .value _ => registerAt paramSide (self.inferExprType colSide)
  | .cast _ inner _ => registerAt inner (self.inferExprType colSide)
  | _ => .skip

def collectParamFromExpr (e : Expr) : Route :=
  match e with
  | .value _ => registered e
  | .cast _ inner _ => registered inner
  | _ => .skip

def collectParamFromExprWithTypeNullable (e : Expr) : Route :=
  let again := self.collectParamFromExprWithTypeNullable
  match e with
  | .value _ => registered e
  | .cast _ inner _ => if inner.placeholder?.isSome then registered inner else again inner
  | .nested inner => again inner
  | .unaryOp _ inner => again inner
  | .binaryOp left _ right => (again left).seq (again right)
  | .function func => each again (getFunctionArgs func)
  | .case operand conditions elseResult =>
    (optional again operand).seq <|
      (each (fun caseWhen : CaseWhen => (again caseWhen.condition).seq (again caseWhen.result)) conditions).seq <|
        optional again elseResult
  | _ => .skip

def collectParamFromAny (e : Expr) : Route :=
  match e with
  | .value _ => registered e
  | .cast _ inner _ => registered inner
  | .nested inner => self.collectParamFromAny inner
  | .array elems => each registered elems
  | _ => .skip

def collectParamsFromComparison (left right : Expr) : Route :=
  (tryBindParamFromComparison self left right).seq <| (tryBindParamFromComparison self right left).seq <|
    (self.inferExprType left).seq (self.inferExprType right)

def collectParamsFromWhere (inferFunctionType : Function → Route) (e : Expr) : Route :=
  let typed := self.collectParamFromExprWithTypeNullable
  match e with
  | .binaryOp left op right =>
    if (comparisonSymbol op).isSome then collectParamsFromComparison self left right
    else (self.collectParamsFromWhere left).seq (self.collectParamsFromWhere right)
  | .between colExpr _ low high => (self.inferExprType colExpr).seq ((typed low).seq (typed high))
  | .like _ _ pattern => typed pattern
  | .iLike _ _ pattern => typed pattern
  | .inList colExpr list _ => (self.inferExprType colExpr).seq (each registered list)
  | .isNull inner => self.collectParamsFromWhere inner
  | .isNotNull inner => self.collectParamsFromWhere inner
  | .nested inner => self.collectParamsFromWhere inner
  | .unaryOp _ inner => self.collectParamsFromWhere inner
  | .anyOp left _ right =>
    (self.inferExprType left).seq ((registered right).seq (self.collectParamFromAny right))
  | .inSubquery _ subquery _ => self.analyzeQuery subquery
  | .exists subquery _ => self.analyzeQuery subquery
  | .subquery subquery => self.analyzeQuery subquery
  | .case _ conditions elseResult =>
    (each (fun caseWhen : CaseWhen =>
      (self.collectParamsFromWhere caseWhen.condition).seq (self.inferExprType caseWhen.result)) conditions).seq
      (optional self.inferExprType elseResult)
  | .function func => (inferFunctionType func).seq (each self.collectParamsFromWhere (getFunctionArgs func))
  | .cast _ inner _ => (registered inner).seq (self.collectParamsFromWhere inner)
  | e => self.inferExprType e

def anyNullable : List Expr → Route
  | [] => .skip
  | e :: es => (self.inferExprType e).seq (.maybe (anyNullable es))

def inlineFields : List Expr → Route
  | key :: value :: rest =>
    if (stringLiteralValue key).isSome then (self.inferExprType value).seq (inlineFields rest) else .skip
  | _ => .skip

def inlineJsonObjectFields (func : Function) : Route :=
  if func.callName ∉ ["json_build_object","jsonb_build_object"] then .skip else
  let args := getFunctionArgs func
  if args.isEmpty ∨ args.length % 2 ≠ 0 then .skip else
  inlineFields self args

def plainArgs (func : Function) : List FunctionArgExpr :=
  match func.args with
  | .list args _ _ => args.filterMap fun arg => match arg with
    | .unnamed a | .named _ a => some a
    | .exprNamed _ _ => none
  | _ => []

-- The call that is a function's only argument.
def soleCall (func : Function) : Option Function :=
  match plainArgs func with
  | [.expr (.function inner)] => some inner
  | _ => none

def inferNestedAggregateType (func : Function) (wrap : WrapArray) : Route :=
  if catalogHasNestedAggregates catalog then
    match wrap,soleCall func with
    | .yes,some inner => inlineJsonObjectFields self inner
    | _,_ => .skip
  else .skip

def inferRow (exprs : List Expr) : Route :=
  match exprs with
  | [only] => self.inferExprType only
  | _ => each self.inferExprType exprs

def inferArm (func : Function) : FunctionArm → Route
  | .strictInAll _ => anyNullable self (getFunctionArgs func)
  | .jsonAgg => inferNestedAggregateType catalog self func .yes
  | .coalesce => (each self.inferExprType (getFunctionArgs func)).seq (each registered (getFunctionArgs func))
  | .row => inferRow self (getFunctionArgs func)
  | .concat => if catalog.dialect = .mySQL then anyNullable self (getFunctionArgs func) else .skip
  | .greatestLeast => each self.inferExprType (getFunctionArgs func)
  | .dateTrunc =>
    match getFunctionArgs func with
    | _ :: source :: _ => self.inferExprType source
    | _ => .skip
  | .lagLead =>
    if functionHasNullTreatment func then .skip else
    match getFunctionArgs func with
    | _ :: _ :: default :: _ => self.inferExprType default
    | _ => .skip
  | .jsonbSetLax =>
    if (getFunctionArgs func).length < 3 then .skip else anyNullable self ((getFunctionArgs func).take 2)
  | _ => .skip

def callExpressions (callArguments : List CallArgument) : List Expr := callArguments.map (·.expression)

def inferCatalogFunctionType (func : Function) : Route :=
  match catalog.getFunctions func.callName,catalogCallArguments func with
  | some _,some callArguments =>
    (each self.inferExprType (callExpressions callArguments)).seq (.maybe (each registered (callExpressions callArguments)))
  | _,_ => .skip

def inferFunctionType (func : Function) : Route :=
  (optional self.inferExprType (getFunctionArgs func).head?).seq <|
    match functionArm func.callName with
    | some arm => inferArm catalog self func arm
    | none => inferCatalogFunctionType catalog self func

def inferCase (operand : Option Expr) (conditions : List CaseWhen) (elseResult : Option Expr) : Route :=
  (optional self.inferExprType operand).seq <|
    (each (fun caseWhen : CaseWhen => (self.inferExprType caseWhen.condition).seq <|
      (registered caseWhen.condition).seq (self.inferExprType caseWhen.result)) conditions).seq <|
      optional self.inferExprType elseResult

def inferExprType (e : Expr) : Route :=
  let typed := self.collectParamFromExprWithTypeNullable
  match e with
  | .value _ => registered e
  | .cast _ inner _ => (self.inferExprType inner).seq (registered inner)
  | .function func => inferFunctionType catalog self func
  | .binaryOp left _ right => (self.inferExprType left).seq (self.inferExprType right)
  | .unaryOp _ inner => self.inferExprType inner
  | .nested inner => self.inferExprType inner
  | .inList colExpr list _ => (self.inferExprType colExpr).seq (each registered list)
  | .inSubquery colExpr _ _ => self.inferExprType colExpr
  | .between colExpr _ low high =>
    (self.inferExprType colExpr).seq <| (typed low).seq <| (typed high).seq <|
      (self.inferExprType low).seq (self.inferExprType high)
  | .like colExpr _ pattern | .iLike colExpr _ pattern =>
    (self.inferExprType colExpr).seq ((typed pattern).seq (self.inferExprType pattern))
  | .case operand conditions elseResult => inferCase self operand conditions elseResult
  | .subquery query => self.analyzeQuery query
  | .anyOp left _ right =>
    (self.inferExprType left).seq ((registered right).seq (self.collectParamFromAny right))
  | .allOp left _ right => (self.inferExprType left).seq (registered right)
  | .array elem => optional self.inferExprType elem.head?
  | .tuple exprs => inferRow self exprs
  | .extract inner => self.inferExprType inner
  | .substring inner _ | .trim inner _ => self.inferExprType inner
  | .position needle haystack => (self.inferExprType needle).seq (self.inferExprType haystack)
  | .atTimeZone timestamp _ => self.inferExprType timestamp
  | .compoundFieldAccess root _ => self.inferExprType root
  | .ceil inner | .floor inner => self.inferExprType inner
  | _ => .skip

def generateSeries (args : List FunctionArg) : Route := each self.inferExprType ((functionArgExprs args).take 2)

def catalogFunctionColumns (functionName : String) (args : List FunctionArg) : Route :=
  match catalog.getFunctions functionName,catalogCallArgumentsFromArgs args with
  | some _,some callArguments =>
    (each self.inferExprType (callExpressions callArguments)).seq (each registered (callExpressions callArguments))
  | _,_ => .skip

def knownFunctionColumns (tableName : String) (args : Option (List FunctionArg)) : Route :=
  if tableName = "generate_series" then generateSeries self (args.getD []) else .skip

def tableColumns (tableName : String) (args : Option (List FunctionArg)) : Route :=
  .unbound tableName <|
    if (catalog.getTable tableName).isSome then .skip else
    match args,catalog.getFunctions tableName with
    | some functionArgs,some _ => catalogFunctionColumns catalog self tableName functionArgs
    | _,_ => if tableName ∈ knownFunctions then knownFunctionColumns self tableName args else .skip

def functionColumns (funcName : String) (args : List FunctionArg) : Route :=
  if funcName = "generate_series" then generateSeries self args else
  if funcName = "unnest" ∨ (jsonFunctionColumns funcName).isSome then .skip else
  catalogFunctionColumns catalog self funcName args

def addJoins (joins : List Join) : Route := each (fun join => self.addTableFactorToScope join.relation) joins

def addTableFactorToScope (tf : TableFactor) : Route :=
  match tf with
  | .table name _ args _ => tableColumns catalog self (CaseMap.lowercase (objectNameToString name)) args
  | .derived subquery _ => .table (self.analyzeQuery subquery)
  | .nestedJoin tables _ => (self.addTableFactorToScope tables.relation).seq (addJoins self tables.joins)
  | .function name args _ => functionColumns catalog self (CaseMap.lowercase (objectNameToString name)) args
  | _ => .skip

def buildScopeFromFrom (sources : List TableWithJoins) : Route :=
  each (fun twj : TableWithJoins => (self.addTableFactorToScope twj.relation).seq (addJoins self twj.joins)) sources

def projectItem (item : SelectItem) : Route :=
  match item with
  | .unnamedExpr e | .exprWithAlias e _ | .exprWithAliases e _ =>
    (self.collectParamsFromWhere e).seq (self.inferExprType e)
  | _ => .skip

def analyzeSelect (select : Select) : Route :=
  (buildScopeFromFrom self select.sources).seq <| (each (projectItem self) select.projection).seq <|
    (optional self.collectParamsFromWhere select.selection).seq (optional self.collectParamsFromWhere select.having)

-- A row of VALUES is read as far as the first row reaches.
def widenRows (rows : List (List Expr)) (width : Nat) : Route :=
  each (fun row : List Expr => each self.inferExprType (row.take width)) rows

def analyzeSetExpr (setExpr : SetExpr) : Route :=
  match setExpr with
  | .select select => analyzeSelect self select
  | .query query => self.analyzeQuery query
  | .setOperation _ left right => (self.analyzeSetExpr left).seq (self.analyzeSetExpr right)
  | .values rows => widenRows self rows (rows.headD []).length
  | .other _ => .skip

def analyzeCte (recursive : Bool) (cte : Cte) : Route :=
  let registered := Itinerary.bind (CaseMap.lowercase cte.tableAlias.name.value)
  match recursive,cte.query.body with
  | true,.setOperation _ left _ =>
    (self.analyzeSetExpr left).seq (registered.seq ((self.analyzeQuery cte.query).seq registered))
  | _,_ => (self.analyzeQuery cte.query).seq registered

def analyzeLimit (limitClause : LimitClause) : Route :=
  match limitClause with
  | .limitOffset limit offset _ => (optional collectParamFromExpr limit).seq (optional collectParamFromExpr offset)
  | .offsetCommaLimit offset limit => (collectParamFromExpr limit).seq (collectParamFromExpr offset)

def analyzeWith (withClause : With) : Route := each (analyzeCte self withClause.recursive) withClause.cteTables

def analyzeQuery (query : Query) : Route :=
  (optional (analyzeWith self) query.withClause).seq <|
    (self.analyzeSetExpr query.body).seq (optional analyzeLimit query.limitClause)

def returningItem (item : SelectItem) : Route :=
  match item with
  | .unnamedExpr e | .exprWithAlias e _ | .exprWithAliases e _ => self.inferExprType e
  | _ => .skip

def analyzeReturning (returning : Option (List SelectItem)) : Route :=
  optional (each (returningItem self)) returning

def collectInsertValue (effective : List (Option EffectiveColumn)) (i : Nat) (e : Expr) : Route :=
  if effective[i]?.join.isSome then self.collectParamFromExprWithTypeNullable e
  else (self.inferExprType e).seq (self.collectParamFromExprWithTypeNullable e)

def collectInsertRow (effective : List (Option EffectiveColumn)) : Nat → List Expr → Route
  | _,[] => .skip
  | i,e :: es => (collectInsertValue self effective i e).seq (collectInsertRow effective (i + 1) es)

def collectInsertParams (tableName : String) (targetCols : List String) (source : SetExpr) : Route :=
  match source with
  | .values rows => each (collectInsertRow self (effectiveColumns catalog tableName targetCols) 0) rows
  | .select select => analyzeSelect self select
  | .query query => self.analyzeQuery query
  | _ => .skip

def collectAssignment (tableName : String) (assign : Assignment) : Route :=
  if (getColumnType catalog tableName (assignmentTargetName assign.target)).isSome then
    self.collectParamFromExprWithTypeNullable assign.value
  else .skip

def collectOnConflict (tableName : String) (on : Option OnInsert) : Route :=
  match on with
  | some (.onConflict (.doUpdate doUpdate)) =>
    (each (collectAssignment catalog self tableName) doUpdate.assignments).seq
      (optional self.collectParamsFromWhere doUpdate.selection)
  | _ => .skip

def analyzeInsert (insert : Insert) : Route :=
  match insertTarget insert.table with
  | .error _ => .skip
  | .ok tableName =>
    let targetCols := insert.columns.map fun name => CaseMap.lowercase (objectNameToString name)
    (optional (fun source : Query => collectInsertParams catalog self tableName targetCols source.body)
      insert.source).seq <|
      (collectOnConflict catalog self tableName insert.on).seq (analyzeReturning self insert.returning)

def analyzeUpdate (update : Update) : Route :=
  (optional (buildScopeFromFrom self) update.sources).seq <|
    (each (collectAssignment catalog self (tableFactorName update.table.relation)) update.assignments).seq <|
      (optional self.collectParamsFromWhere update.selection).seq (analyzeReturning self update.returning)

def analyzeDelete (delete : Delete) : Route :=
  (optional (buildScopeFromFrom self) delete.usingTables).seq <|
    (optional self.collectParamsFromWhere delete.selection).seq (analyzeReturning self delete.returning)

def analyzeStatementWith (stmt : Statement) : Route :=
  match stmt with
  | .query query => self.analyzeQuery query
  | .insert statement => analyzeInsert catalog self statement
  | .update statement => analyzeUpdate catalog self statement
  | .delete statement => analyzeDelete self statement
  | .other => .skip

end Route

variable [CaseMap] (catalog : Catalog)

-- As deep as the analyzer's own functions go.
def routes : Nat → Routes
  | 0 => ⟨fun _ => .skip,fun _ => .skip,fun _ => .skip,fun _ => .skip,fun _ => .skip,fun _ => .skip,fun _ => .skip⟩
  | fuel + 1 => {
      inferExprType := Route.inferExprType catalog (routes fuel)
      collectParamsFromWhere :=
        Route.collectParamsFromWhere (routes fuel) (Route.inferFunctionType catalog (routes fuel))
      collectParamFromExprWithTypeNullable := Route.collectParamFromExprWithTypeNullable (routes fuel)
      collectParamFromAny := Route.collectParamFromAny (routes fuel)
      analyzeQuery := Route.analyzeQuery (routes fuel)
      analyzeSetExpr := Route.analyzeSetExpr (routes fuel)
      addTableFactorToScope := Route.addTableFactorToScope catalog (routes fuel) }

def Statement.route (stmt : Statement) : Route :=
  Route.analyzeStatementWith catalog (routes catalog stmt.fuel) stmt

end Scythe
