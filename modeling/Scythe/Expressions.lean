import Scythe.Functions

namespace Scythe
open Text

inductive WrapArray where
  | yes
  | no
  deriving DecidableEq,Repr

inductive FuncArgShape where
  | expr (e : Expr)
  | wildcard
  | relation (aliasName : String)

def stringLiteralValue : Expr → Option String
  | .value vws =>
    match vws.value with
    | .singleQuotedString s | .doubleQuotedString s => some s
    | _ => none
  | _ => none

-- Nested aggregates need the PostgreSQL dialect, and an engine that has them.
def catalogHasNestedAggregates (catalog : Catalog) : Bool :=
  catalog.dialect = .postgreSQL &&
    (catalog.engine.map fun engine => decide (engine ∈ ["postgresql","postgres","pg","cockroachdb","crdb"])).getD true

def findScopeSourceAlias (name : String) (scope : Scope) : Option String :=
  (scope.sources.find? fun s => s.aliasName = name ∨ s.tableName = name).map (·.aliasName)

def scopeRelationAlias (name : String) (scope : Scope) : Option String :=
  if scope.sources.any fun s => s.columns.any fun c => c.name = name then none else findScopeSourceAlias name scope

def nestedFieldsForRelation (aliasName : String) (scope : Scope) : List NestedFieldInfo :=
  match scope.sources.find? fun s => s.aliasName = aliasName with
  | none => []
  | some source => source.columns.map fun col => ⟨col.name,col.neutralType,col.baseNullable⟩

def columnIn (source : ScopeSource) (colName : String) : Option TypeInfo :=
  (source.columns.find? fun c => c.name = colName).map fun col => .fromScopeColumn col source

-- A qualified name resolves in the first source that answers to the qualifier
-- and has the column, a bare one in the only source that has it.
def resolveColumnInScope (colName : String) (qualifier : Option String) (scope : Scope) : TypeInfo :=
  let unknown := TypeInfo.new (unknownColumnMarker ++ colName) true
  match qualifier with
  | some qual =>
    ((scope.sources.filter fun s => s.aliasName = qual ∨ s.tableName = qual).findSome? fun s =>
      columnIn s colName).getD unknown
  | none =>
    match scope.sources.filterMap fun s => columnIn s colName with
    | [] => unknown
    | [found] => found
    | _ :: _ :: _ => .new (ambiguousColumnMarker ++ colName) false

variable [CaseMap]

def exprIsColumnOfRelation (e : Expr) (aliasName : String) : Bool :=
  match e with
  | .compoundIdentifier parts =>
    match parts.reverse with
    | _ :: qualifier :: _ => identToLower qualifier = aliasName
    | _ => false
  | _ => false

-- A filter that tests a column of the relation for being there excludes the
-- row of NULLs that an outer join makes up.
def filterExcludesNullRelation (aliasName : String) : Expr → Bool
  | .isNotNull inner => exprIsColumnOfRelation inner aliasName
  | .nested inner => filterExcludesNullRelation aliasName inner
  | .binaryOp left .and right => filterExcludesNullRelation aliasName left || filterExcludesNullRelation aliasName right
  | _ => false

def classifyFunctionArgExpr (arg : FunctionArgExpr) (scope : Scope) : FuncArgShape :=
  match arg with
  | .expr (.identifier ident) =>
    match scopeRelationAlias (identToLower ident) scope with
    | some aliasName => .relation aliasName
    | none => .expr (.identifier ident)
  | .expr e => .expr e
  | .qualifiedWildcard name =>
    match findScopeSourceAlias (CaseMap.lowercase (objectNameToString name)) scope with
    | some aliasName => .relation aliasName
    | none => .wildcard
  | .wildcard => .wildcard

def getFunctionArgShapes (func : Function) (scope : Scope) : List FuncArgShape :=
  match func.args with
  | .list args _ _ => args.filterMap fun arg => match arg with
    | .unnamed a | .named _ a => some (classifyFunctionArgExpr a scope)
    | .exprNamed _ _ => none
  | _ => []

def nestedOverNestedError (field aliasName : String) : String :=
  s!"nested aggregate over nested aggregate is not supported: field \"{field}\" of \"{aliasName}\" is itself " ++
    "a json_agg/row_to_json result; wrap only one level of aggregation per query"

variable (catalog : Catalog) (self : Methods)

def inferAll (scope : Scope) : List Expr → Analysis (List TypeInfo)
  | [] => return []
  | e :: es => do
    let ti ← self.inferExprType e scope
    return ti :: (← inferAll scope es)

def getFirstArgType (func : Function) (scope : Scope) : Analysis (Option TypeInfo) :=
  match getFunctionArgs func with
  | [] => return none
  | e :: _ => do return some (← self.inferExprType e scope)

-- The arguments are inferred up to the first nullable one.
def anyNullable (scope : Scope) : List Expr → Analysis Bool
  | [] => return false
  | e :: es => do
    let ti ← self.inferExprType e scope
    if ti.nullable then return true else anyNullable scope es

def anyArgNullable (func : Function) (scope : Scope) : Analysis Bool := anyNullable self scope (getFunctionArgs func)

-- Alternating keys and values; the first key that is not a literal ends it.
def inlineFields (scope : Scope) : List Expr → Analysis (Option (List NestedFieldInfo))
  | key :: value :: rest =>
    match stringLiteralValue key with
    | none => return none
    | some name => do
      let ti ← self.inferExprType value scope
      return (← inlineFields scope rest).map fun fields => ⟨name,ti.neutralType,ti.nullable⟩ :: fields
  | _ => return some []

def inlineJsonObjectFields (func : Function) (scope : Scope) : Analysis (Option (List NestedFieldInfo)) :=
  if func.callName ∉ ["json_build_object","jsonb_build_object"] then return none else
  let args := getFunctionArgs func
  if args.isEmpty ∨ args.length % 2 ≠ 0 then return none else
  inlineFields self scope args

def inferInlineObjectAggregateType (func : Function) (scope : Scope) : Analysis (Option TypeInfo) := do
  match ← inlineJsonObjectFields self func scope with
  | none => return none
  | some fields =>
    if fields.isEmpty then return none else
    match fields.findSome? fun f => unresolvedTypeError f.neutralType "field" f.name with
    | some failure => do
      Analysis.typeError failure.display
      return none
    | none => do
      let id ← Analysis.pushPendingNested fields
      return some (.new s!"json_nested<array<__nested__{id}>>" true)

def inferRelationAggregateType (func : Function) (scope : Scope) (wrap : WrapArray) (aliasName : String) :
    Analysis (Option TypeInfo) := do
  let fields := nestedFieldsForRelation aliasName scope
  if fields.isEmpty then return none else
  match fields.find? fun f => contains f.neutralType nestedMarker with
  | some field => do
    Analysis.typeError (nestedOverNestedError field.name aliasName)
    return none
  | none => do
    let sourceNullable :=
      ((scope.sources.find? fun s => s.aliasName = aliasName).map (·.nullableFromJoin)).getD false
    let excludesPhantom :=
      wrap = .yes && (func.filter.map (filterExcludesNullRelation aliasName)).getD false
    let id ← Analysis.pushPendingNested fields
    let placeholder := s!"__nested__{id}"
    let element := if sourceNullable && !excludesPhantom then s!"nullable<{placeholder}>" else placeholder
    return some (.new (match wrap with
      | .yes => s!"json_nested<array<{element}>>"
      | .no => s!"json_nested<{placeholder}>") true)

def inferNestedAggregateType (func : Function) (scope : Scope) (wrap : WrapArray) : Analysis (Option TypeInfo) :=
  if catalogHasNestedAggregates catalog then
    match wrap,getFunctionArgShapes func scope with
    | .yes,[.expr (.function inner)] => inferInlineObjectAggregateType self inner scope
    | _,[.relation aliasName] => inferRelationAggregateType func scope wrap aliasName
    | _,_ => return none
  else return none

def inferCatalogFunctionType (func : Function) (scope : Scope) : Analysis (Option TypeInfo) :=
  match catalog.getFunctions func.callName,catalogCallArguments func with
  | some overloads,some callArguments => do
    let inferred ← inferAll self scope (callArguments.map (·.expression))
    match resolveOverload catalog overloads callArguments inferred with
    | .none => do
      Analysis.typeError s!"no overload of function \"{func.callName}\" accepts the supplied argument types"
      return some .unknown
    | .ambiguous => return some (.new (ambiguousFunctionMarker ++ func.callName) true)
    | .best best => do
      registerCatalogFunctionParams catalog best callArguments
      return some (match best.function.returnType with
        | .scalar sqlType | .setOf sqlType => .new (catalogFunctionReturnNeutral func.callName sqlType catalog) true
        | .table _ => .new unresolvedExprMarker true)
  | _,_ => return none

-- The first argument, other than a placeholder, that has a name.
def coalesceName (args : List Expr) : Option String :=
  args.findSome? fun arg =>
    if arg.placeholder?.isNone ∧ exprToName arg ≠ "unknown" then some (exprToName arg) else none

def widenAll (infos : List TypeInfo) : String :=
  infos.foldl (fun widened ti => widenNeutralType widened ti.neutralType) "unknown"

def inferCoalesce (func : Function) (scope : Scope) : Analysis TypeInfo := do
  let args := getFunctionArgs func
  let infos ← inferAll self scope args
  let resultType := widenAll infos
  let anyNonNullable := (args.zip infos).any fun arg => !arg.2.nullable || isNonNullLiteral arg.1 catalog.dialect
  args.forM fun arg => discard <| registerAt arg
    (return ⟨coalesceName args,if resultType ≠ "unknown" then some resultType else none,true,none⟩)
  return .new resultType (!anyNonNullable)

def inferGreatestLeast (func : Function) (scope : Scope) : Analysis TypeInfo := do
  let infos ← inferAll self scope (getFunctionArgs func)
  let nullable :=
    if catalog.dialect = .mySQL then infos.any (·.nullable) else !infos.any fun ti => !ti.nullable
  return .new (widenAll infos) nullable

-- One expression stands for itself; several make a row without a type.
def inferRow (exprs : List Expr) (scope : Scope) : Analysis TypeInfo :=
  match exprs with
  | [only] => self.inferExprType only scope
  | _ => do
    discard <| inferAll self scope exprs
    return .new untypeableRowMarker true

def inferLagLead (func : Function) (scope : Scope) (ti : TypeInfo) : Analysis TypeInfo :=
  if functionHasNullTreatment func then return .new ti.neutralType true else
  match getFunctionArgs func with
  | _ :: _ :: default :: _ => do
    let defaultTi ← self.inferExprType default scope
    return .new ti.neutralType (ti.nullable || defaultTi.nullable)
  | _ => return .new ti.neutralType true

def unnestElement (neutralType : String) : String :=
  (arrayElementType neutralType).getD unresolvedExprMarker

def inferArm (func : Function) (scope : Scope) (firstArgTi : Option TypeInfo) : FunctionArm → Analysis TypeInfo
  | .fixed neutralType nullable => return .new neutralType nullable
  | .strict neutralType => return .new neutralType ((firstArgTi.map (·.nullable)).getD true)
  | .strictInAll neutralType => do return .new neutralType (← anyArgNullable self func scope)
  | .sum =>
    return .new ((firstArgTi.map fun ti => sumResultType ti.neutralType).getD "int64") func.overWindow.isNone
  | .avg =>
    return .new ((firstArgTi.map fun ti => avgResultType ti.neutralType).getD "decimal") func.overWindow.isNone
  | .minMax =>
    return .new ((firstArgTi.map (·.neutralType)).getD "unknown")
      (if func.overWindow.isSome then (firstArgTi.map (·.nullable)).getD true else true)
  | .arrayAgg =>
    let element := (firstArgTi.map (·.neutralType)).getD "unknown"
    return .new s!"array<{element}>" true
  | .jsonAgg => do return (← inferNestedAggregateType catalog self func scope .yes).getD (.new "json" true)
  | .rowToJson => do
    return (← inferNestedAggregateType catalog self func scope .no).getD
      (.new (unknownFunctionMarker ++ func.callName) ((firstArgTi.map (·.nullable)).getD true))
  | .toJson => do
    return (← inferNestedAggregateType catalog self func scope .no).getD
      (.new "json" ((firstArgTi.map (·.nullable)).getD true))
  | .coalesce => inferCoalesce catalog self func scope
  | .nullif => return .new (firstArgTi.getD .unknown).neutralType true
  | .row => inferRow self (getFunctionArgs func) scope
  | .concat =>
    if catalog.dialect = .mySQL then do return .new "string" (← anyArgNullable self func scope)
    else return .new "string" false
  | .firstOrUnknown => return firstArgTi.getD .unknown
  | .ceil => return .new (firstArgTi.getD .unknown).neutralType (firstArgTi.getD .unknown).nullable
  | .round =>
    return .new (roundResultType ((firstArgTi.map (·.neutralType)).getD "decimal"))
      ((firstArgTi.map (·.nullable)).getD true)
  | .mod => return firstArgTi.getD (.new "int32" false)
  | .greatestLeast => inferGreatestLeast catalog self func scope
  | .dateTrunc =>
    match getFunctionArgs func with
    | _ :: source :: _ => do
      let ti ← self.inferExprType source scope
      return .new ti.neutralType ti.nullable
    | _ => return .new "datetime_tz" ((firstArgTi.map (·.nullable)).getD true)
  | .extract => return .new (extractResultType catalog.dialect) ((firstArgTi.map (·.nullable)).getD true)
  | .lagLead => inferLagLead self func scope (firstArgTi.getD .unknown)
  | .firstValue => return .new (firstArgTi.getD .unknown).neutralType true
  | .jsonbSetLax =>
    let args := getFunctionArgs func
    if args.length < 3 then return .new "json" true
    else do return .new "json" (← anyNullable self scope (args.take 2))
  | .record => return .new (untypeableRecordMarker ++ func.callName) true
  | .unnest => return .new (unnestElement (firstArgTi.getD .unknown).neutralType) true

def inferFunctionType (func : Function) (scope : Scope) : Analysis TypeInfo := do
  let firstArgTi ← getFirstArgType self func scope
  match functionArm func.callName with
  | some arm => inferArm catalog self func scope firstArgTi arm
  | none =>
    return (← inferCatalogFunctionType catalog self func scope).getD
      (.new (unknownFunctionMarker ++ func.callName) (firstArgTi.getD .unknown).nullable)

def inferValue (e : Expr) (vws : ValueWithSpan) : Analysis TypeInfo :=
  match vws.value with
  | .number text => return .new (literalNumberNeutralType text) false
  | .singleQuotedString _ | .doubleQuotedString _ =>
    return .new "string" (valueIsNullInDialect vws catalog.dialect)
  | .boolean _ => return .new "bool" false
  | .null => return .untyped
  | .placeholder _ => do
    discard <| registerAt e (return .ofNothing)
    return .untyped
  | .nationalStringLiteral _ | .escapedStringLiteral _ | .dollarQuotedString _ | .other => return .new "string" false

def inferCompoundIdentifier (parts : List Ident) (scope : Scope) : TypeInfo :=
  match parts.reverse with
  | name :: qualifier :: _ =>
    resolveColumnInScope (CaseMap.lowercase name.value) (some (CaseMap.lowercase qualifier.value)) scope
  | _ => .new unresolvedExprMarker true

def binaryOpType (op : BinaryOperator) (left right : TypeInfo) : TypeInfo :=
  match op with
  | .stringConcat => .new "string" (left.nullable || right.nullable)
  | .plus | .minus | .multiply | .divide | .modulo => widenTypeInfo left right
  | .eq | .notEq | .lt | .ltEq | .gt | .gtEq | .and | .or => .new "bool" (left.nullable || right.nullable)
  | .arrow => .new "json" true
  | .longArrow => .new "string" true
  | .hashArrow => .new "json" true
  | .hashLongArrow => .new "string" true
  | .other => .new left.neutralType (left.nullable || right.nullable)

def unaryOpType (op : UnaryOperator) (ti : TypeInfo) : TypeInfo :=
  match op with
  | .not => .new "bool" ti.nullable
  | .minus | .plus | .other => ti

def castNullable (kind : CastKind) (inner : TypeInfo) : Bool :=
  match kind with
  | .tryCast | .safeCast => true
  | .cast | .doubleColon => inner.nullable

-- In a simple CASE the condition is compared with the operand, in a searched
-- one it is the test itself.
def conditionRegistration (operand : Option (Expr × TypeInfo)) : Registration :=
  match operand with
  | some (op,ti) => .ofTyped (exprToName op) ti.neutralType false
  | none => .ofTyped "flag" "bool" false

-- The type of each branch's result, and whether it may be null there.
def inferBranches (operand : Option (Expr × TypeInfo)) (scope : Scope) :
    List CaseWhen → Analysis (List (String × Bool))
  | [] => return []
  | caseWhen :: rest => do
    discard <| self.inferExprType caseWhen.condition scope
    discard <| registerAt caseWhen.condition (return conditionRegistration operand)
    let ti ← self.inferExprType caseWhen.result scope
    let guarded := isNotNullGuard caseWhen.condition caseWhen.result scope
    return (ti.neutralType,ti.nullable && !guarded) :: (← inferBranches operand scope rest)

def inferOperand (operand : Option Expr) (scope : Scope) : Analysis (Option (Expr × TypeInfo)) :=
  match operand with
  | none => return none
  | some op => do return some (op,← self.inferExprType op scope)

def inferCase (operand : Option Expr) (conditions : List CaseWhen) (elseResult : Option Expr) (scope : Scope) :
    Analysis TypeInfo := do
  let operandTi ← inferOperand self operand scope
  let branches ← inferBranches self operandTi scope conditions
  let resultType := branches.foldl (fun widened branch => widenNeutralType widened branch.1) "unknown"
  let anyNullable := branches.any (·.2)
  match elseResult with
  | some elseExpr => do
    let ti ← self.inferExprType elseExpr scope
    return .new (widenNeutralType resultType ti.neutralType) (anyNullable || ti.nullable)
  | none => return .new resultType true

def inferSubquery (query : Query) : Analysis TypeInfo := do
  match ← Analysis.attempt (self.analyzeQuery query) with
  | some (first :: _) =>
    return .new first.neutralType (if isSingleRowAggregateQuery query then first.nullable else true)
  | _ => return .new unresolvedExprMarker true

def accessedField (rootTi : TypeInfo) (accessChain : List AccessExpr) : Option CompositeField := do
  let compName ← stripPrefix rootTi.neutralType "composite::"
  let comp ← catalog.getComposite compName
  match accessChain.getLast? with
  | some (.dot (.identifier ident)) => comp.fields.find? fun f => f.name = CaseMap.lowercase ident.value
  | _ => none

def inferFieldAccess (rootTi : TypeInfo) (accessChain : List AccessExpr) : TypeInfo :=
  match accessedField catalog rootTi accessChain with
  | some field => .new (sqlTypeToNeutral field.sqlType catalog) true
  | none => .new unresolvedExprMarker true

def atTimeZoneType (ti : TypeInfo) : TypeInfo :=
  .new (if ti.neutralType = "datetime_tz" then "datetime" else "datetime_tz") ti.nullable

def inferExprType (e : Expr) (scope : Scope) : Analysis TypeInfo :=
  match e with
  | .identifier ident => return resolveColumnInScope (identToLower ident) none scope
  | .compoundIdentifier parts => return inferCompoundIdentifier parts scope
  | .value vws => inferValue catalog e vws
  | .cast kind inner dataType => do
    let innerTi ← self.inferExprType inner scope
    let neutral := datatypeToNeutral dataType catalog
    collectParamTypeFromCast inner neutral
    return .new neutral (castNullable kind innerTi)
  | .function func => inferFunctionType catalog self func scope
  | .binaryOp left op right => do
    let leftTi ← self.inferExprType left scope
    let rightTi ← self.inferExprType right scope
    return binaryOpType op leftTi rightTi
  | .unaryOp op inner => do return unaryOpType op (← self.inferExprType inner scope)
  | .nested inner => self.inferExprType inner scope
  | .isNull _ => return .new "bool" false
  | .isNotNull _ => return .new "bool" false
  | .isTruth _ _ => return .new "bool" false
  | .inList colExpr list _ => do
    let colTi ← self.inferExprType colExpr scope
    collectParamsFromList list colTi (exprToName colExpr)
    return .new "bool" colTi.nullable
  | .inSubquery colExpr _ _ => do
    let colTi ← self.inferExprType colExpr scope
    return .new "bool" colTi.nullable
  | .between colExpr _ low high => do
    let colTi ← self.inferExprType colExpr scope
    collectParamFromExprWithType self low colTi.neutralType "start"
    collectParamFromExprWithType self high colTi.neutralType "end"
    let lowTi ← self.inferExprType low scope
    let highTi ← self.inferExprType high scope
    return .new "bool" (colTi.nullable || lowTi.nullable || highTi.nullable)
  | .like colExpr _ pattern | .iLike colExpr _ pattern => do
    let colTi ← self.inferExprType colExpr scope
    collectParamFromExprWithType self pattern "string" (exprToName colExpr)
    let patternTi ← self.inferExprType pattern scope
    return .new "bool" (colTi.nullable || patternTi.nullable)
  | .case operand conditions elseResult => inferCase self operand conditions elseResult scope
  | .subquery query => inferSubquery self query
  | .exists _ _ => return .new "bool" false
  | .anyOp left _ right => do
    let leftTi ← self.inferExprType left scope
    discard <| registerAt right
      (return .ofTyped (pluralize (exprToName left)) s!"array<{leftTi.neutralType}>" false)
    self.collectParamFromAny right leftTi (exprToName left)
    return .new "bool" false
  | .allOp left _ right => do
    let leftTi ← self.inferExprType left scope
    discard <| registerAt right
      (return .ofTyped (pluralize (exprToName left)) s!"array<{leftTi.neutralType}>" false)
    return .new "bool" false
  | .array [] => return .new "array<unknown>" false
  | .array (first :: _) => do
    let ti ← self.inferExprType first scope
    return .new s!"array<{ti.neutralType}>" false
  | .tuple exprs => inferRow self exprs scope
  | .extract inner => do
    let ti ← self.inferExprType inner scope
    return .new (extractResultType catalog.dialect) ti.nullable
  | .substring inner _ | .trim inner _ => do
    let ti ← self.inferExprType inner scope
    return .new "string" ti.nullable
  | .position needle haystack => do
    let needleTi ← self.inferExprType needle scope
    let haystackTi ← self.inferExprType haystack scope
    return .new "int32" (needleTi.nullable || haystackTi.nullable)
  | .atTimeZone timestamp _ => do return atTimeZoneType (← self.inferExprType timestamp scope)
  | .typedString dataType => return .new (datatypeToNeutral dataType catalog) false
  | .interval _ => return .new "interval" false
  | .compoundFieldAccess root accessChain => do
    return inferFieldAccess catalog (← self.inferExprType root scope) accessChain
  | .ceil inner | .floor inner => do
    let ti ← self.inferExprType inner scope
    return .new ti.neutralType ti.nullable
  | .other _ => return .new unresolvedExprMarker true

end Scythe
