import Scythe.Expressions

namespace Scythe
open Text

def Scope.push (scope : Scope) (source : ScopeSource) : Scope := ⟨scope.sources ++ [source]⟩

def Scope.markNullable (scope : Scope) : Scope := ⟨scope.sources.map fun s => {s with nullableFromJoin:=true}⟩

-- What a join does to the sources before it, and whether its own are nullable.
structure JoinEffect where
  marksEarlier : Bool
  nullable : Bool
  deriving DecidableEq,Repr

def joinEffect : JoinOperator → JoinEffect
  | .left | .leftOuter | .leftSemi | .leftAnti => ⟨false,true⟩
  | .right | .rightOuter => ⟨true,false⟩
  | .fullOuter => ⟨true,true⟩
  | .crossJoin | .inner | .crossApply | .outerApply => ⟨false,false⟩
  | .join | .other => ⟨false,false⟩

def nestedJoinEffect (nullableFromJoin : Bool) : JoinOperator → JoinEffect
  | .left | .leftOuter => ⟨false,true⟩
  | .right | .rightOuter => ⟨true,false⟩
  | .fullOuter => ⟨true,true⟩
  | _ => ⟨false,nullableFromJoin⟩

def JoinEffect.apply (effect : JoinEffect) (scope : Scope) : Scope :=
  if effect.marksEarlier then scope.markNullable else scope

def knownFunctions : List String := [
  "generate_series","unnest","jsonb_array_elements","json_array_elements","jsonb_each","json_each",
  "jsonb_each_text","json_each_text","jsonb_object_keys","json_object_keys","jsonb_populate_record",
  "json_populate_record","jsonb_populate_recordset","json_populate_recordset","regexp_matches","string_to_table"]

-- The columns of the JSON table functions, however they are called.
def jsonFunctionColumns (name : String) : Option (List ScopeColumn) :=
  if name ∈ ["jsonb_array_elements","json_array_elements"] then some [.new "value" "json" true] else
  if name ∈ ["jsonb_each","json_each"] then some [.new "key" "string" false,.new "value" "json" true] else
  if name ∈ ["jsonb_each_text","json_each_text"] then
    some [.new "key" "string" false,.new "value" "string" true] else
  if name ∈ ["jsonb_object_keys","json_object_keys"] then some [.new "jsonb_object_keys" "string" false] else
  none

variable [CaseMap]

def tableAliasName (tableAlias : Option TableAlias) (otherwise : String) : String :=
  (tableAlias.map fun a => CaseMap.lowercase a.name.value).getD otherwise

def catalogScopeColumns (catalog : Catalog) (tableName : String) (table : Table) : List ScopeColumn :=
  table.columns.map fun c =>
    .fromCatalog c.name ((catalog.columnRawSqlType tableName c.name).getD c.sqlType)
      (sqlTypeToNeutral c.sqlType catalog) c.nullable

def getColumnType (catalog : Catalog) (tableName colName : String) : Option String := do
  let table ← catalog.getTable tableName
  let col ← table.columns.find? fun c => c.name = colName
  return sqlTypeToNeutral col.sqlType catalog

def isColumnNullable (catalog : Catalog) (tableName colName : String) : Bool :=
  (((catalog.getTable tableName).bind fun table => table.columns.find? fun c => c.name = colName).map
    (·.nullable)).getD false

def overloadColumns (catalog : Catalog) (functionName : String) (returnType : FunctionReturn) :
    Except ScytheError (List ScopeColumn) :=
  let bare := bareName functionName
  match returnType with
  | .scalar sqlType | .setOf sqlType =>
    match catalog.getComposite sqlType with
    | some composite => .ok (composite.fields.map fun field =>
        .fromCatalog field.name field.sqlType (sqlTypeToNeutral field.sqlType catalog) field.nullable)
    | none =>
      let neutralType := catalogFunctionReturnNeutral functionName sqlType catalog
      match unresolvedTypeError neutralType "function result" bare with
      | some failure => .error failure
      | none => .ok [.fromCatalog bare sqlType neutralType true]
  | .table columns => .ok (columns.map fun column =>
      .fromCatalog column.name column.sqlType (sqlTypeToNeutral column.sqlType catalog) column.nullable)

def renameScopeColumns (columns : List ScopeColumn) (names : List Ident) : List ScopeColumn :=
  columns.zipWith (fun column ident => {column with name:=CaseMap.lowercase ident.value}) names

def aliasFunctionColumns (columns : List ScopeColumn) (tableAlias : Option TableAlias) :
    Except ScytheError (List ScopeColumn) :=
  match tableAlias with
  | none => .ok columns
  | some a =>
    if a.columns.isEmpty then .ok columns else
    if a.columns.length ≠ columns.length then .error (.columnCountMismatch a.columns.length columns.length) else
    .ok (renameScopeColumns columns a.columns)

variable (catalog : Catalog) (self : Methods)

def generateSeriesResultType (args : List FunctionArg) (scope : Scope) : Analysis String := do
  let infos ← inferAll self scope ((functionArgExprs args).take 2)
  let resultType := widenAll infos
  return if resultType = "unknown" then "int32" else resultType

def catalogFunctionColumns (functionName : String) (args : List FunctionArg) (scope : Scope)
    (tableAlias : Option TableAlias) : Analysis (List ScopeColumn) :=
  match catalog.getFunctions functionName with
  | none => Analysis.fail (.unknownFunction functionName)
  | some overloads =>
    match catalogCallArgumentsFromArgs args with
    | none => Analysis.fail (.typeMismatch s!"function \"{functionName}\" has unsupported wildcard arguments")
    | some callArguments => do
      let inferred ← inferAll self scope (callArguments.map (·.expression))
      match resolveOverload catalog overloads callArguments inferred with
      | .none =>
        Analysis.fail (.typeMismatch s!"no overload of function \"{functionName}\" accepts the supplied argument types")
      | .ambiguous => Analysis.fail (.ambiguousFunction functionName)
      | .best best => do
        registerCatalogFunctionParams catalog best callArguments
        let columns ← Analysis.ofExcept (overloadColumns catalog functionName best.function.returnType)
        Analysis.ofExcept (aliasFunctionColumns columns tableAlias)

def knownFunctionColumns (tableName : String) (args : Option (List FunctionArg)) (scope : Scope) :
    Analysis (List ScopeColumn) :=
  if tableName = "generate_series" then do
    return [.new "generate_series" (← generateSeriesResultType self (args.getD []) scope) false]
  else return (jsonFunctionColumns tableName).getD []

-- A CTE hides a table, a table hides a function.
def tableColumns (tableName : String) (tableAlias : Option TableAlias) (args : Option (List FunctionArg))
    (scope : Scope) : Analysis (List ScopeColumn) := do
  let ctes ← Analysis.ctes
  match ctes.lookup tableName with
  | some columns => return columns
  | none =>
  match catalog.getTable tableName with
  | some table => return catalogScopeColumns catalog tableName table
  | none =>
  match args,catalog.getFunctions tableName with
  | some functionArgs,some _ => catalogFunctionColumns catalog self tableName functionArgs scope tableAlias
  | _,_ =>
    if tableName ∈ knownFunctions then knownFunctionColumns self tableName args scope
    else Analysis.fail ⟨.unknownTable,s!"relation \"{tableName}\" does not exist"⟩

def functionColumns (funcName : String) (args : List FunctionArg) (scope : Scope)
    (tableAlias : Option TableAlias) : Analysis (List ScopeColumn) :=
  if funcName = "generate_series" then do
    return [.new "generate_series" (← generateSeriesResultType self args scope) false]
  else if funcName = "unnest" then return [.new "unnest" unresolvedExprMarker true]
  else match jsonFunctionColumns funcName with
  | some cols => return cols
  | none => catalogFunctionColumns catalog self funcName args scope tableAlias

def tableFunctionColumns (funcName : String) (args : List FunctionArg) (scope : Scope)
    (tableAlias : Option TableAlias) : Analysis (List ScopeColumn) := do
  let cols ← functionColumns catalog self funcName args scope tableAlias
  return match tableAlias with
  | none => cols
  | some a =>
    if (catalog.getFunctions funcName).isNone ∧ ¬a.columns.isEmpty then
      a.columns.map fun c => .new (CaseMap.lowercase c.value) unresolvedExprMarker true
    else cols

-- The joins of a list, each applied to the scope built so far.
def addJoins (effect : JoinOperator → JoinEffect) : List Join → Scope → Analysis Scope
  | [],scope => return scope
  | join :: joins,scope => do
    let marked := (effect join.joinOperator).apply scope
    let added ← self.addTableFactorToScope join.relation marked (effect join.joinOperator).nullable
    addJoins effect joins added

def addTableFactorToScope (tf : TableFactor) (scope : Scope) (nullableFromJoin : Bool) : Analysis Scope :=
  match tf with
  | .table name tableAlias args _ => do
    let tableName := CaseMap.lowercase (objectNameToString name)
    let columns ← tableColumns catalog self tableName tableAlias args scope
    return scope.push ⟨tableAliasName tableAlias (bareName tableName),tableName,columns,nullableFromJoin⟩
  | .derived subquery tableAlias => do
    let subCols ← Analysis.derived (self.analyzeQuery subquery)
    let aliasName := tableAliasName tableAlias "subquery"
    return scope.push ⟨aliasName,aliasName,subCols.map .fromAnalyzedColumn,nullableFromJoin⟩
  | .nestedJoin tables _ => do
    let first ← self.addTableFactorToScope tables.relation scope nullableFromJoin
    addJoins self (nestedJoinEffect nullableFromJoin) tables.joins first
  | .tableFunction _ tableAlias | .unnest _ tableAlias =>
    let aliasName := tableAliasName tableAlias "func"
    return scope.push ⟨aliasName,aliasName,[],nullableFromJoin⟩
  | .function name args tableAlias => do
    let funcName := CaseMap.lowercase (objectNameToString name)
    let columns ← tableFunctionColumns catalog self funcName args scope tableAlias
    let aliasName := tableAliasName tableAlias funcName
    return scope.push ⟨aliasName,aliasName,columns,nullableFromJoin⟩
  | .other _ => return scope

def addTables : List TableWithJoins → Scope → Analysis Scope
  | [],scope => return scope
  | twj :: rest,scope => do
    let first ← self.addTableFactorToScope twj.relation scope false
    let joined ← addJoins self joinEffect twj.joins first
    addTables rest joined

def buildScopeFromFrom (sources : List TableWithJoins) : Analysis Scope := addTables self sources .empty

def buildScopeForTable (tableName : String) : Analysis Scope := do
  let ctes ← Analysis.ctes
  match ctes.lookup tableName with
  | some columns => return ⟨[⟨tableName,tableName,columns,false⟩]⟩
  | none =>
  match catalog.getTable tableName with
  | some table => return ⟨[⟨bareName tableName,tableName,catalogScopeColumns catalog tableName table,false⟩]⟩
  | none => return .empty

end Scythe
