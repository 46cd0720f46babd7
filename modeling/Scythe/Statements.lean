import Scythe.Scope

namespace Scythe
open Text

def otherArmError (nestedSide other : String) : String :=
  s!"UNION arms disagree: the {nestedSide} arm produces a nested aggregate " ++
    "(json_agg/row_to_json) with an inferred row shape, but the other arm produces " ++
    s!"\"{other}\"; there is no way to widen a nested struct against a type that is not one, " ++
    "and silently keeping either arm would deserialize the other arm's values into the " ++
    "wrong shape at runtime"

def shapesDifferError : String :=
  "UNION arms both produce a nested aggregate (json_agg/row_to_json) but with different row " ++
    "shapes; a UNION requires every arm to produce the same column types, and there is no way to " ++
    "widen two different nested struct shapes into one"

def pendingFields (pending : List PendingNestedStruct) (id : Nat) : Option (List NestedFieldInfo) :=
  (pending.find? fun p => p.id = id).map (·.fields)

-- Two arms with nested aggregates widen only when the rows have one shape.
def widenUnionArmType (left right : String) : Analysis String :=
  match findNestedPlaceholderId left,findNestedPlaceholderId right with
  | some leftId,some rightId => do
    let pending ← Analysis.pendingNested
    if (pendingFields pending leftId).isSome ∧ pendingFields pending leftId = pendingFields pending rightId then
      return left
    else do
      Analysis.typeError shapesDifferError
      return left
  | some _,none => do
    Analysis.typeError (otherArmError "left" right)
    return widenNeutralType left right
  | none,some _ => do
    Analysis.typeError (otherArmError "right" left)
    return widenNeutralType left right
  | none,none => return widenNeutralType left right

def widenedColumn (left right : AnalyzedColumn) (widenedType : String) : AnalyzedColumn where
  name := left.name
  neutralType := widenedType
  nullable := left.nullable || right.nullable
  joinGroup := none
  nullableBeforeJoin := false
  sqlType := if left.sqlType = right.sqlType then left.sqlType else widenedType
  sourceRelation := none
  untypedLiteral := left.untypedLiteral && right.untypedLiteral

def widenArms : List AnalyzedColumn → List AnalyzedColumn → Analysis (List AnalyzedColumn)
  | [],_ => return []
  | left :: lefts,[] => do return left :: (← widenArms lefts [])
  | left :: lefts,right :: rights => do
    let widenedType ← widenUnionArmType left.neutralType right.neutralType
    return widenedColumn left right widenedType :: (← widenArms lefts rights)

def wildcardColumns (scope : Scope) : List AnalyzedColumn :=
  scope.sources.flatMap fun source =>
    source.columns.map fun col => .fromTypeInfo col.name (.fromScopeColumn col source)

def answersTo (qualifier : String) (source : ScopeSource) : Bool :=
  source.aliasName = qualifier || source.tableName = qualifier

def Scope.named (scope : Scope) (qualifier : String) : Scope := ⟨scope.sources.filter (answersTo qualifier)⟩

-- What RETURNING * projects carries no join, since its scope is one table.
def returnedColumn (source : ScopeSource) (col : ScopeColumn) : AnalyzedColumn where
  name := col.name
  neutralType := col.neutralType
  nullable := col.baseNullable
  joinGroup := none
  nullableBeforeJoin := false
  sqlType := col.sqlType
  sourceRelation := some source.tableName
  untypedLiteral := false

def returningColumns (scope : Scope) : List AnalyzedColumn :=
  scope.sources.flatMap fun source => source.columns.map (returnedColumn source)

variable [CaseMap]

def applyCteAliasColumns (cteAlias : TableAlias) (cols : List AnalyzedColumn) :
    Except ScytheError (List AnalyzedColumn) :=
  if cteAlias.columns.isEmpty then .ok cols else
  if cteAlias.columns.length ≠ cols.length then
    .error (.cteColumnAliasMismatch cteAlias.columns.length cols.length)
  else .ok (cols.zipWith (fun col ident => {col with name:=CaseMap.lowercase ident.value}) cteAlias.columns)

def wildcardQualifier : WildcardKind → String
  | .objectName name => CaseMap.lowercase (objectNameToString name)
  | .expr e => exprToName e

variable (catalog : Catalog) (self : Methods)

-- One row of a VALUES list, folded into the columns' types and nullability.
def widenRow : List (String × Bool) → List Expr → Analysis (List (String × Bool))
  | [],_ => return []
  | cols,[] => return cols
  | (colType,nullable) :: cols,e :: es => do
    let ti ← self.inferExprType e .empty
    return (widenNeutralType colType ti.neutralType,nullable || ti.nullable) :: (← widenRow cols es)

def widenRows : List (List Expr) → List (String × Bool) → Analysis (List (String × Bool))
  | [],cols => return cols
  | row :: rows,cols => do widenRows rows (← widenRow self cols row)

def valuesColumns (cols : List (String × Bool)) : List AnalyzedColumn :=
  cols.zipIdx.map fun col => .fromTypeInfo s!"column{col.2 + 1}" (.new col.1.1 col.1.2)

def projectItem (scope : Scope) (item : SelectItem) : Analysis (List AnalyzedColumn) :=
  match item with
  | .unnamedExpr e => do
    self.collectParamsFromWhere e scope
    let ti ← self.inferExprType e scope
    return [.fromTypeInfo (exprToName e) ti]
  | .exprWithAlias e name => do
    self.collectParamsFromWhere e scope
    let ti ← self.inferExprType e scope
    return [.fromTypeInfo (CaseMap.lowercase name.value) ti]
  | .exprWithAliases e names => do
    self.collectParamsFromWhere e scope
    let ti ← self.inferExprType e scope
    return names.map fun name => .fromTypeInfo (CaseMap.lowercase name.value) ti
  | .wildcard _ _ => return wildcardColumns scope
  | .qualifiedWildcard kind _ _ => return wildcardColumns (scope.named (wildcardQualifier kind))

def projectItems (scope : Scope) : List SelectItem → Analysis (List AnalyzedColumn)
  | [] => return []
  | item :: items => do
    let cols ← projectItem self scope item
    return cols ++ (← projectItems scope items)

def analyzeSelect (select : Select) : Analysis (List AnalyzedColumn) := do
  let scope ← buildScopeFromFrom self select.sources
  let columns ← projectItems self scope select.projection
  select.selection.forM fun selection => self.collectParamsFromWhere selection scope
  select.having.forM fun having => self.collectParamsFromWhere having scope
  Analysis.ofExcept (rejectUnresolvedColumns columns)
  return disambiguateColumns columns

def analyzeSetExpr (setExpr : SetExpr) : Analysis (List AnalyzedColumn) :=
  match setExpr with
  | .select select => analyzeSelect self select
  | .query query => self.analyzeQuery query
  | .setOperation _ left right => do
    let leftCols ← self.analyzeSetExpr left
    let rightCols ← self.analyzeSetExpr right
    if ¬leftCols.isEmpty ∧ ¬rightCols.isEmpty ∧ leftCols.length ≠ rightCols.length then
      Analysis.fail (.columnCountMismatch leftCols.length rightCols.length)
    else widenArms leftCols rightCols
  | .values [] => return []
  | .values (first :: rest) => do
    let cols ← widenRows self (first :: rest) (first.map fun _ => ("unknown",false))
    return valuesColumns cols
  | .other _ => return []

def referencesItself [Printer] (cte : Cte) (cteName : String) : Bool :=
  let body := CaseMap.lowercase (Printer.query cte.query)
  contains body s!"from {cteName}" || contains body s!"join {cteName}"

-- The CTE's columns, under its alias list, become visible under its name.
def registerCte (cteAlias : TableAlias) (cteName : String) (cols : List AnalyzedColumn) : Analysis Unit := do
  let cols ← Analysis.ofExcept (applyCteAliasColumns cteAlias cols)
  Analysis.insertCte cteName (cols.map .fromAnalyzedColumn)

def analyzeCte [Printer] (recursive : Bool) (cte : Cte) : Analysis Unit := do
  let cteName := CaseMap.lowercase cte.tableAlias.name.value
  match recursive,cte.query.body with
  | true,.setOperation _ left _ => do
    let baseCols ← self.analyzeSetExpr left
    registerCte cte.tableAlias cteName baseCols
    let fullCols ← self.analyzeQuery cte.query
    registerCte cte.tableAlias cteName fullCols
  | true,_ =>
    if referencesItself cte cteName then
      Analysis.fail (.invalidRecursion s!"recursive CTE \"{cteName}\" has no non-recursive base case")
    else do
      let cteCols ← self.analyzeQuery cte.query
      registerCte cte.tableAlias cteName cteCols
  | false,_ => do
    let cteCols ← self.analyzeQuery cte.query
    registerCte cte.tableAlias cteName cteCols

def analyzeLimit (limitClause : LimitClause) : Analysis Unit :=
  match limitClause with
  | .limitOffset limit offset _ => do
    limit.forM fun limit => collectParamFromExpr catalog limit "limit_val" "int64"
    offset.forM fun offset => collectParamFromExpr catalog offset "offset_val" "int64"
  | .offsetCommaLimit offset limit => do
    collectParamFromExpr catalog limit "limit_val" "int64"
    collectParamFromExpr catalog offset "offset_val" "int64"

def analyzeQuery [Printer] (query : Query) : Analysis (List AnalyzedColumn) := do
  query.withClause.forM fun withClause => withClause.cteTables.forM (analyzeCte self withClause.recursive)
  let result ← self.analyzeSetExpr query.body
  query.limitClause.forM (analyzeLimit catalog)
  return result

def returningItem (scope : Scope) (item : SelectItem) : Analysis (List AnalyzedColumn) :=
  match item with
  | .unnamedExpr e => do return [.fromTypeInfo (exprToName e) (← self.inferExprType e scope)]
  | .exprWithAlias e name => do
    return [.fromTypeInfo (CaseMap.lowercase name.value) (← self.inferExprType e scope)]
  | .exprWithAliases e names => do
    let ti ← self.inferExprType e scope
    return names.map fun name => .fromTypeInfo (CaseMap.lowercase name.value) ti
  | .wildcard _ _ => return returningColumns scope
  | .qualifiedWildcard kind _ _ => return returningColumns (scope.named (wildcardQualifier kind))

def returningItems (scope : Scope) : List SelectItem → Analysis (List AnalyzedColumn)
  | [] => return []
  | item :: items => do
    let cols ← returningItem self scope item
    return cols ++ (← returningItems scope items)

def analyzeReturning (tableName : String) (returning : List SelectItem) : Analysis (List AnalyzedColumn) := do
  let scope ← buildScopeForTable catalog tableName
  let columns ← returningItems self scope returning
  Analysis.ofExcept (rejectUnresolvedColumns columns)
  return disambiguateColumns columns

def analyzeOptionalReturning (tableName : String) (returning : Option (List SelectItem)) :
    Analysis (List AnalyzedColumn) :=
  match returning with
  | some items => analyzeReturning catalog self tableName items
  | none => return []

structure EffectiveColumn where
  name : String
  neutralType : String
  nullable : Bool

-- The columns that the positions of a VALUES list bind to: the column list, or
-- without one the table's columns.
def effectiveColumns (tableName : String) (targetCols : List String) : List (Option EffectiveColumn) :=
  match targetCols with
  | [] =>
    match catalog.getTable tableName with
    | some table => table.columns.map fun c => do
      some ⟨c.name,← getColumnType catalog tableName c.name,c.nullable⟩
    | none => []
  | targetCols => targetCols.map fun n => do
    some ⟨n,← getColumnType catalog tableName n,isColumnNullable catalog tableName n⟩

def collectInsertValue (effective : List (Option EffectiveColumn)) (targetCols : List String) (i : Nat) (e : Expr) :
    Analysis Unit :=
  match effective[i]?.join with
  | some col => self.collectParamFromExprWithTypeNullable e col.neutralType col.name col.nullable
  | none => do
    let ti ← self.inferExprType e .empty
    self.collectParamFromExprWithTypeNullable e ti.neutralType (targetCols[i]?.getD (exprToName e)) ti.nullable

def collectInsertRow (effective : List (Option EffectiveColumn)) (targetCols : List String) :
    Nat → List Expr → Analysis Unit
  | _,[] => return ()
  | i,e :: es => do
    collectInsertValue self effective targetCols i e
    collectInsertRow effective targetCols (i + 1) es

def collectInsertParams (tableName : String) (targetCols : List String) (source : SetExpr) : Analysis Unit :=
  match source with
  | .values rows =>
    rows.forM (collectInsertRow self (effectiveColumns catalog tableName targetCols) targetCols 0)
  | .select select => discard <| analyzeSelect self select
  | .query query => discard <| self.analyzeQuery query
  | _ => return ()

-- An assignment to a column that the catalog does not have is passed over.
def collectAssignment (tableName : String) (assign : Assignment) : Analysis Unit :=
  match getColumnType catalog tableName (assignmentTargetName assign.target) with
  | some colType => collectParamFromExprWithType self assign.value colType (assignmentTargetName assign.target)
  | none => return ()

def collectOnConflict (tableName : String) (on : Option OnInsert) : Analysis Unit :=
  match on with
  | some (.onConflict (.doUpdate doUpdate)) => do
    let scope ← buildScopeForTable catalog tableName
    doUpdate.assignments.forM (collectAssignment catalog self tableName)
    doUpdate.selection.forM fun selection => self.collectParamsFromWhere selection scope
  | _ => return ()

def insertTarget : TableObject → Except ScytheError String
  | .tableName name => .ok (CaseMap.lowercase (objectNameToString name))
  | .tableFunction name _ => .ok (CaseMap.lowercase (objectNameToString name))
  | .tableQuery _ => .error (.syntaxError "INSERT target must be a table name or table function")

def analyzeInsert (insert : Insert) : Analysis (List AnalyzedColumn) := do
  let tableName ← Analysis.ofExcept (insertTarget insert.table)
  let targetCols := insert.columns.map fun name => CaseMap.lowercase (objectNameToString name)
  insert.source.forM fun source => collectInsertParams catalog self tableName targetCols source.body
  collectOnConflict catalog self tableName insert.on
  analyzeOptionalReturning catalog self tableName insert.returning

def extendScope (scope : Scope) (tables : Option (List TableWithJoins)) : Analysis Scope :=
  match tables with
  | some tables => do return ⟨scope.sources ++ (← buildScopeFromFrom self tables).sources⟩
  | none => return scope

def analyzeUpdate (update : Update) : Analysis (List AnalyzedColumn) := do
  let tableName := tableFactorName update.table.relation
  let tableScope ← buildScopeForTable catalog tableName
  let scope ← extendScope self tableScope update.sources
  update.assignments.forM (collectAssignment catalog self tableName)
  update.selection.forM fun selection => self.collectParamsFromWhere selection scope
  analyzeOptionalReturning catalog self tableName update.returning

def analyzeDelete (delete : Delete) : Analysis (List AnalyzedColumn) := do
  let tableName := (delete.sources.head?.map fun twj => tableFactorName twj.relation).getD ""
  let tableScope ← buildScopeForTable catalog tableName
  let scope ← extendScope self tableScope delete.usingTables
  delete.selection.forM fun selection => self.collectParamsFromWhere selection scope
  analyzeOptionalReturning catalog self tableName delete.returning

def analyzeStatementWith (stmt : Statement) : Analysis (List AnalyzedColumn) :=
  match stmt with
  | .query query => self.analyzeQuery query
  | .insert statement => analyzeInsert catalog self statement
  | .update statement => analyzeUpdate catalog self statement
  | .delete statement => analyzeDelete catalog self statement
  | .other => return []

-- The functions call one another down the syntax tree. The fuel is the depth
-- of calls; a statement's own size, counted twice, is as deep as they can go.
def methods [Printer] : Nat → Methods
  | 0 => ⟨fun _ _ => .diverge,fun _ _ => .diverge,fun _ _ _ _ => .diverge,fun _ _ _ => .diverge,
      fun _ => .diverge,fun _ => .diverge,fun _ _ _ => .diverge⟩
  | fuel + 1 => {
      inferExprType := inferExprType catalog (methods fuel)
      collectParamsFromWhere :=
        collectParamsFromWhere catalog (methods fuel) (inferFunctionType catalog (methods fuel))
      collectParamFromExprWithTypeNullable := collectParamFromExprWithTypeNullable catalog (methods fuel)
      collectParamFromAny := collectParamFromAny catalog (methods fuel)
      analyzeQuery := analyzeQuery catalog (methods fuel)
      analyzeSetExpr := analyzeSetExpr (methods fuel)
      addTableFactorToScope := addTableFactorToScope catalog (methods fuel) }

def Statement.fuel (stmt : Statement) : Nat := 2 * stmt.marks.length + 2

def analyzeStatement [Printer] (stmt : Statement) : Analysis (List AnalyzedColumn) :=
  analyzeStatementWith catalog (methods catalog stmt.fuel) stmt

end Scythe
