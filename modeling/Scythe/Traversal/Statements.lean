import Scythe.Traversal.Expressions

namespace Scythe
open Effect Numbering

theorem follows_widenUnionArmType (left right : String) : Follows (widenUnionArmType left right) .skip := by
  unfold widenUnionArmType
  split
  · refine follows_pendingNested.then_skip fun pending => ?_
    split
    · exact follows_pure _
    · exact (follows_typeError _ .skip).map _
  · exact (follows_typeError _ .skip).map _
  · exact (follows_typeError _ .skip).map _
  · exact follows_pure _

theorem follows_widenArms (left right : List AnalyzedColumn) : Follows (widenArms left right) .skip := by
  induction left generalizing right with
  | nil => exact follows_pure _
  | cons col left ih =>
    cases right with
    | nil => exact (ih []).map _
    | cons col' right => exact (follows_widenUnionArmType _ _).then_skip fun widened => (ih right).map _

-- A row leaves as many columns as there were.
theorem widenRow_length {cols after : List (String × Bool)} {row : List Expr}
    (answers : Answers (widenRow self cols row) after) : after.length = cols.length := by
  induction row generalizing cols after with
  | nil => cases cols <;> (obtain ⟨w,w',ran⟩ := answers; cases ran; rfl)
  | cons e es ih =>
    cases cols with
    | nil => obtain ⟨w,w',ran⟩ := answers; cases ran; rfl
    | cons col cols =>
      obtain ⟨w,w',ran⟩ := answers
      obtain ⟨ti,between,-,rest⟩ := walk_bind ran
      obtain ⟨later,between',restRan,done⟩ := walk_bind rest
      cases done
      rw [List.length_cons,List.length_cons,ih ⟨_,_,restRan⟩]

section Functions
variable {self : Methods} {routes : Routes} (follow : MethodsFollow self routes)
include follow

theorem follows_generateSeriesResultType (args : List FunctionArg) (scope : Scope) :
    Follows (generateSeriesResultType self args scope) (Route.generateSeries routes args) :=
  (follows_inferAll follow scope _).map _

theorem follows_knownFunctionColumns (tableName : String) (args : Option (List FunctionArg)) (scope : Scope) :
    Follows (knownFunctionColumns self tableName args scope) (Route.knownFunctionColumns routes tableName args) := by
  unfold knownFunctionColumns Route.knownFunctionColumns
  split
  · exact (follows_generateSeriesResultType follow _ scope).map _
  · exact follows_pure _

theorem follows_addJoins (effect : JoinOperator → JoinEffect) (joins : List Join) (scope : Scope) :
    Follows (addJoins self effect joins scope) (Route.addJoins routes joins) := by
  induction joins generalizing scope with
  | nil => exact follows_pure scope
  | cons join joins ih => exact (follow.addTableFactorToScope join.relation _ _).bind fun added => ih added

theorem follows_widenRow (cols : List (String × Bool)) (row : List Expr) :
    Follows (widenRow self cols row) (Route.each routes.inferExprType (row.take cols.length)) := by
  induction row generalizing cols with
  | nil => cases cols <;> exact follows_pure _
  | cons e es ih =>
    cases cols with
    | nil => exact follows_pure _
    | cons col cols => exact (follow.inferExprType e .empty).bind fun ti => (ih cols).map _

theorem follows_addTables (sources : List TableWithJoins) (scope : Scope) :
    Follows (addTables self sources scope) (Route.buildScopeFromFrom routes sources) := by
  induction sources generalizing scope with
  | nil => exact follows_pure scope
  | cons twj rest ih =>
    refine Follows.assoc ((follow.addTableFactorToScope twj.relation scope _).bind fun first => ?_)
    exact (follows_addJoins follow _ _ first).bind fun joined => ih joined

theorem follows_buildScopeFromFrom (sources : List TableWithJoins) :
    Follows (buildScopeFromFrom self sources) (Route.buildScopeFromFrom routes sources) :=
  follows_addTables follow sources .empty

theorem follows_widenRows (rows : List (List Expr)) (cols : List (String × Bool)) :
    Follows (widenRows self rows cols) (Route.widenRows routes rows cols.length) := by
  induction rows generalizing cols with
  | nil => exact follows_pure cols
  | cons row rows ih =>
    refine (follows_widenRow follow cols row).bind_of fun after answers => ?_
    rw [←widenRow_length answers]
    exact ih after

theorem follows_extendScope (scope : Scope) (tables : Option (List TableWithJoins)) :
    Follows (extendScope self scope tables) (Route.optional (Route.buildScopeFromFrom routes) tables) := by
  cases tables with
  | none => exact follows_pure _
  | some tables => exact (follows_buildScopeFromFrom follow tables).map _

variable [Text.CaseMap] {catalog : Catalog}

theorem follows_catalogFunctionColumns (functionName : String) (args : List FunctionArg) (scope : Scope)
    (tableAlias : Option TableAlias) :
    Follows (catalogFunctionColumns catalog self functionName args scope tableAlias)
      (Route.catalogFunctionColumns catalog routes functionName args) := by
  unfold catalogFunctionColumns Route.catalogFunctionColumns
  cases catalog.getFunctions functionName with
  | none => exact follows_fail _ _
  | some overloads =>
    cases catalogCallArgumentsFromArgs args with
    | none => exact follows_fail _ _
    | some callArguments =>
      refine (follows_inferAll follow scope _).bind fun inferred => ?_
      cases is : resolveOverload catalog overloads callArguments inferred with
      | none => exact follows_fail _ _
      | ambiguous => exact follows_fail _ _
      | best best =>
        refine (follows_registerCatalogFunctionParams is).then_skip fun _ => ?_
        exact (follows_ofExcept _).then_skip fun columns => follows_ofExcept _

theorem follows_functionColumns (funcName : String) (args : List FunctionArg) (scope : Scope)
    (tableAlias : Option TableAlias) :
    Follows (functionColumns catalog self funcName args scope tableAlias)
      (Route.functionColumns catalog routes funcName args) := by
  unfold functionColumns Route.functionColumns
  split
  · exact (follows_generateSeriesResultType follow args scope).map _
  · split
    · rename_i unnest
      rw [if_pos (.inl unnest)]
      exact follows_pure _
    · rename_i unnest
      cases jsonFunctionColumns funcName with
      | some columns =>
        rw [if_pos (.inr rfl)]
        exact follows_pure _
      | none =>
        rw [if_neg (by simpa using unnest)]
        exact follows_catalogFunctionColumns follow funcName args scope tableAlias

theorem follows_tableFunctionColumns (funcName : String) (args : List FunctionArg) (scope : Scope)
    (tableAlias : Option TableAlias) :
    Follows (tableFunctionColumns catalog self funcName args scope tableAlias)
      (Route.functionColumns catalog routes funcName args) :=
  (follows_functionColumns follow funcName args scope tableAlias).map _

theorem follows_tableColumns (tableName : String) (tableAlias : Option TableAlias)
    (args : Option (List FunctionArg)) (scope : Scope) :
    Follows (tableColumns catalog self tableName tableAlias args scope)
      (Route.tableColumns catalog routes tableName args) := by
  refine .unbound tableName (fun ctes columns found => ?_) fun ctes absent => ?_
  · rw [found]
    exact follows_pure columns
  · rw [absent]
    dsimp only
    cases catalog.getTable tableName with
    | some table => exact follows_pure _
    | none =>
      cases args with
      | none =>
        by_cases known : tableName ∈ knownFunctions
        · simpa [known] using follows_knownFunctionColumns follow tableName none scope
        · simpa [known] using @follows_fail (List ScopeColumn) _ _
      | some functionArgs =>
        cases catalog.getFunctions tableName with
        | some overloads => exact follows_catalogFunctionColumns follow tableName functionArgs scope tableAlias
        | none =>
          by_cases known : tableName ∈ knownFunctions
          · simpa [known] using follows_knownFunctionColumns follow tableName (some functionArgs) scope
          · simpa [known] using @follows_fail (List ScopeColumn) _ _

theorem follows_addTableFactorToScope (tf : TableFactor) (scope : Scope) (nullableFromJoin : Bool) :
    Follows (addTableFactorToScope catalog self tf scope nullableFromJoin)
      (Route.addTableFactorToScope catalog routes tf) := by
  cases tf with
  | table name tableAlias args unread => exact (follows_tableColumns follow _ tableAlias args scope).map _
  | derived subquery tableAlias => exact (follow.analyzeQuery subquery).derived.map _
  | nestedJoin tables =>
    exact (follow.addTableFactorToScope tables.relation scope _).bind fun first => follows_addJoins follow _ _ first
  | function name args tableAlias => exact (follows_tableFunctionColumns follow _ args scope tableAlias).map _
  | _ => exact follows_pure _

omit follow in
theorem follows_buildScopeForTable (tableName : String) : Follows (buildScopeForTable catalog tableName) .skip := by
  refine follows_ctes.then_skip fun ctes => ?_
  cases ctes.lookup tableName with
  | some columns => exact follows_pure _
  | none =>
    dsimp only
    cases catalog.getTable tableName <;> exact follows_pure _

theorem follows_projectItem (scope : Scope) (item : SelectItem) :
    Follows (projectItem self scope item) (Route.projectItem routes item) := by
  have item' := fun e => (follow.collectParamsFromWhere e scope)
  cases item with
  | unnamedExpr e => exact (item' e).bind fun _ => (follow.inferExprType e scope).map _
  | exprWithAlias e name => exact (item' e).bind fun _ => (follow.inferExprType e scope).map _
  | exprWithAliases e names => exact (item' e).bind fun _ => (follow.inferExprType e scope).map _
  | _ => exact follows_pure _

theorem follows_projectItems (scope : Scope) (items : List SelectItem) :
    Follows (projectItems self scope items) (Route.each (Route.projectItem routes) items) := by
  induction items with
  | nil => exact follows_pure []
  | cons item items ih => exact (follows_projectItem follow scope item).bind fun cols => ih.map _

theorem follows_analyzeSelect (select : Select) :
    Follows (analyzeSelect self select) (Route.analyzeSelect routes select) := by
  refine (follows_buildScopeFromFrom follow select.sources).bind fun scope => ?_
  refine (follows_projectItems follow scope select.projection).bind fun columns => ?_
  refine (Follows.optional fun e => follow.collectParamsFromWhere e scope).bind fun _ => ?_
  refine (Follows.optional fun e => follow.collectParamsFromWhere e scope).then_skip fun _ => ?_
  exact (follows_ofExcept _).map _

theorem follows_analyzeSetExpr (setExpr : SetExpr) :
    Follows (analyzeSetExpr self setExpr) (Route.analyzeSetExpr routes setExpr) := by
  cases setExpr with
  | select select => exact follows_analyzeSelect follow select
  | query query => exact follow.analyzeQuery query
  | setOperation op left right =>
    refine (follow.analyzeSetExpr left).bind fun leftCols => ?_
    refine (follow.analyzeSetExpr right).then_skip fun rightCols => ?_
    split
    · exact follows_fail _ _
    · exact follows_widenArms _ _
  | values rows =>
    cases rows with
    | nil => exact follows_pure _
    | cons first rest =>
      have rows := follows_widenRows follow (first :: rest) (first.map fun _ => ("unknown",false))
      rw [List.length_map] at rows
      exact rows.map _
  | other unread => exact follows_pure _

omit follow in
theorem follows_registerCte (cteAlias : TableAlias) (cteName : String) (cols : List AnalyzedColumn) :
    Follows (registerCte cteAlias cteName cols) (.bind cteName) :=
  (follows_ofExcept _).bind_skip fun _ => follows_insertCte cteName _

theorem follows_analyzeCte [Printer] (recursive : Bool) (cte : Cte) :
    Follows (analyzeCte self recursive cte) (Route.analyzeCte routes recursive cte) := by
  have plain := (follow.analyzeQuery cte.query).bind fun cols =>
    follows_registerCte cte.tableAlias (Text.CaseMap.lowercase cte.tableAlias.name.value) cols
  have guarded : ∀ failure,Follows (if referencesItself cte (Text.CaseMap.lowercase cte.tableAlias.name.value)
      then Analysis.fail failure else _) _ := fun failure => by
    split
    · exact follows_fail _ _
    · exact plain
  unfold analyzeCte Route.analyzeCte
  cases recursive with
  | false => exact plain
  | true =>
    cases cte.query.body with
    | setOperation op left right =>
      refine (follow.analyzeSetExpr left).bind fun baseCols => (follows_registerCte _ _ _).bind fun _ => ?_
      exact (follow.analyzeQuery cte.query).bind fun fullCols => follows_registerCte _ _ _
    | _ => exact guarded _

omit follow in
theorem follows_analyzeLimit (limitClause : LimitClause) :
    Follows (analyzeLimit catalog limitClause) (Route.analyzeLimit limitClause) := by
  cases limitClause with
  | limitOffset limit offset unread =>
    exact (Follows.optional fun e => follows_collectParamFromExpr e _ _).bind fun _ =>
      .optional fun e => follows_collectParamFromExpr e _ _
  | offsetCommaLimit offset limit =>
    exact (follows_collectParamFromExpr limit _ _).bind fun _ => follows_collectParamFromExpr offset _ _

theorem follows_analyzeQuery [Printer] (query : Query) :
    Follows (analyzeQuery catalog self query) (Route.analyzeQuery routes query) := by
  refine Follows.bind (.optional fun withClause => .forM fun cte _ => follows_analyzeCte follow _ cte) fun _ => ?_
  refine (follow.analyzeSetExpr query.body).bind fun result => ?_
  exact (Follows.optional follows_analyzeLimit).map _

theorem follows_returningItem (scope : Scope) (item : SelectItem) :
    Follows (returningItem self scope item) (Route.returningItem routes item) := by
  cases item with
  | unnamedExpr e => exact (follow.inferExprType e scope).map _
  | exprWithAlias e name => exact (follow.inferExprType e scope).map _
  | exprWithAliases e names => exact (follow.inferExprType e scope).map _
  | _ => exact follows_pure _

theorem follows_returningItems (scope : Scope) (items : List SelectItem) :
    Follows (returningItems self scope items) (Route.each (Route.returningItem routes) items) := by
  induction items with
  | nil => exact follows_pure []
  | cons item items ih => exact (follows_returningItem follow scope item).bind fun cols => ih.map _

theorem follows_analyzeOptionalReturning (tableName : String) (returning : Option (List SelectItem)) :
    Follows (analyzeOptionalReturning catalog self tableName returning)
      (Route.analyzeReturning routes returning) := by
  cases returning with
  | none => exact follows_pure _
  | some items =>
    refine (follows_buildScopeForTable tableName).bind_skip fun scope => ?_
    exact (follows_returningItems follow scope items).then_skip fun _ => (follows_ofExcept _).map _

theorem follows_collectInsertValue (effective : List (Option EffectiveColumn)) (targetCols : List String) (i : Nat)
    (e : Expr) :
    Follows (collectInsertValue self effective targetCols i e) (Route.collectInsertValue routes effective i e) := by
  unfold collectInsertValue Route.collectInsertValue
  cases effective[i]?.join with
  | some col => exact follow.collectParamFromExprWithTypeNullable e _ _ _
  | none =>
    exact (follow.inferExprType e .empty).bind fun ti => follow.collectParamFromExprWithTypeNullable e _ _ _

theorem follows_collectInsertRow (effective : List (Option EffectiveColumn)) (targetCols : List String) (i : Nat)
    (row : List Expr) :
    Follows (collectInsertRow self effective targetCols i row) (Route.collectInsertRow routes effective i row) := by
  induction row generalizing i with
  | nil => exact follows_pure ()
  | cons e es ih => exact (follows_collectInsertValue follow effective targetCols i e).bind fun _ => ih (i + 1)

theorem follows_collectInsertParams (tableName : String) (targetCols : List String) (source : SetExpr) :
    Follows (collectInsertParams catalog self tableName targetCols source)
      (Route.collectInsertParams catalog routes tableName targetCols source) := by
  cases source with
  | values rows => exact .forM fun row _ => follows_collectInsertRow follow _ targetCols 0 row
  | select select => exact (follows_analyzeSelect follow select).discard
  | query query => exact (follow.analyzeQuery query).discard
  | _ => exact follows_pure _

theorem follows_collectAssignment (tableName : String) (assign : Assignment) :
    Follows (collectAssignment catalog self tableName assign)
      (Route.collectAssignment catalog routes tableName assign) := by
  unfold collectAssignment Route.collectAssignment
  cases getColumnType catalog tableName (assignmentTargetName assign.target) with
  | none => exact follows_pure _
  | some colType => exact follow.collectParamFromExprWithTypeNullable assign.value _ _ _

theorem follows_collectOnConflict (tableName : String) (on : Option OnInsert) :
    Follows (collectOnConflict catalog self tableName on) (Route.collectOnConflict catalog routes tableName on) := by
  rcases on with _ | (assignments | (_ | doUpdate))
  · exact follows_pure _
  · exact follows_pure _
  · exact follows_pure _
  · refine (follows_buildScopeForTable tableName).bind_skip fun scope => ?_
    refine (Follows.forM fun assign _ => follows_collectAssignment follow tableName assign).bind fun _ => ?_
    exact .optional fun e => follow.collectParamsFromWhere e scope

theorem follows_analyzeInsert (statement : Insert) :
    Follows (analyzeInsert catalog self statement) (Route.analyzeInsert catalog routes statement) := by
  unfold analyzeInsert Route.analyzeInsert
  cases insertTarget statement.table with
  | error failure => exact follows_fail failure _
  | ok tableName =>
    show Follows (statement.source.forM _ >>= _) _
    refine Follows.bind (.optional fun source => follows_collectInsertParams follow _ _ source.body) fun _ => ?_
    exact (follows_collectOnConflict follow tableName statement.on).bind fun _ =>
      follows_analyzeOptionalReturning follow tableName statement.returning

theorem follows_analyzeUpdate (update : Update) :
    Follows (analyzeUpdate catalog self update) (Route.analyzeUpdate catalog routes update) := by
  refine (follows_buildScopeForTable _).bind_skip fun tableScope => ?_
  refine (follows_extendScope follow tableScope update.sources).bind fun scope => ?_
  refine (Follows.forM fun assign _ => follows_collectAssignment follow _ assign).bind fun _ => ?_
  refine (Follows.optional fun e => follow.collectParamsFromWhere e scope).bind fun _ => ?_
  exact follows_analyzeOptionalReturning follow _ update.returning

theorem follows_analyzeDelete (delete : Delete) :
    Follows (analyzeDelete catalog self delete) (Route.analyzeDelete routes delete) := by
  refine (follows_buildScopeForTable _).bind_skip fun tableScope => ?_
  refine (follows_extendScope follow tableScope delete.usingTables).bind fun scope => ?_
  refine (Follows.optional fun e => follow.collectParamsFromWhere e scope).bind fun _ => ?_
  exact follows_analyzeOptionalReturning follow _ delete.returning

theorem follows_analyzeStatementWith (stmt : Statement) :
    Follows (analyzeStatementWith catalog self stmt) (Route.analyzeStatementWith catalog routes stmt) := by
  cases stmt with
  | query query => exact follow.analyzeQuery query
  | insert statement => exact follows_analyzeInsert follow statement
  | update statement => exact follows_analyzeUpdate follow statement
  | delete statement => exact follows_analyzeDelete follow statement
  | other => exact follows_pure _

end Functions

variable [Text.CaseMap] [Printer]

theorem methods_follow (catalog : Catalog) (fuel : Nat) : MethodsFollow (methods catalog fuel) (routes catalog fuel) := by
  induction fuel with
  | zero => constructor <;> (intros; exact follows_diverge _)
  | succ fuel ih => exact {
      inferExprType := follows_inferExprType ih
      collectParamsFromWhere := follows_collectParamsFromWhere ih (follows_inferFunctionType ih)
      collectParamFromExprWithTypeNullable := follows_collectParamFromExprWithTypeNullable ih
      collectParamFromAny := follows_collectParamFromAny ih
      analyzeQuery := follows_analyzeQuery ih
      analyzeSetExpr := follows_analyzeSetExpr ih
      addTableFactorToScope := follows_addTableFactorToScope ih }

-- The log of a whole statement is one of its route's.
theorem statement_follows {catalog : Catalog} {stmt : Statement} {value : List AnalyzedColumn} {w : Walk}
    (ran : (analyzeStatement catalog stmt).walk .new = some (.ok value,w)) : w.log ∈ (stmt.route catalog).logs := by
  obtain ⟨visits,names,member,log,-⟩ :=
    follows_analyzeStatementWith (methods_follow catalog stmt.fuel) stmt .new [] .new value w ran
  rw [log,Walk.new,List.nil_append]
  exact Itinerary.mem_logs member

end Scythe
