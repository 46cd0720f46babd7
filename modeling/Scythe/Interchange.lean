import Mathlib.Data.Multiset.Defs
import Scythe.Analyze
import Scythe.Lib.Contents
import Scythe.Lib.LeastScore

-- Catalogs that hold the same entries under the same keys, and that the
-- analyzer therefore cannot tell apart.
namespace Scythe
open Text Contents

-- The overloads of a function are compared without their order.
structure Interchangeable (a b : Catalog) : Prop where
  tables : Same id a.tables b.tables
  enums : Same id a.enums b.enums
  composites : Same id a.composites b.composites
  functions : Same Multiset.ofList a.functions b.functions
  domains : Same id a.domains b.domains
  dialect : a.dialect = b.dialect
  engine : a.engine = b.engine
  searchPath : a.searchPath = b.searchPath
  rawColumnTypes : Same (fun types column => types.lookup column) a.rawColumnTypes b.rawColumnTypes

namespace Interchangeable

variable {a b c : Catalog}

theorem refl (a : Catalog) : Interchangeable a a :=
  ⟨same_refl _ _,same_refl _ _,same_refl _ _,same_refl _ _,same_refl _ _,rfl,rfl,rfl,same_refl _ _⟩

theorem symm (same : Interchangeable a b) : Interchangeable b a :=
  ⟨same_symm same.tables,same_symm same.enums,same_symm same.composites,same_symm same.functions,
    same_symm same.domains,same.dialect.symm,same.engine.symm,same.searchPath.symm,same_symm same.rawColumnTypes⟩

theorem trans (first : Interchangeable a b) (second : Interchangeable b c) : Interchangeable a c :=
  ⟨same_trans first.tables second.tables,same_trans first.enums second.enums,
    same_trans first.composites second.composites,same_trans first.functions second.functions,
    same_trans first.domains second.domains,first.dialect.trans second.dialect,first.engine.trans second.engine,
    first.searchPath.trans second.searchPath,same_trans first.rawColumnTypes second.rawColumnTypes⟩

end Interchangeable

section
variable [CaseMap] {α γ : Type} {f : α → γ} {x y : AHashMap α}

theorem resolvedKey_same (same : Same f x y) (name : String) (path : Option (List String)) :
    resolvedKey x name path = resolvedKey y name path := by
  unfold resolvedKey suffixKey
  simp only [same_mem same]
  rw [smallest_perm ((same_keys same).filter _)]

theorem lookupQualified_same (same : Same f x y) (name : String) (path : Option (List String)) :
    (lookupQualified x name path).map f = (lookupQualified y name path).map f := by
  rw [lookupQualified_key,lookupQualified_key,resolvedKey_same same]
  cases resolvedKey y name path with
  | none => rfl
  | some key => exact same key

theorem lookupQualified_eq_of_same {x y : AHashMap α} (same : Same id x y) (name : String)
    (path : Option (List String)) : lookupQualified x name path = lookupQualified y name path := by
  simpa using lookupQualified_same same name path

end

-- What the analyzer asks a catalog.
namespace Interchangeable

variable [CaseMap] {a b : Catalog} (same : Interchangeable a b)
include same

theorem getTable (name : String) : a.getTable name = b.getTable name := by
  rw [Catalog.getTable,Catalog.getTable,same.searchPath,lookupQualified_eq_of_same same.tables]

theorem getEnum (name : String) : a.getEnum name = b.getEnum name := by
  rw [Catalog.getEnum,Catalog.getEnum,same.searchPath,lookupQualified_eq_of_same same.enums]

theorem getComposite (name : String) : a.getComposite name = b.getComposite name := by
  rw [Catalog.getComposite,Catalog.getComposite,same.searchPath,lookupQualified_eq_of_same same.composites]

theorem getDomainBaseType (name : String) : a.getDomainBaseType name = b.getDomainBaseType name := by
  rw [Catalog.getDomainBaseType,Catalog.getDomainBaseType,same.searchPath,lookupQualified_eq_of_same same.domains]

theorem getFunctions (name : String) :
    (a.getFunctions name).map Multiset.ofList = (b.getFunctions name).map Multiset.ofList := by
  rw [Catalog.getFunctions,Catalog.getFunctions,same.searchPath,lookupQualified_same same.functions]

theorem getFunctions_isNone (name : String) : (a.getFunctions name).isNone = (b.getFunctions name).isNone := by
  simpa using congrArg Option.isNone (same.getFunctions name)

theorem columnRawSqlType (relation column : String) :
    a.columnRawSqlType relation column = b.columnRawSqlType relation column := by
  have seen := lookupQualified_same same.rawColumnTypes relation b.searchPath
  have asked (types : Option (AHashMap String)) :
      (types.bind fun types => types.lookup (CaseMap.lowercase column)) =
        (types.map fun types column => types.lookup column).bind fun asked => asked (CaseMap.lowercase column) := by
    cases types <;> rfl
  rw [Catalog.columnRawSqlType,Catalog.columnRawSqlType,same.searchPath,asked,asked,seen]

omit [CaseMap] in
theorem typeDepth (text : String) : Scythe.typeDepth a text = Scythe.typeDepth b text := by
  have entries := (same_entries same.domains).map fun entry => entry.2.baseType.length + 1
  rw [List.map_map,List.map_map] at entries
  rw [Scythe.typeDepth,Scythe.typeDepth]
  exact congrArg (text.length + · + 1) entries.sum_nat

theorem sqlTypeToNeutral (text : String) : Scythe.sqlTypeToNeutral text a = Scythe.sqlTypeToNeutral text b := by
  rw [Scythe.sqlTypeToNeutral,Scythe.sqlTypeToNeutral,same.typeDepth]
  exact neutralWithin_reads same.dialect same.getDomainBaseType (fun name => by rw [same.getEnum])
    (fun name => by rw [same.getComposite]) _ _

theorem customToNeutral (name : ObjectName) (tokens : List String) :
    Scythe.customToNeutral name tokens a = Scythe.customToNeutral name tokens b := by
  simp only [Scythe.customToNeutral,same.sqlTypeToNeutral]

theorem datatypeToNeutral (dataType : DataType) :
    Scythe.datatypeToNeutral dataType a = Scythe.datatypeToNeutral dataType b := by
  induction dataType using @Scythe.datatypeToNeutral.induct b with
  | _ => simp_all [Scythe.datatypeToNeutral,same.dialect,same.sqlTypeToNeutral,same.customToNeutral]

end Interchangeable

section
variable [CaseMap]

def CatalogOverload.ofPick : LeastScore.Pick CatalogFunctionMatch → CatalogOverload
  | .none => .none
  | .tied => .ambiguous
  | .alone found => .best found

theorem resolveOverload_pick (catalog : Catalog) (overloads : List CatalogFunction) (callArguments : List CallArgument)
    (inferred : List TypeInfo) :
    resolveOverload catalog overloads callArguments inferred =
      .ofPick (LeastScore.pick (·.score) (overloads.filterMap fun function =>
        matchCatalogFunction catalog function callArguments inferred)) := by
  unfold resolveOverload LeastScore.pick
  dsimp only
  cases (overloads.filterMap _).insertionSort fun a b : CatalogFunctionMatch => a.score ≤ b.score with
  | nil => rfl
  | cons first rest =>
    cases rest with
    | nil => rfl
    | cons second rest =>
      dsimp only
      split <;> rfl

-- In which order the overloads were declared does not matter.
theorem resolveOverload_perm {overloads others : List CatalogFunction} (perm : overloads.Perm others)
    (catalog : Catalog) (callArguments : List CallArgument) (inferred : List TypeInfo) :
    resolveOverload catalog overloads callArguments inferred =
      resolveOverload catalog others callArguments inferred := by
  rw [resolveOverload_pick,resolveOverload_pick,LeastScore.pick_perm (perm.filterMap _)]

end

namespace Interchangeable

variable [CaseMap] {a b : Catalog} (same : Interchangeable a b)
include same

theorem catalogFunctionReturnNeutral (functionName sqlType : String) :
    Scythe.catalogFunctionReturnNeutral functionName sqlType a =
      Scythe.catalogFunctionReturnNeutral functionName sqlType b := by
  simp only [Scythe.catalogFunctionReturnNeutral,same.sqlTypeToNeutral]

theorem matchCatalogFunction : Scythe.matchCatalogFunction a = Scythe.matchCatalogFunction b := by
  have score : bindingScore a = bindingScore b := by
    funext actual declaration
    simp only [bindingScore,same.sqlTypeToNeutral]
  funext function callArguments inferred
  simp only [Scythe.matchCatalogFunction,score]

theorem resolveOverload {overloads others : List CatalogFunction} (perm : overloads.Perm others)
    (callArguments : List CallArgument) (inferred : List TypeInfo) :
    Scythe.resolveOverload a overloads callArguments inferred =
      Scythe.resolveOverload b others callArguments inferred := by
  rw [resolveOverload_perm perm]
  simp only [Scythe.resolveOverload,same.matchCatalogFunction]

theorem registerCatalogFunctionParams :
    Scythe.registerCatalogFunctionParams a = Scythe.registerCatalogFunctionParams b := by
  funext found callArguments
  simp only [Scythe.registerCatalogFunctionParams,same.sqlTypeToNeutral]

-- The overloads under a name, in the one catalog and in the other.
theorem overloads (name : String) :
    (a.getFunctions name = none ∧ b.getFunctions name = none) ∨
      ∃ left right,a.getFunctions name = some left ∧ b.getFunctions name = some right ∧ left.Perm right := by
  have seen := same.getFunctions name
  cases left : a.getFunctions name with
  | none =>
    rw [left] at seen
    exact .inl ⟨rfl,Option.map_eq_none_iff.mp seen.symm⟩
  | some overloads =>
    rw [left] at seen
    obtain ⟨others,right,equal⟩ := Option.map_eq_some_iff.mp seen.symm
    exact .inr ⟨overloads,others,rfl,right,(Multiset.coe_eq_coe.mp equal).symm⟩

variable (self : Methods)

theorem inferCatalogFunctionType :
    Scythe.inferCatalogFunctionType a self = Scythe.inferCatalogFunctionType b self := by
  funext func scope
  unfold Scythe.inferCatalogFunctionType
  cases same.overloads func.callName with
  | inl absent => rw [absent.1,absent.2]
  | inr found =>
    obtain ⟨left,right,inLeft,inRight,perm⟩ := found
    rw [inLeft,inRight]
    cases catalogCallArguments func with
    | none => rfl
    | some callArguments =>
      simp only [same.resolveOverload perm,same.registerCatalogFunctionParams,same.catalogFunctionReturnNeutral]

theorem overloadColumns (functionName : String) (returnType : FunctionReturn) :
    Scythe.overloadColumns a functionName returnType = Scythe.overloadColumns b functionName returnType := by
  simp only [Scythe.overloadColumns,same.getComposite,same.sqlTypeToNeutral,same.catalogFunctionReturnNeutral]

theorem catalogFunctionColumns :
    Scythe.catalogFunctionColumns a self = Scythe.catalogFunctionColumns b self := by
  funext functionName args scope tableAlias
  unfold Scythe.catalogFunctionColumns
  cases same.overloads functionName with
  | inl absent => rw [absent.1,absent.2]
  | inr found =>
    obtain ⟨left,right,inLeft,inRight,perm⟩ := found
    rw [inLeft,inRight]
    simp only [same.resolveOverload perm,same.registerCatalogFunctionParams,same.overloadColumns]

-- Scopes.

theorem catalogScopeColumns : Scythe.catalogScopeColumns a = Scythe.catalogScopeColumns b := by
  funext tableName table
  simp only [Scythe.catalogScopeColumns,same.columnRawSqlType,same.sqlTypeToNeutral]

theorem getColumnType : Scythe.getColumnType a = Scythe.getColumnType b := by
  funext tableName colName
  simp only [Scythe.getColumnType,same.getTable,same.sqlTypeToNeutral]

theorem tableColumns : Scythe.tableColumns a self = Scythe.tableColumns b self := by
  funext tableName tableAlias args scope
  unfold Scythe.tableColumns
  cases same.overloads tableName with
  | inl absent =>
    rw [absent.1,absent.2]
    simp only [same.getTable,same.catalogScopeColumns]
  | inr found =>
    obtain ⟨left,right,inLeft,inRight,-⟩ := found
    rw [inLeft,inRight]
    cases args <;> simp only [same.getTable,same.catalogScopeColumns,same.catalogFunctionColumns]

theorem tableFunctionColumns : Scythe.tableFunctionColumns a self = Scythe.tableFunctionColumns b self := by
  funext funcName args scope tableAlias
  simp only [Scythe.tableFunctionColumns,functionColumns,same.catalogFunctionColumns,same.getFunctions_isNone]

theorem addTableFactorToScope : Scythe.addTableFactorToScope a self = Scythe.addTableFactorToScope b self := by
  funext factor scope nullableFromJoin
  cases factor <;> simp only [Scythe.addTableFactorToScope,same.tableColumns,same.tableFunctionColumns]

theorem buildScopeForTable : Scythe.buildScopeForTable a = Scythe.buildScopeForTable b := by
  funext tableName
  simp only [Scythe.buildScopeForTable,same.getTable,same.catalogScopeColumns]

-- Parameters.

theorem collectParamFromExpr : Scythe.collectParamFromExpr a = Scythe.collectParamFromExpr b := by
  funext e name typeStr
  cases e <;> simp only [Scythe.collectParamFromExpr,same.datatypeToNeutral]

theorem collectParamFromExprWithTypeNullable :
    Scythe.collectParamFromExprWithTypeNullable a self = Scythe.collectParamFromExprWithTypeNullable b self := by
  funext e typeStr name nullable
  cases e <;> simp only [Scythe.collectParamFromExprWithTypeNullable,same.datatypeToNeutral]

theorem collectParamFromAny : Scythe.collectParamFromAny a self = Scythe.collectParamFromAny b self := by
  funext e leftTi leftName
  cases e <;> simp only [Scythe.collectParamFromAny,same.datatypeToNeutral]

theorem collectParamsFromComparison :
    Scythe.collectParamsFromComparison a self = Scythe.collectParamsFromComparison b self := by
  funext left right op symbol scope
  simp only [Scythe.collectParamsFromComparison,tryBindParamFromComparison,same.datatypeToNeutral]

theorem collectParamsFromWhere (inferFunctionType : Function → Scope → Analysis TypeInfo) :
    Scythe.collectParamsFromWhere a self inferFunctionType = Scythe.collectParamsFromWhere b self inferFunctionType := by
  funext e scope
  cases e <;> simp only [Scythe.collectParamsFromWhere,same.collectParamsFromComparison,same.datatypeToNeutral]

-- Expressions.

theorem inferNestedAggregateType :
    Scythe.inferNestedAggregateType a self = Scythe.inferNestedAggregateType b self := by
  have has : catalogHasNestedAggregates a = catalogHasNestedAggregates b := by
    rw [catalogHasNestedAggregates,catalogHasNestedAggregates,same.dialect,same.engine]
  funext func scope wrap
  simp only [Scythe.inferNestedAggregateType,has]

theorem inferArm : Scythe.inferArm a self = Scythe.inferArm b self := by
  funext func scope firstArgTi arm
  cases arm <;>
    simp only [Scythe.inferArm,inferCoalesce,inferGreatestLeast,same.inferNestedAggregateType,same.dialect]

theorem inferFunctionType : Scythe.inferFunctionType a self = Scythe.inferFunctionType b self := by
  funext func scope
  simp only [Scythe.inferFunctionType,same.inferArm,same.inferCatalogFunctionType]

omit [CaseMap] in
theorem inferValue : Scythe.inferValue a = Scythe.inferValue b := by
  funext e vws
  simp only [Scythe.inferValue,same.dialect]

theorem inferFieldAccess : Scythe.inferFieldAccess a = Scythe.inferFieldAccess b := by
  funext rootTi accessChain
  simp only [Scythe.inferFieldAccess,accessedField,same.getComposite,same.sqlTypeToNeutral]

theorem inferExprType : Scythe.inferExprType a self = Scythe.inferExprType b self := by
  funext e scope
  unfold Scythe.inferExprType
  simp only [same.inferValue,same.datatypeToNeutral,same.inferFunctionType,same.dialect,same.inferFieldAccess]

-- Statements.

variable [Printer]

theorem analyzeQuery : Scythe.analyzeQuery a self = Scythe.analyzeQuery b self := by
  have limit : analyzeLimit a = analyzeLimit b := by
    funext limitClause
    simp only [analyzeLimit,same.collectParamFromExpr]
  funext query
  simp only [Scythe.analyzeQuery,limit]

omit [Printer] in
theorem analyzeOptionalReturning :
    Scythe.analyzeOptionalReturning a self = Scythe.analyzeOptionalReturning b self := by
  funext tableName returning
  simp only [Scythe.analyzeOptionalReturning,analyzeReturning,same.buildScopeForTable]

omit [Printer] in
theorem effectiveColumns : Scythe.effectiveColumns a = Scythe.effectiveColumns b := by
  funext tableName targetCols
  cases targetCols <;>
    simp only [Scythe.effectiveColumns,isColumnNullable,same.getTable,same.getColumnType]

omit [Printer] in
theorem collectAssignment : Scythe.collectAssignment a self = Scythe.collectAssignment b self := by
  funext tableName assign
  simp only [Scythe.collectAssignment,same.getColumnType]

omit [Printer] in
theorem analyzeInsert : Scythe.analyzeInsert a self = Scythe.analyzeInsert b self := by
  funext insert
  simp only [Scythe.analyzeInsert,collectInsertParams,collectOnConflict,same.effectiveColumns,
    same.buildScopeForTable,same.collectAssignment,same.analyzeOptionalReturning]

omit [Printer] in
theorem analyzeStatementWith : Scythe.analyzeStatementWith a self = Scythe.analyzeStatementWith b self := by
  funext stmt
  cases stmt <;>
    simp only [Scythe.analyzeStatementWith,analyzeUpdate,analyzeDelete,same.analyzeInsert,same.buildScopeForTable,
      same.collectAssignment,same.analyzeOptionalReturning]

omit self in
theorem methods (fuel : Nat) : Scythe.methods a fuel = Scythe.methods b fuel := by
  induction fuel with
  | zero => rfl
  | succ fuel ih =>
    simp only [Scythe.methods,ih,same.inferExprType,same.inferFunctionType,same.collectParamsFromWhere,
      same.collectParamFromExprWithTypeNullable,same.collectParamFromAny,same.analyzeQuery,
      same.addTableFactorToScope]

-- What is made of the columns.

omit self [Printer] in
theorem collectComposites : Scythe.collectComposites a = Scythe.collectComposites b := by
  have field : compositeFieldInfo a = compositeFieldInfo b := by
    funext field
    simp only [compositeFieldInfo,same.sqlTypeToNeutral]
  have info : compositeInfo a = compositeInfo b := by
    funext name
    simp only [compositeInfo,field,same.getComposite]
  have named : fieldComposites a = fieldComposites b := by
    funext name
    simp only [fieldComposites,info]
  have fuel (roots : List String) : compositeFuel a roots = compositeFuel b roots := by
    have entries := (same_entries same.composites).map fun entry => entry.2.fields.length
    rw [List.map_map,List.map_map] at entries
    exact congrArg (roots.length + ·) entries.sum_nat
  funext types
  simp only [Scythe.collectComposites,info,named,fuel]

omit self [Printer] in
theorem collectEnums : Scythe.collectEnums a = Scythe.collectEnums b := by
  have info : enumInfo a = enumInfo b := by
    funext name
    simp only [enumInfo,same.getEnum]
  funext types
  simp only [Scythe.collectEnums,info]

omit self [Printer] in
theorem assignNestedStructName (base : String) (fields : List NestedFieldInfo) (tries suffix : Nat)
    (structs : List NestedStructInfo) :
    Scythe.assignNestedStructName a base fields tries suffix structs =
      Scythe.assignNestedStructName b base fields tries suffix structs := by
  induction tries generalizing suffix structs with
  | zero => rfl
  | succ tries ih => simp only [Scythe.assignNestedStructName,same.getComposite,same.getEnum,ih]

omit self [Printer] in
theorem nestedName : Scythe.nestedName a = Scythe.nestedName b := by
  funext pending base id names
  have tries : nestedTries a names.structs = nestedTries b names.structs := by
    rw [nestedTries,nestedTries,(same_keys same.composites).length_eq,(same_keys same.enums).length_eq]
  simp only [Scythe.nestedName,same.assignNestedStructName,tries]

omit self [Printer] in
theorem resolveNestedType (pending : List PendingNestedStruct) (base : String) (fuel : Nat) (neutralType : String)
    (names : NestedNames) :
    Scythe.resolveNestedType a pending base fuel neutralType names =
      Scythe.resolveNestedType b pending base fuel neutralType names := by
  induction fuel generalizing neutralType names with
  | zero => rfl
  | succ fuel ih => simp only [Scythe.resolveNestedType,same.nestedName,ih]

omit self [Printer] in
theorem resolveNestedColumns (snakeQuery : String) (pending : List PendingNestedStruct)
    (columns : List AnalyzedColumn) (names : NestedNames) :
    Scythe.resolveNestedColumns a snakeQuery pending columns names =
      Scythe.resolveNestedColumns b snakeQuery pending columns names := by
  induction columns generalizing names with
  | nil => rfl
  | cons col cols ih => simp only [Scythe.resolveNestedColumns,same.resolveNestedType,ih]

omit self [Printer] in
theorem finish : Scythe.finish a = Scythe.finish b := by
  funext query columns analyzer
  simp only [Scythe.finish,resolveNestedStructNames,resolveGroupBy,same.resolveNestedColumns,same.dialect,
    same.collectComposites,same.collectEnums,same.getTable]

-- The analysis of a query is one and the same.
omit self in
theorem analyze (query : ParsedQuery) : Scythe.analyze a query = Scythe.analyze b query := by
  simp only [Scythe.analyze,analyzeStatement,same.methods,same.analyzeStatementWith,same.finish]

end Interchangeable
end Scythe
