import Scythe.Catalog
import Scythe.Lib.Register

namespace Scythe
open Text Register

-- A database object name with its original identifier spelling preserved.
structure CatalogObjectName where
  schema : Option String
  name : String
  deriving DecidableEq,Repr

inductive RelationKind where
  | table
  | view
  deriving DecidableEq,Repr

inductive GeneratedColumnKind where
  | virtual
  | stored
  deriving DecidableEq,Repr

structure ColumnDefinition where
  name : String
  rawSqlType : String
  nullable : Bool
  default : Option String
  primaryKey : Bool
  resolvedSqlType : Option String
  generated : Option GeneratedColumnKind
  deriving DecidableEq,Repr

structure RelationDefinition where
  name : CatalogObjectName
  kind : RelationKind
  columns : List ColumnDefinition
  deriving DecidableEq,Repr

structure EnumDefinition where
  name : CatalogObjectName
  values : List String
  deriving DecidableEq,Repr

structure CompositeFieldDefinition where
  name : String
  rawSqlType : String
  nullable : Bool
  deriving DecidableEq,Repr

structure CompositeDefinition where
  name : CatalogObjectName
  fields : List CompositeFieldDefinition
  deriving DecidableEq,Repr

structure DomainDefinition where
  name : CatalogObjectName
  rawBaseType : String
  notNull : Bool
  deriving DecidableEq,Repr

structure FunctionArgumentDefinition where
  name : Option String
  rawSqlType : String
  mode : FunctionArgumentMode
  hasDefault : Bool
  deriving DecidableEq,Repr

structure FunctionResultColumnDefinition where
  name : String
  rawSqlType : String
  nullable : Bool
  deriving DecidableEq,Repr

inductive FunctionReturnDefinition where
  | scalar (sqlType : String)
  | setOf (sqlType : String)
  | table (columns : List FunctionResultColumnDefinition)
  deriving DecidableEq,Repr

structure FunctionDefinition where
  name : CatalogObjectName
  arguments : List FunctionArgumentDefinition
  returnType : FunctionReturnDefinition
  deriving DecidableEq,Repr

-- What only an inspected database tells of a schema; a catalog read from DDL
-- has none of it.
structure InspectedCatalog extends Catalog where
  relationNames : AHashMap CatalogObjectName
  relationKinds : AHashMap RelationKind
  generatedColumnKinds : AHashMap (AHashMap GeneratedColumnKind)
  enumNames : AHashMap CatalogObjectName
  compositeNames : AHashMap CatalogObjectName
  domainNames : AHashMap CatalogObjectName
  rawDomainTypes : AHashMap String

def Catalog.uninspected (catalog : Catalog) : InspectedCatalog where
  toCatalog := catalog
  relationNames := ∅
  relationKinds := ∅
  generatedColumnKinds := ∅
  enumNames := ∅
  compositeNames := ∅
  domainNames := ∅
  rawDomainTypes := ∅

structure CatalogBuilder where
  dialect : SqlDialect
  engine : Option String
  searchPath : Option (List String)
  relations : List RelationDefinition
  enums : List EnumDefinition
  composites : List CompositeDefinition
  domains : List DomainDefinition
  functions : List FunctionDefinition
  deriving DecidableEq,Repr

def duplicateError (objectKind key : String) : ScytheError :=
  .invalidConfig s!"invalid catalog: duplicate {objectKind} `{key}`"

def inputSignature (function : CatalogFunction) : List String :=
  (function.arguments.filter fun argument => argument.mode ≠ .out).map (·.sqlType)

section
variable [CaseMap]

def normalizedIdentifier (value description : String) : Except ScytheError String :=
  let trimmed := trim value
  if trimmed = "" then .error (.invalidConfig s!"invalid catalog: {description} must not be empty") else
  .ok (CaseMap.lowercase trimmed)

def normalizedSqlType (value description : String) : Except ScytheError String :=
  normalizedIdentifier value description

def CatalogObjectName.normalizedKey (name : CatalogObjectName) (objectKind : String) : Except ScytheError String := do
  let bare ← normalizedIdentifier name.name objectKind
  match name.schema with
  | some schema => return (← normalizedIdentifier schema "schema") ++ "." ++ bare
  | none => return bare

-- What the columns already read have left behind.
structure RelationColumns where
  columnNames : List String
  columns : List Column
  rawTypes : AHashMap String
  generatedKinds : AHashMap GeneratedColumnKind

def addColumn (key : String) (found : RelationColumns) (column : ColumnDefinition) :
    Except ScytheError RelationColumns := do
  let columnKey ← normalizedIdentifier column.name "column"
  if columnKey ∈ found.columnNames then .error (duplicateError "column" s!"{key}.{columnKey}") else
  let sqlType ← normalizedSqlType (column.resolvedSqlType.getD column.rawSqlType) "column type"
  return {
    columnNames := columnKey :: found.columnNames
    columns := found.columns ++ [⟨column.name,sqlType,column.nullable,column.default,column.primaryKey⟩]
    rawTypes := found.rawTypes.insert columnKey column.rawSqlType
    generatedKinds := match column.generated with
      | some kind => found.generatedKinds.insert columnKey kind
      | none => found.generatedKinds }

def addRelation (catalog : InspectedCatalog) (definition : RelationDefinition) :
    Except ScytheError InspectedCatalog := do
  let key ← definition.name.normalizedKey "relation"
  if key ∈ catalog.tables then .error (duplicateError "relation" key) else
  let found ← definition.columns.foldlM (addColumn key) ⟨[],[],∅,∅⟩
  return { catalog with
    tables := catalog.tables.insert key ⟨found.columns,definition.name.name⟩
    relationNames := catalog.relationNames.insert key definition.name
    relationKinds := catalog.relationKinds.insert key definition.kind
    rawColumnTypes := catalog.rawColumnTypes.insert key found.rawTypes
    generatedColumnKinds :=
      if found.generatedKinds.keys = [] then catalog.generatedColumnKinds
      else catalog.generatedColumnKinds.insert key found.generatedKinds }

def addEnum (catalog : InspectedCatalog) (definition : EnumDefinition) : Except ScytheError InspectedCatalog := do
  let key ← definition.name.normalizedKey "enum"
  if key ∈ catalog.enums then .error (duplicateError "enum" key) else
  return { catalog with
    enums := catalog.enums.insert key ⟨definition.values⟩
    enumNames := catalog.enumNames.insert key definition.name }

def addField (key : String) (found : List String × List CompositeField) (field : CompositeFieldDefinition) :
    Except ScytheError (List String × List CompositeField) := do
  let fieldKey ← normalizedIdentifier field.name "composite field"
  if fieldKey ∈ found.1 then .error (duplicateError "composite field" s!"{key}.{fieldKey}") else
  let sqlType ← normalizedSqlType field.rawSqlType "composite field type"
  return (fieldKey :: found.1,found.2 ++ [⟨field.name,sqlType,field.nullable⟩])

def addComposite (catalog : InspectedCatalog) (definition : CompositeDefinition) :
    Except ScytheError InspectedCatalog := do
  let key ← definition.name.normalizedKey "composite"
  if key ∈ catalog.composites ∨ key ∈ catalog.enums then .error (duplicateError "type" key) else
  let found ← definition.fields.foldlM (addField key) ([],[])
  return { catalog with
    composites := catalog.composites.insert key ⟨found.2⟩
    compositeNames := catalog.compositeNames.insert key definition.name }

def addDomain (catalog : InspectedCatalog) (definition : DomainDefinition) :
    Except ScytheError InspectedCatalog := do
  let key ← definition.name.normalizedKey "domain"
  if key ∈ catalog.domains ∨ key ∈ catalog.enums ∨ key ∈ catalog.composites then
    .error (duplicateError "type" key) else
  let baseType ← normalizedSqlType definition.rawBaseType "domain base type"
  return { catalog with
    domains := catalog.domains.insert key ⟨baseType,definition.notNull⟩
    domainNames := catalog.domainNames.insert key definition.name
    rawDomainTypes := catalog.rawDomainTypes.insert key definition.rawBaseType }

def functionArgument (argument : FunctionArgumentDefinition) : Except ScytheError FunctionArgument := do
  let sqlType ← normalizedSqlType argument.rawSqlType "function argument type"
  return ⟨argument.name,sqlType,argument.mode,argument.hasDefault⟩

def functionResultColumn (column : FunctionResultColumnDefinition) : Except ScytheError FunctionResultColumn := do
  let sqlType ← normalizedSqlType column.rawSqlType "function result type"
  return ⟨column.name,sqlType,column.nullable⟩

def functionReturn : FunctionReturnDefinition → Except ScytheError FunctionReturn
  | .scalar sqlType => return .scalar (← normalizedSqlType sqlType "function return type")
  | .setOf sqlType => return .setOf (← normalizedSqlType sqlType "function return type")
  | .table columns => return .table (← columns.mapM functionResultColumn)

def addFunction (catalog : InspectedCatalog) (definition : FunctionDefinition) :
    Except ScytheError InspectedCatalog := do
  let key ← definition.name.normalizedKey "function"
  let arguments ← definition.arguments.mapM functionArgument
  let returnType ← functionReturn definition.returnType
  let function : CatalogFunction := ⟨arguments,returnType⟩
  let overloads := (catalog.functions.lookup key).getD []
  if overloads.any fun existing => inputSignature existing = inputSignature function then
    .error (duplicateError "function signature" key) else
  return { catalog with functions := catalog.functions.insert key (overloads ++ [function]) }

def CatalogBuilder.build (builder : CatalogBuilder) : Except ScytheError InspectedCatalog := do
  let engine ← builder.engine.mapM (normalizedIdentifier · "engine")
  let searchPath ← builder.searchPath.mapM fun schemas =>
    schemas.mapM (normalizedIdentifier · "search path schema")
  let empty : InspectedCatalog := { Catalog.new builder.dialect with engine, searchPath }.uninspected
  let catalog ← builder.relations.foldlM addRelation empty
  let catalog ← builder.enums.foldlM addEnum catalog
  let catalog ← builder.composites.foldlM addComposite catalog
  let catalog ← builder.domains.foldlM addDomain catalog
  builder.functions.foldlM addFunction catalog

-- The text under which the builder keeps an identifier or a type.
def reported (text : String) : String := CaseMap.lowercase (trim text)

def CatalogObjectName.key (name : CatalogObjectName) : String :=
  match name.schema with
  | some schema => reported schema ++ "." ++ reported name.name
  | none => reported name.name

theorem normalizedIdentifier_ok {value description key : String}
    (done : normalizedIdentifier value description = .ok key) : key = reported value := by
  unfold normalizedIdentifier at done
  dsimp only at done
  split at done
  next => cases done
  next =>
    cases done
    rfl

theorem normalizedKey_ok {name : CatalogObjectName} {objectKind key : String}
    (done : name.normalizedKey objectKind = .ok key) : key = name.key := by
  obtain ⟨schema,bare⟩ := name
  obtain ⟨normalized,first,rest⟩ := bind_ok done
  have bareKey := normalizedIdentifier_ok first
  subst bareKey
  cases schema with
  | none =>
    cases rest
    rfl
  | some schema =>
    obtain ⟨qualifier,second,last⟩ := bind_ok rest
    have schemaKey := normalizedIdentifier_ok second
    subst schemaKey
    cases last
    rfl

def builtColumn (column : ColumnDefinition) : Column :=
  ⟨column.name,reported (column.resolvedSqlType.getD column.rawSqlType),column.nullable,column.default,
    column.primaryKey⟩

theorem addColumn_ok {key : String} {found next : RelationColumns} {column : ColumnDefinition}
    (done : addColumn key found column = .ok next) :
    reported column.name ∉ found.columnNames ∧
    next = {
      columnNames := reported column.name :: found.columnNames
      columns := found.columns ++ [builtColumn column]
      rawTypes := found.rawTypes.insert (reported column.name) column.rawSqlType
      generatedKinds := match column.generated with
        | some kind => found.generatedKinds.insert (reported column.name) kind
        | none => found.generatedKinds } := by
  obtain ⟨columnKey,first,rest⟩ := bind_ok done
  have equal := normalizedIdentifier_ok first
  subst equal
  split at rest
  next => cases rest
  next fresh =>
    obtain ⟨sqlType,second,last⟩ := bind_ok rest
    have type := normalizedIdentifier_ok second
    subst type
    cases last
    exact ⟨fresh,rfl⟩

theorem addRelation_ok {catalog next : InspectedCatalog} {definition : RelationDefinition}
    (done : addRelation catalog definition = .ok next) :
    definition.name.key ∉ catalog.tables ∧ ∃ found,
      definition.columns.foldlM (addColumn definition.name.key) ⟨[],[],∅,∅⟩ = .ok found ∧
      next = { catalog with
        tables := catalog.tables.insert definition.name.key ⟨found.columns,definition.name.name⟩
        relationNames := catalog.relationNames.insert definition.name.key definition.name
        relationKinds := catalog.relationKinds.insert definition.name.key definition.kind
        rawColumnTypes := catalog.rawColumnTypes.insert definition.name.key found.rawTypes
        generatedColumnKinds :=
          if found.generatedKinds.keys = [] then catalog.generatedColumnKinds
          else catalog.generatedColumnKinds.insert definition.name.key found.generatedKinds } := by
  obtain ⟨key,first,rest⟩ := bind_ok done
  have equal := normalizedKey_ok first
  subst equal
  split at rest
  next => cases rest
  next fresh =>
    obtain ⟨found,columns,last⟩ := bind_ok rest
    cases last
    exact ⟨fresh,found,columns,rfl⟩

theorem addEnum_ok {catalog next : InspectedCatalog} {definition : EnumDefinition}
    (done : addEnum catalog definition = .ok next) :
    next = { catalog with
      enums := catalog.enums.insert definition.name.key ⟨definition.values⟩
      enumNames := catalog.enumNames.insert definition.name.key definition.name } := by
  obtain ⟨key,first,rest⟩ := bind_ok done
  have equal := normalizedKey_ok first
  subst equal
  split at rest
  next => cases rest
  next =>
    cases rest
    rfl

def builtField (field : CompositeFieldDefinition) : CompositeField :=
  ⟨field.name,reported field.rawSqlType,field.nullable⟩

theorem addFields_ok {key : String} {definitions : List CompositeFieldDefinition}
    {found next : List String × List CompositeField} (done : definitions.foldlM (addField key) found = .ok next) :
    next.2 = found.2 ++ definitions.map builtField := by
  induction definitions generalizing found with
  | nil =>
    cases done
    simp
  | cons field definitions ih =>
    rw [List.foldlM_cons] at done
    obtain ⟨middle,first,rest⟩ := bind_ok done
    obtain ⟨fieldKey,-,checked⟩ := bind_ok first
    split at checked
    next => cases checked
    next =>
      obtain ⟨sqlType,typed,last⟩ := bind_ok checked
      have type := normalizedIdentifier_ok typed
      subst type
      cases last
      rw [ih rest]
      simp [builtField]

theorem addComposite_ok {catalog next : InspectedCatalog} {definition : CompositeDefinition}
    (done : addComposite catalog definition = .ok next) :
    next = { catalog with
      composites := catalog.composites.insert definition.name.key ⟨definition.fields.map builtField⟩
      compositeNames := catalog.compositeNames.insert definition.name.key definition.name } := by
  obtain ⟨key,first,rest⟩ := bind_ok done
  have equal := normalizedKey_ok first
  subst equal
  split at rest
  next => cases rest
  next =>
    obtain ⟨found,fields,last⟩ := bind_ok rest
    have all := addFields_ok fields
    cases last
    rw [all]
    rfl

theorem addDomain_ok {catalog next : InspectedCatalog} {definition : DomainDefinition}
    (done : addDomain catalog definition = .ok next) :
    next = { catalog with
      domains := catalog.domains.insert definition.name.key ⟨reported definition.rawBaseType,definition.notNull⟩
      domainNames := catalog.domainNames.insert definition.name.key definition.name
      rawDomainTypes := catalog.rawDomainTypes.insert definition.name.key definition.rawBaseType } := by
  obtain ⟨key,first,rest⟩ := bind_ok done
  have equal := normalizedKey_ok first
  subst equal
  split at rest
  next => cases rest
  next =>
    obtain ⟨baseType,typed,last⟩ := bind_ok rest
    have type := normalizedIdentifier_ok typed
    subst type
    cases last
    rfl

def builtArgument (argument : FunctionArgumentDefinition) : FunctionArgument :=
  ⟨argument.name,reported argument.rawSqlType,argument.mode,argument.hasDefault⟩

def builtReturn : FunctionReturnDefinition → FunctionReturn
  | .scalar sqlType => .scalar (reported sqlType)
  | .setOf sqlType => .setOf (reported sqlType)
  | .table columns => .table (columns.map fun column => ⟨column.name,reported column.rawSqlType,column.nullable⟩)

theorem functionArguments_ok {arguments : List FunctionArgumentDefinition} {built : List FunctionArgument}
    (done : arguments.mapM functionArgument = .ok built) : built = arguments.map builtArgument := by
  apply mapM_ok _ done
  intro argument result one
  obtain ⟨sqlType,typed,last⟩ := bind_ok one
  have type := normalizedIdentifier_ok typed
  subst type
  cases last
  rfl

theorem functionReturn_ok {definition : FunctionReturnDefinition} {built : FunctionReturn}
    (done : functionReturn definition = .ok built) : built = builtReturn definition := by
  cases definition with
  | scalar text =>
    obtain ⟨sqlType,typed,last⟩ := bind_ok done
    have type := normalizedIdentifier_ok typed
    subst type
    cases last
    rfl
  | setOf text =>
    obtain ⟨sqlType,typed,last⟩ := bind_ok done
    have type := normalizedIdentifier_ok typed
    subst type
    cases last
    rfl
  | table columns =>
    obtain ⟨results,all,last⟩ := bind_ok done
    cases last
    rw [builtReturn]
    congr 1
    apply mapM_ok _ all
    intro column result one
    obtain ⟨sqlType,typed,last⟩ := bind_ok one
    have type := normalizedIdentifier_ok typed
    subst type
    cases last
    rfl

def builtFunction (definition : FunctionDefinition) : CatalogFunction :=
  ⟨definition.arguments.map builtArgument,builtReturn definition.returnType⟩

theorem addFunction_ok {catalog next : InspectedCatalog} {definition : FunctionDefinition}
    (done : addFunction catalog definition = .ok next) :
    (∀ existing ∈ (catalog.functions.lookup definition.name.key).getD [],
      inputSignature existing ≠ inputSignature (builtFunction definition)) ∧
    next = { catalog with
      functions := catalog.functions.insert definition.name.key
        ((catalog.functions.lookup definition.name.key).getD [] ++ [builtFunction definition]) } := by
  obtain ⟨key,first,rest⟩ := bind_ok done
  have equal := normalizedKey_ok first
  subst equal
  obtain ⟨arguments,argued,rest⟩ := bind_ok rest
  have allArguments := functionArguments_ok argued
  subst allArguments
  obtain ⟨returnType,returned,rest⟩ := bind_ok rest
  have result := functionReturn_ok returned
  subst result
  dsimp only at rest
  split at rest
  next => cases rest
  next fresh =>
    cases rest
    refine ⟨?_,rfl⟩
    intro existing member same
    apply fresh
    rw [List.any_eq_true]
    exact ⟨existing,member,decide_eq_true same⟩

end
end Scythe
