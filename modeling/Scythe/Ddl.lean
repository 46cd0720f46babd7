import Scythe.Builder
import Scythe.TypeNormalizer

namespace Scythe
open Text

inductive ColumnOption where
  | null
  | notNull
  | default (expr : Expr)
  | primaryKey
  | unique
  | generated (generationExpr : Option Expr)
  | dialectSpecific (tokens : List String)
  | other

structure ColumnDef where
  name : Ident
  dataType : DataType
  options : List ColumnOption

inductive TableConstraint where
  | primaryKey (columns : List Expr)
  | other

-- A table whose columns are listed. CREATE TABLE ... AS takes its columns from
-- the analyzer instead.
structure CreateTable where
  name : ObjectName
  columns : List ColumnDef
  constraints : List TableConstraint
  ifNotExists : Bool
  withoutRowid : Bool
  strict : Bool

inductive UserDefinedTypeRepresentation where
  | enum (labels : List Ident)
  | composite (attributes : List (Ident × DataType))
  | other

structure OperateFunctionArg where
  mode : Option FunctionArgumentMode
  name : Option Ident
  dataType : DataType
  defaultExpr : Option Expr

inductive FunctionReturnType where
  | dataType (dataType : DataType)
  | setOf (dataType : DataType)

structure CreateFunction where
  name : ObjectName
  args : List OperateFunctionArg
  returnType : Option FunctionReturnType
  orReplace : Bool
  orAlter : Bool
  ifNotExists : Bool

-- CREATE DOMAIN is taken out of the text and read by hand before the parser
-- sees the rest: a name, the text of the base type, and NOT NULL.
structure CreateDomain where
  name : String
  baseType : String
  notNull : Bool
  deriving DecidableEq,Repr

inductive SchemaStatement where
  | createTable (table : CreateTable)
  | createType (name : ObjectName) (representation : UserDefinedTypeRepresentation)
  | createFunction (definition : CreateFunction)

-- One text of the schema. All of its domains are registered before any other
-- statement of it is processed.
structure SchemaText where
  domains : List CreateDomain
  statements : List SchemaStatement

-- How the parser reads the text of a type that stands where a column's type does.
class TypeParser where
  dataType : SqlDialect → String → Option DataType

def ColumnOption.isPrimaryKey : ColumnOption → Bool
  | .primaryKey => true
  | _ => false

def DataType.isInteger : DataType → Bool
  | .integer => true
  | _ => false

-- Only SQLite lets a primary key hold NULL, and there only where the key is no
-- alias of the row id and the table has a row id and is not strict.
def sqlitePrimaryKeyForcesNotNull (dialect : SqlDialect) (withoutRowid strict isIntegerRowidAlias : Bool) : Bool :=
  dialect ≠ .sqLite || withoutRowid || strict || isIntegerRowidAlias

structure ColumnTraits where
  nullable : Bool
  default : Option String
  primaryKey : Bool
  isAutoIncrement : Bool
  deriving DecidableEq,Repr

section
variable [CaseMap] [Printer]

def pkColumnName : Expr → String
  | .identifier ident => identToLower ident
  | expr => CaseMap.lowercase (Printer.expr expr)

def isAutoIncrement (tokens : List String) : Bool :=
  let joined := join "" (tokens.map CaseMap.uppercase)
  contains joined "AUTO_INCREMENT" || contains joined "AUTOINCREMENT"

def applyOption (forcesNotNull : Bool) (traits : ColumnTraits) : ColumnOption → ColumnTraits
  | .null => { traits with nullable := true }
  | .notNull => { traits with nullable := false }
  | .default expr => { traits with default := some (Printer.expr expr) }
  | .primaryKey =>
    { traits with primaryKey := true, nullable := if forcesNotNull then false else traits.nullable }
  | .unique => traits
  | .generated (some expr) => { traits with default := some s!"GENERATED ALWAYS AS ({Printer.expr expr})" }
  | .generated none => traits
  | .dialectSpecific tokens =>
    if isAutoIncrement tokens then { traits with isAutoIncrement := true, nullable := false } else traits
  | .other => traits

def columnTraits (forcesNotNull isSerial : Bool) (options : List ColumnOption) : ColumnTraits :=
  let traits := options.foldl (applyOption forcesNotNull) ⟨!isSerial,none,false,false⟩
  if traits.isAutoIncrement then { traits with nullable := false } else traits

-- MySQL writes an enum where the column's type stands; it gets a name of its own.
def inlineEnum (dialect : SqlDialect) : DataType → Option (List String)
  | .enum variants =>
    if (dialect = .mySQL ∨ dialect = .sqLite) ∧ variants ≠ [] then
      some (variants.map fun name => trimMatches name '\'')
    else none
  | _ => none

def replaceDots (s : String) : String := String.ofList (s.toList.map fun c => if c = '.' then '_' else c)

def inlineEnumKey (tableName colName : String) : String := s!"{replaceDots tableName}_{colName}"

def processColumn (dialect : SqlDialect) (ct : CreateTable) (tableName : String)
    (found : Catalog × List Column) (colDef : ColumnDef) : Catalog × List Column :=
  let colName := identToLower colDef.name
  let (normalized,isSerial) := normalizeDataType found.1.domains dialect colDef.dataType
  let (catalog,sqlType) :=
    match inlineEnum dialect colDef.dataType with
    | some values =>
      let enumKey := inlineEnumKey tableName colName
      ({ found.1 with enums := found.1.enums.insert enumKey ⟨values⟩ },enumKey)
    | none => (found.1,normalized)
  let forces := sqlitePrimaryKeyForcesNotNull dialect ct.withoutRowid ct.strict colDef.dataType.isInteger
  let traits := columnTraits forces isSerial colDef.options
  (catalog,found.2 ++ [⟨colName,sqlType,traits.nullable,traits.default,traits.primaryKey⟩])

def markPrimaryKey (forceNotNull : Bool) (pkName : String) : List Column → List Column
  | [] => []
  | column :: columns =>
    if column.name = pkName then
      { column with primaryKey := true, nullable := if forceNotNull then false else column.nullable } :: columns
    else column :: markPrimaryKey forceNotNull pkName columns

-- The row id alias is a single column declared INTEGER, in that very word.
def constraintForcesNotNull (dialect : SqlDialect) (ct : CreateTable) (pkColumns : List Expr) : Bool :=
  let isIntegerRowidAlias := match pkColumns with
    | [single] =>
      ct.columns.any fun c => identToLower c.name = pkColumnName single && c.dataType.isInteger
    | _ => false
  sqlitePrimaryKeyForcesNotNull dialect ct.withoutRowid ct.strict isIntegerRowidAlias

def applyConstraint (dialect : SqlDialect) (ct : CreateTable) (columns : List Column) :
    TableConstraint → List Column
  | .primaryKey pkColumns =>
    pkColumns.foldl (fun columns expr =>
      markPrimaryKey (constraintForcesNotNull dialect ct pkColumns) (pkColumnName expr) columns) columns
  | .other => columns

def processCreateTable (dialect : SqlDialect) (catalog : Catalog) (ct : CreateTable) : Catalog :=
  let tableName := objectNameToKey ct.name
  let rawName := objectNameToRawName ct.name
  let found := ct.columns.foldl (processColumn dialect ct tableName) (catalog,[])
  let columns := ct.constraints.foldl (applyConstraint dialect ct) found.2
  if ct.ifNotExists ∧ tableName ∈ found.1.tables then found.1 else
  { found.1 with tables := found.1.tables.insert tableName ⟨columns,rawName⟩ }

def processCreateType (dialect : SqlDialect) (catalog : Catalog) (name : ObjectName)
    (repr : UserDefinedTypeRepresentation) : Catalog :=
  let typeKey := objectNameToKey name
  match repr with
  | .enum labels => { catalog with enums := catalog.enums.insert typeKey ⟨labels.map (·.value)⟩ }
  | .composite attributes =>
    let fields : List CompositeField := attributes.map fun (name,dataType) =>
      ⟨identToLower name,(normalizeDataType catalog.domains dialect dataType).1,true⟩
    { catalog with composites := catalog.composites.insert typeKey ⟨fields⟩ }
  | .other => catalog

def processArgument (dialect : SqlDialect) (domains : AHashMap DomainDef) (argument : OperateFunctionArg) :
    FunctionArgument where
  name := argument.name.map identToLower
  sqlType := functionSqlType domains dialect argument.dataType
  mode := argument.mode.getD .in
  hasDefault := argument.defaultExpr.isSome

-- OUT and INOUT arguments, numbered among themselves where they have no name.
def outputColumns (arguments : List FunctionArgument) : List FunctionResultColumn :=
  (arguments.filter fun argument => argument.mode = .out ∨ argument.mode = .inOut).mapIdx fun index argument =>
    ⟨argument.name.getD s!"column{index + 1}",argument.sqlType,true⟩

def processReturn (dialect : SqlDialect) (domains : AHashMap DomainDef) (arguments : List FunctionArgument)
    (returnType : Option FunctionReturnType) : Option FunctionReturn :=
  let columns := outputColumns arguments
  if columns ≠ [] then some (.table columns) else
  match returnType with
  | some (.dataType dataType) => some (.scalar (functionSqlType domains dialect dataType))
  | some (.setOf dataType) => some (.setOf (functionSqlType domains dialect dataType))
  | none => none

def processCreateFunction (dialect : SqlDialect) (catalog : Catalog) (definition : CreateFunction) :
    Except ScytheError Catalog :=
  let key := objectNameToKey definition.name
  let arguments := definition.args.map (processArgument dialect catalog.domains)
  match processReturn dialect catalog.domains arguments definition.returnType with
  | none => .ok catalog
  | some returnType =>
    let function : CatalogFunction := ⟨arguments,returnType⟩
    let overloads := (catalog.functions.lookup key).getD []
    match overloads.findIdx? fun existing => inputSignature existing = inputSignature function with
    | some index =>
      if definition.orReplace ∨ definition.orAlter then
        .ok { catalog with functions := catalog.functions.insert key (overloads.set index function) }
      else if ¬definition.ifNotExists then
        .error (.syntaxError s!"function \"{key}\" with the same input signature already exists")
      else .ok catalog
    | none => .ok { catalog with functions := catalog.functions.insert key (overloads ++ [function]) }

def processStatement (dialect : SqlDialect) (catalog : Catalog) : SchemaStatement → Except ScytheError Catalog
  | .createTable table => .ok (processCreateTable dialect catalog table)
  | .createType name representation => .ok (processCreateType dialect catalog name representation)
  | .createFunction definition => processCreateFunction dialect catalog definition

variable [TypeParser]

def processCreateDomain (dialect : SqlDialect) (catalog : Catalog) (domain : CreateDomain) : Catalog :=
  let baseTypeRaw := trim domain.baseType
  let normalized := match TypeParser.dataType dialect baseTypeRaw with
    | some dataType => (normalizeDataType catalog.domains dialect dataType).1
    | none => CaseMap.lowercase baseTypeRaw
  { catalog with
    domains := catalog.domains.insert (CaseMap.lowercase (trim domain.name)) ⟨normalized,domain.notNull⟩ }

def processSchemaText (dialect : SqlDialect) (catalog : Catalog) (text : SchemaText) : Except ScytheError Catalog :=
  text.statements.foldlM (processStatement dialect)
    (text.domains.foldl (processCreateDomain dialect) catalog)

def fromDdlWithDialect (schema : List SchemaText) (dialect : SqlDialect) : Except ScytheError Catalog :=
  schema.foldlM (processSchemaText dialect) (Catalog.new dialect)

end
end Scythe
