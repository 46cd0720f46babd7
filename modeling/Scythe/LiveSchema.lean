import Scythe.SchemaDescription

-- The description that the rows of pg_catalog give.
namespace Scythe.Drift
open Text Aliases

-- A type of the driver: a built-in one by its name, or one that it was told of.
inductive PgType where
  | simple (name : String)
  | array (element : PgType)
  | enum (name : String)
  | domain (base : PgType)
  deriving DecidableEq,Repr

def neutralScalars : List (List String × String) := [
  (["bool"],"bool"),
  (["int2"],"int16"),
  (["int4"],"int32"),
  (["int8"],"int64"),
  (["float4"],"float32"),
  (["float8"],"float64"),
  (["numeric"],"decimal"),
  (["text","varchar","bpchar","name","char"],"string"),
  (["bytea"],"bytes"),
  (["uuid"],"uuid"),
  (["date"],"date"),
  (["time"],"time"),
  (["timetz"],"time_tz"),
  (["timestamp"],"datetime"),
  (["timestamptz"],"datetime_tz"),
  (["interval"],"interval"),
  (["json","jsonb"],"json"),
  (["inet","cidr","macaddr"],"inet"),
  (["int4range"],"range<int32>"),
  (["int8range"],"range<int64>"),
  (["numrange"],"range<decimal>"),
  (["daterange"],"range<date>"),
  (["tsrange"],"range<datetime>"),
  (["tstzrange"],"range<datetime_tz>")]

def neutralTypeFor : PgType → Option String
  | .array element => (neutralTypeFor element).map fun neutral => "array<" ++ neutral ++ ">"
  | .enum name => some ("enum::" ++ name)
  | .domain base => neutralTypeFor base
  | .simple name => (neutralScalars.find? fun arm => name ∈ arm.1).map (·.2)

structure PgTypeRow where
  name : String
  schema : String
  kind : String
  baseTypeOid : Nat
  elementTypeOid : Nat
  category : String
  deriving DecidableEq,Repr

structure PgColumnRow where
  schemaName : String
  relationName : String
  relationKind : String
  columnName : String
  notNull : Bool
  typeOid : Nat
  primaryKey : Bool
  schemaRank : Int
  deriving DecidableEq,Repr

structure PgCompositeFieldRow where
  schema : String
  composite : String
  field : String
  typeOid : Nat
  nullable : Bool
  schemaRank : Int
  deriving DecidableEq,Repr

-- What was read from the server, and the types that the driver knows by their
-- numbers.
structure LiveRows where
  fromOid : Nat → Option PgType
  types : AList fun _ : Nat => PgTypeRow
  enumLabels : AList fun _ : Nat => List String
  scope : List String
  columns : List PgColumnRow
  composites : List PgCompositeFieldRow

def maxTypeResolutionDepth : Nat := 16

variable (rows : LiveRows)

def resolveType : Nat → Nat → Option PgType
  | 0,_ => none
  | depth + 1,oid =>
    match rows.fromOid oid with
    | some builtin => some builtin
    | none =>
      (rows.types.lookup oid).bind fun row =>
        if row.kind = "e" then some (.enum row.name) else
        if row.kind = "d" then (resolveType depth row.baseTypeOid).map .domain else
        if row.category = "A" ∧ row.elementTypeOid ≠ 0 then (resolveType depth row.elementTypeOid).map .array
        else none

-- The depth that is left.
def resolveNeutralWithin : Nat → Nat → Option String
  | 0,_ => none
  | depth + 1,oid =>
    match rows.fromOid oid with
    | some builtin => neutralTypeFor builtin
    | none =>
      (rows.types.lookup oid).bind fun row =>
        if row.kind = "e" then some ("enum::" ++ row.name) else
        if row.kind = "c" then some ("composite::" ++ row.name) else
        if row.kind = "d" then resolveNeutralWithin depth row.baseTypeOid else
        if row.category = "A" ∧ row.elementTypeOid ≠ 0 then
          (resolveNeutralWithin depth row.elementTypeOid).map fun element => "array<" ++ element ++ ">"
        else (resolveType rows (depth + 1) oid).bind neutralTypeFor

def resolveNeutralType (oid : Nat) : Option String := resolveNeutralWithin rows maxTypeResolutionDepth oid

def liveType (oid : Nat) : Option String := (resolveNeutralType rows oid).map normalizeNeutralType

def authoritativeKind (relationKind : String) : Bool := relationKind ≠ "v" && relationKind ≠ "m"

def PgColumnRow.displayName (row : PgColumnRow) : String := row.schemaName ++ "." ++ row.relationName
def PgCompositeFieldRow.displayName (row : PgCompositeFieldRow) : String := row.schema ++ "." ++ row.composite

section
variable [CaseMap]

def PgColumnRow.qualified (row : PgColumnRow) : String := CaseMap.lowercase row.displayName
def PgColumnRow.bare (row : PgColumnRow) : String := objectKey row.relationName
def PgColumnRow.key (row : PgColumnRow) : String := CaseMap.lowercase row.columnName

def openTable (row : PgColumnRow) : TableDescription := ⟨row.displayName,∅,authoritativeKind row.relationKind⟩

def liveColumn (row : PgColumnRow) : ColumnDescription :=
  ⟨row.columnName,liveType rows row.typeOid,!row.notNull,row.primaryKey⟩

def addColumn (table : TableDescription) (row : PgColumnRow) : TableDescription :=
  { table with columns := table.columns.insert row.key (liveColumn rows row) }

-- A relation is described with its first row, and the bare name goes to the one
-- that comes first in the scope.
def fetchTables : Entries TableDescription :=
  let registered := rows.columns.foldl
    (register PgColumnRow.qualified PgColumnRow.bare PgColumnRow.schemaRank openTable (addColumn rows)) ⟨∅,∅⟩
  aliased registered.entries registered.winners

def PgCompositeFieldRow.qualified (row : PgCompositeFieldRow) : String := CaseMap.lowercase row.displayName
def PgCompositeFieldRow.bare (row : PgCompositeFieldRow) : String := objectKey row.composite
def PgCompositeFieldRow.key (row : PgCompositeFieldRow) : String := CaseMap.lowercase row.field

def openComposite (row : PgCompositeFieldRow) : CompositeDescription := ⟨row.displayName,∅⟩

def liveField (row : PgCompositeFieldRow) : CompositeFieldDescription :=
  ⟨row.field,liveType rows row.typeOid,row.nullable⟩

def addField (composite : CompositeDescription) (row : PgCompositeFieldRow) : CompositeDescription :=
  { composite with fields := composite.fields.insert row.key (liveField rows row) }

def collectComposites : Entries CompositeDescription :=
  let registered := rows.composites.foldl (register PgCompositeFieldRow.qualified PgCompositeFieldRow.bare
    PgCompositeFieldRow.schemaRank openComposite (addField rows)) ⟨∅,∅⟩
  aliased registered.entries registered.winners

structure ScopedEnum where
  schema : String
  name : String
  values : List String
  rank : Int
  deriving DecidableEq,Repr

def ScopedEnum.displayName (row : ScopedEnum) : String := row.schema ++ "." ++ row.name
def ScopedEnum.qualified (row : ScopedEnum) : String := CaseMap.lowercase row.displayName
def ScopedEnum.bare (row : ScopedEnum) : String := objectKey row.name

-- The enums in the scope that have labels. The map of types has them in no
-- particular order.
def scopedEnums : List ScopedEnum :=
  rows.types.entries.filterMap fun entry =>
    if entry.2.kind ≠ "e" then none else
    (rows.scope.findIdx? fun schema => schema = entry.2.schema).bind fun rank =>
      (rows.enumLabels.lookup entry.1).map fun values => ⟨entry.2.schema,entry.2.name,values,rank⟩

def collectEnums : Entries EnumDescription :=
  let enums := scopedEnums rows
  aliased (ofList ScopedEnum.qualified (fun row => ⟨row.displayName,row.values⟩) enums)
    (enums.foldl (challenge ScopedEnum.qualified ScopedEnum.bare ScopedEnum.rank) ∅)

def describeLive : SchemaDescription := ⟨fetchTables rows,collectEnums rows,collectComposites rows⟩

end

end Scythe.Drift
