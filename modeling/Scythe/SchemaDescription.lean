import Scythe.Lib.Aliases
import Scythe.Overrides
import Scythe.TypeConversion

-- One side of a drift comparison, and the one that the catalog of the DDL gives.
namespace Scythe.Drift
open Text Aliases

structure ColumnDescription where
  name : String
  neutralType : Option String
  nullable : Bool
  primaryKey : Bool
  deriving DecidableEq,Repr

structure TableDescription where
  displayName : String
  columns : Entries ColumnDescription
  nullabilityIsAuthoritative : Bool

structure EnumDescription where
  displayName : String
  values : List String
  deriving DecidableEq,Repr

structure CompositeFieldDescription where
  name : String
  neutralType : Option String
  nullable : Bool
  deriving DecidableEq,Repr

structure CompositeDescription where
  displayName : String
  fields : Entries CompositeFieldDescription

structure SchemaDescription where
  tables : Entries TableDescription
  enums : Entries EnumDescription
  composites : Entries CompositeDescription

-- Between the first < and the last >.
def splitWrapper (neutral : String) : Option (String × String) :=
  match (stripSuffix neutral ">").bind fun inner => splitOnce inner '<' with
  | some (wrapper,inner) => if wrapper = "" then none else some (wrapper,inner)
  | none => none

def bareType (neutral : String) : String :=
  let payloads := ["enum::","composite::"].filterMap fun payloadPrefix =>
    ((stripPrefix neutral payloadPrefix).bind fun payload => rsplitOnce payload '.').map fun parts =>
      payloadPrefix ++ parts.2
  match payloads with
  | bare :: _ => bare
  | [] => if neutral = "name" then "string" else neutral

-- No type has more wrappers than characters.
def normalizeNeutralType (neutral : String) : String := go neutral.toList.length neutral
where
  go : Nat → String → String
    | 0,neutral => bareType neutral
    | depth + 1,neutral =>
      match splitWrapper neutral with
      | some (wrapper,inner) =>
        let normalized := go depth inner
        if normalized = inner then neutral else wrapper ++ "<" ++ normalized ++ ">"
      | none => bareType neutral

section
variable [CaseMap]

def objectKey (name : String) : String := bareName (CaseMap.lowercase name)

-- A type that the catalog does not know comes back as it was written.
def columnNeutralType (sqlType : String) (catalog : Catalog) : String :=
  let spelling := trim sqlType
  let neutral := sqlTypeToNeutral spelling catalog
  let retried := if eqIgnoreAsciiCase neutral spelling then
    (rsplitOnce spelling '.').bind fun parts =>
      let bareNeutral := sqlTypeToNeutral parts.2 catalog
      if eqIgnoreAsciiCase bareNeutral parts.2 then none else some (normalizeNeutralType bareNeutral)
    else none
  retried.getD (normalizeNeutralType neutral)

def descriptionKey (name : String) : String :=
  if contains name "." then CaseMap.lowercase name else objectKey name

variable (catalog : Catalog)

def describeColumn (column : Column) : ColumnDescription :=
  ⟨column.name,some (columnNeutralType column.sqlType catalog),column.nullable,column.primaryKey⟩

def describeField (field : CompositeField) : CompositeFieldDescription :=
  ⟨field.name,some (columnNeutralType field.sqlType catalog),field.nullable⟩

def columnKey (column : Column) : String := CaseMap.lowercase column.name
def fieldKey (field : CompositeField) : String := CaseMap.lowercase field.name
def entryKey {α : Type} (entry : Σ _ : String, α) : String := descriptionKey entry.1

def describeTable (entry : Σ _ : String, Table) : TableDescription :=
  ⟨entry.1,ofList columnKey (describeColumn catalog) entry.2.columns,true⟩

def describeEnum (entry : Σ _ : String, EnumType) : EnumDescription := ⟨entry.1,entry.2.values⟩

def describeComposite (entry : Σ _ : String, CompositeType) : CompositeDescription :=
  ⟨entry.1,ofList fieldKey (describeField catalog) entry.2.fields⟩

-- The entries of a map in the order of their names.
def byName {α : Type} (map : AHashMap α) : List (Σ _ : String, α) := map.entries.mergeSort fun a b => a.1 ≤ b.1

def describeCatalog : SchemaDescription where
  tables := ofList entryKey (describeTable catalog) (byName catalog.tables)
  enums := ofList entryKey describeEnum (byName catalog.enums)
  composites := ofList entryKey (describeComposite catalog) (byName catalog.composites)

end

end Scythe.Drift
