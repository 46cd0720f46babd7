import Mathlib.Data.List.Sort
import Scythe.Builder

namespace Scythe
open Text

def fingerprintAlgorithmTag : String := "sch2"

-- Escapes the five characters that the canonical form uses as structure.
def escapeChar (c : Char) : List Char :=
  if c.toNat = 0x5c then [Char.ofNat 0x5c,Char.ofNat 0x5c] else
  if c = '|' then [Char.ofNat 0x5c,'|'] else
  if c = ':' then [Char.ofNat 0x5c,':'] else
  if c = '\t' then [Char.ofNat 0x5c,'t'] else
  if c = '\n' then [Char.ofNat 0x5c,'n'] else [c]

def escapeComponent (value : String) : String := String.ofList (value.toList.flatMap escapeChar)

def flag (value : Bool) : String := if value then "true" else "false"

def record (fields : List String) : String := join "\t" fields

def dialectTag : SqlDialect → String
  | .postgreSQL => "postgresql"
  | .mySQL => "mysql"
  | .sqLite => "sqlite"
  | .msSql => "mssql"
  | .oracle => "oracle"
  | .snowflake => "snowflake"

def generatedColumnKindTag : GeneratedColumnKind → String
  | .virtual => "virtual"
  | .stored => "stored"

def modeTag : FunctionArgumentMode → String
  | .in => "in"
  | .out => "out"
  | .inOut => "inout"
  | .variadic => "variadic"

def sortByKey (entries : List (String × α)) : List (String × α) :=
  entries.mergeSort fun a b => a.1 ≤ b.1

def entriesOf (map : AHashMap α) : List (String × α) := map.entries.map fun entry => (entry.1,entry.2)

def sortedEntries (map : AHashMap α) : List (String × α) := sortByKey (entriesOf map)

def stripLeadingQualifier (key : String) : String :=
  match splitOnce key '.' with
  | some (_,rest) => rest
  | none => key

-- One leading qualifier is dropped from every key, unless two keys of the map
-- would then be the same.
def canonicalEntries (entries : List (String × α)) : List (String × α) :=
  let stripped := entries.map fun entry => (stripLeadingQualifier entry.1,entry.2)
  sortByKey (if (stripped.map (·.1)).Nodup then stripped else entries)

def columnLine (key : String) (idx : Nat) (column : Column) : String :=
  record ["column",key,toString idx,escapeComponent column.name,escapeComponent column.sqlType,
    flag column.nullable,flag column.primaryKey]

def tableLines (entry : String × Table) : List String :=
  let key := escapeComponent entry.1
  record ["table",key,toString entry.2.columns.length] :: entry.2.columns.mapIdx (columnLine key)

def enumLine (entry : String × EnumType) : String :=
  record ["enum",escapeComponent entry.1,join "|" (entry.2.values.map escapeComponent)]

def typedName (name sqlType : String) (nullable : Bool) : String :=
  join ":" [escapeComponent name,escapeComponent sqlType,flag nullable]

def compositeLine (entry : String × CompositeType) : String :=
  record ["composite",escapeComponent entry.1,
    join "|" (entry.2.fields.map fun field => typedName field.name field.sqlType field.nullable)]

def domainLine (entry : String × DomainDef) : String :=
  record ["domain",escapeComponent entry.1,escapeComponent entry.2.baseType,flag entry.2.notNull]

def canonicalArgument (argument : FunctionArgument) : String :=
  join ":" [escapeComponent (argument.name.getD ""),escapeComponent argument.sqlType,modeTag argument.mode,
    flag argument.hasDefault]

def canonicalReturn : FunctionReturn → String
  | .scalar sqlType => join ":" ["scalar",escapeComponent sqlType]
  | .setOf sqlType => join ":" ["setof",escapeComponent sqlType]
  | .table columns =>
    join ":" ["table",join "|" (columns.map fun column => typedName column.name column.sqlType column.nullable)]

def canonicalFunction (function : CatalogFunction) : String :=
  join ":" [toString function.arguments.length,join "|" (function.arguments.map canonicalArgument),
    canonicalReturn function.returnType]

def functionLines (entry : String × List CatalogFunction) : List String :=
  let overloads := (entry.2.map canonicalFunction).mergeSort fun a b => a ≤ b
  overloads.map fun overload => record ["function",escapeComponent entry.1,overload]

section
variable [CaseMap]

def equivalentSqlType (raw resolved : String) : Bool := CaseMap.lowercase (trim raw) = resolved

def relationKindLines (kinds : AHashMap RelationKind) : List String :=
  (sortedEntries kinds).filterMap fun (key,kind) =>
    if kind = .view then some (record ["relation-kind",escapeComponent key,"view"]) else none

-- A reported type is written only where it is not the resolved one.
def rawColumnTypeLine (catalog : Catalog) (relationKey columnKey rawType : String) : Option String :=
  let normalizedType := ((catalog.tables.lookup relationKey).bind fun table =>
    table.columns.find? fun column => CaseMap.lowercase (trim column.name) = columnKey).map (·.sqlType)
  if normalizedType.all fun resolved => !equivalentSqlType rawType resolved then
    some (record ["raw-column-type",escapeComponent relationKey,escapeComponent columnKey,escapeComponent rawType])
  else none

def rawColumnTypeLines (catalog : Catalog) : List String :=
  (sortedEntries catalog.rawColumnTypes).flatMap fun (relationKey,rawTypes) =>
    (sortedEntries rawTypes).filterMap fun (columnKey,rawType) =>
      rawColumnTypeLine catalog relationKey columnKey rawType

def generatedColumnLines (kinds : AHashMap (AHashMap GeneratedColumnKind)) : List String :=
  (sortedEntries kinds).flatMap fun (relationKey,generatedKinds) =>
    (sortedEntries generatedKinds).map fun (columnKey,kind) =>
      record ["generated-column",escapeComponent relationKey,escapeComponent columnKey,generatedColumnKindTag kind]

def appendRelationMetadata (catalog : InspectedCatalog) : List String :=
  relationKindLines catalog.relationKinds ++ rawColumnTypeLines catalog.toCatalog ++
    generatedColumnLines catalog.generatedColumnKinds

def appendPreservedNames (objectKind : String) (names : AHashMap CatalogObjectName) : List String :=
  (sortedEntries names).filterMap fun (key,name) =>
    if name.schema = none ∧ name.name = key then none else
    some (record ["object-name",objectKind,escapeComponent key,escapeComponent (name.schema.getD ""),
      escapeComponent name.name])

def appendRawDomainTypes (catalog : InspectedCatalog) : List String :=
  (sortedEntries catalog.rawDomainTypes).filterMap fun (key,rawType) =>
    let normalizedType := (catalog.domains.lookup key).map (·.baseType)
    if normalizedType.all fun resolved => !equivalentSqlType rawType resolved then
      some (record ["raw-domain-type",escapeComponent key,escapeComponent rawType])
    else none

def appendInspectionMetadata (catalog : InspectedCatalog) : List String :=
  appendRelationMetadata catalog ++
    appendPreservedNames "relation" catalog.relationNames ++
    appendPreservedNames "enum" catalog.enumNames ++
    appendPreservedNames "composite" catalog.compositeNames ++
    appendPreservedNames "domain" catalog.domainNames ++
    appendRawDomainTypes catalog

def shapeLines (catalog : Catalog) : List String :=
  [record ["dialect",dialectTag catalog.dialect]] ++
    (canonicalEntries (entriesOf catalog.tables)).flatMap tableLines ++
    (canonicalEntries (entriesOf catalog.enums)).map enumLine ++
    (canonicalEntries (entriesOf catalog.composites)).map compositeLine ++
    (canonicalEntries (entriesOf catalog.domains)).map domainLine ++
    (canonicalEntries (entriesOf catalog.functions)).flatMap functionLines

def canonicalForm (catalog : InspectedCatalog) : String :=
  join "\n" (shapeLines catalog.toCatalog ++ appendInspectionMetadata catalog)

-- The digest is the first eight bytes of SHA-256, in hexadecimal.
def fingerprint (digest : String → String) (catalog : InspectedCatalog) : String :=
  s!"{fingerprintAlgorithmTag}:{digest (canonicalForm catalog)}"

end

-- The canonical form reads the values of a map through their lines alone.
theorem sortByKey_map (f : α → β) (entries : List (String × α)) :
    sortByKey (entries.map (Prod.map id f)) = (sortByKey entries).map (Prod.map id f) := by
  rw [sortByKey,sortByKey,List.map_mergeSort]
  intros
  rfl

theorem canonicalEntries_map (f : α → β) (entries : List (String × α)) :
    canonicalEntries (entries.map (Prod.map id f)) = (canonicalEntries entries).map (Prod.map id f) := by
  unfold canonicalEntries
  rw [←sortByKey_map,apply_ite (List.map (Prod.map id f))]
  simp only [List.map_map,Function.comp_def,Prod.map,id_eq]

def columnShape (column : Column) : String × String × Bool × Bool :=
  (column.name,column.sqlType,column.nullable,column.primaryKey)

def shapeLine (key : String) (idx : Nat) (shape : String × String × Bool × Bool) : String :=
  record ["column",key,toString idx,escapeComponent shape.1,escapeComponent shape.2.1,flag shape.2.2.1,
    flag shape.2.2.2]

def tableShapeLines (entry : String × List (String × String × Bool × Bool)) : List String :=
  let key := escapeComponent entry.1
  record ["table",key,toString entry.2.length] :: entry.2.mapIdx (shapeLine key)

theorem tableLines_eq (entry : String × Table) :
    tableLines entry = tableShapeLines (entry.1,entry.2.columns.map columnShape) := by
  rw [tableLines,tableShapeLines,List.length_map,Register.mapIdx_map]
  rfl

theorem tables_lines (entries : List (String × Table)) :
    (canonicalEntries entries).flatMap tableLines =
      (canonicalEntries (entries.map (Prod.map id fun table => table.columns.map columnShape))).flatMap
        tableShapeLines := by
  rw [canonicalEntries_map,List.flatMap_map]
  congr 1
  funext entry
  exact tableLines_eq entry

theorem entries_shape {a b : AHashMap Table}
    (agree : Register.Agree (fun t u => t.columns.map columnShape = u.columns.map columnShape) a b) :
    (entriesOf a).map (Prod.map id fun table => table.columns.map columnShape) =
      (entriesOf b).map (Prod.map id fun table => table.columns.map columnShape) := by
  unfold entriesOf
  rw [List.map_map,List.map_map]
  unfold Register.Agree at agree
  generalize a.entries = xs at agree
  generalize b.entries = ys at agree
  induction agree with
  | nil => rfl
  | @cons x y xs ys head tail ih =>
    rw [List.map_cons,List.map_cons,ih]
    simp only [Function.comp_apply,Prod.map,id_eq,head.1,head.2]

theorem shapeLines_congr {a b : Catalog} (dialect : a.dialect = b.dialect)
    (tables : Register.Agree (fun t u => t.columns.map columnShape = u.columns.map columnShape) a.tables b.tables)
    (enums : a.enums = b.enums) (composites : a.composites = b.composites) (domains : a.domains = b.domains)
    (functions : a.functions = b.functions) : shapeLines a = shapeLines b := by
  rw [shapeLines,shapeLines,tables_lines,tables_lines,entries_shape tables,dialect,enums,composites,domains,functions]

end Scythe
