import Scythe.Ddl
import Scythe.Lib.Renaming

-- ALTER TABLE, and which table RENAME TO takes where.
namespace Scythe
open Text Renaming

inductive AlterColumnOperation where
  | setNotNull
  | dropNotNull
  | setDataType (dataType : DataType)
  | setDefault (value : Expr)
  | dropDefault
  | other

inductive AlterTableOperation where
  | addColumn (columnDef : ColumnDef)
  | dropColumn (columnNames : List Ident)
  | renameColumn (oldColumnName newColumnName : Ident)
  | renameTable (tableName : ObjectName)
  | alterColumn (columnName : Ident) (op : AlterColumnOperation)
  | addConstraint (constraint : TableConstraint)
  | other

-- The table that a key addresses, with the key it is registered under.
def getTableMut (tables : AHashMap Table) (key : String) : Option (String × Table) :=
  match tables.lookup key with
  | some table => some (key,table)
  | none =>
    if contains key "." then none else
    (suffixKey tables.keys ("." ++ key)).bind fun found => (tables.lookup found).map (found,·)

-- The first column of the name, and no other.
def alterFirst (name : String) (change : Column → Column) : List Column → List Column
  | [] => []
  | column :: columns =>
    if column.name = name then change column :: columns else column :: alterFirst name change columns

section
variable [CaseMap] [Printer]

-- SQLite cannot add a primary key to a table that exists.
def applyAddedOption (dialect : SqlDialect) (isInteger : Bool) (traits : ColumnTraits) : ColumnOption → ColumnTraits
  | .null => { traits with nullable := true }
  | .notNull => { traits with nullable := false }
  | .default expr => { traits with default := some (Printer.expr expr) }
  | .primaryKey =>
    let forces := sqlitePrimaryKeyForcesNotNull dialect false false isInteger
    { traits with primaryKey := true, nullable := if forces then false else traits.nullable }
  | .unique | .generated _ | .dialectSpecific _ | .other => traits

def addedColumn (dialect : SqlDialect) (domains : AHashMap DomainDef) (columnDef : ColumnDef) : Column :=
  let (sqlType,isSerial) := normalizeDataType domains dialect columnDef.dataType
  let traits := columnDef.options.foldl (applyAddedOption dialect columnDef.dataType.isInteger)
    ⟨!isSerial,none,false,false⟩
  ⟨identToLower columnDef.name,sqlType,traits.nullable,traits.default,traits.primaryKey⟩

def alterColumn (dialect : SqlDialect) (domains : AHashMap DomainDef) (col : Column) : AlterColumnOperation → Column
  | .setNotNull => { col with nullable := false }
  | .dropNotNull => { col with nullable := true }
  | .setDataType dataType => { col with sqlType := (normalizeDataType domains dialect dataType).1 }
  | .setDefault value => { col with default := some (Printer.expr value) }
  | .dropDefault => { col with default := none }
  | .other => col

def addConstraint (dialect : SqlDialect) (columns : List Column) : TableConstraint → List Column
  | .primaryKey pkColumns =>
    let forceNotNull := sqlitePrimaryKeyForcesNotNull dialect false false false
    pkColumns.foldl (fun columns expr => markPrimaryKey forceNotNull (pkColumnName expr) columns) columns
  | .other => columns

-- What an operation on the columns of one table makes of them.
def alterColumns (dialect : SqlDialect) (domains : AHashMap DomainDef) (columns : List Column) :
    AlterTableOperation → List Column
  | .addColumn columnDef => columns ++ [addedColumn dialect domains columnDef]
  | .dropColumn columnNames =>
    columnNames.foldl (fun columns name => columns.filter fun c => c.name ≠ identToLower name) columns
  | .renameColumn oldColumnName newColumnName =>
    alterFirst (identToLower oldColumnName) (fun col => { col with name := identToLower newColumnName }) columns
  | .alterColumn columnName op => alterFirst (identToLower columnName) (alterColumn dialect domains · op) columns
  | .addConstraint constraint => addConstraint dialect columns constraint
  | .renameTable _ | .other => columns

-- RENAME TO takes the table out under the very key, or under its last part.
def renameTarget (tables : AHashMap Table) (tableKey : String) : Option (String × Table) :=
  match tables.lookup tableKey with
  | some table => some (tableKey,table)
  | none => (tables.lookup (bareName tableKey)).map (bareName tableKey,·)

def processAlterTableOperation (dialect : SqlDialect) (tableKey : String) (catalog : Catalog) :
    AlterTableOperation → Except ScytheError Catalog
  | .renameTable tableName =>
    match renameTarget catalog.tables tableKey with
    | none => .error (ScytheError.unknownTable tableKey)
    | some (removed,table) =>
      let table := { table with rawName := objectNameToRawName tableName }
      .ok { catalog with tables := (catalog.tables.erase removed).insert (objectNameToKey tableName) table }
  | .other => .ok catalog
  | op =>
    match getTableMut catalog.tables tableKey with
    | none => .error (ScytheError.unknownTable tableKey)
    | some (found,table) =>
      let table := { table with columns := alterColumns dialect catalog.domains table.columns op }
      .ok { catalog with tables := catalog.tables.insert found table }

def processAlterTable (dialect : SqlDialect) (catalog : Catalog) (name : ObjectName)
    (operations : List AlterTableOperation) : Except ScytheError Catalog :=
  operations.foldlM (processAlterTableOperation dialect (objectNameToKey name)) catalog

end

theorem getTableMut_registered {tables : AHashMap Table} {key found : String} {table : Table}
    (address : getTableMut tables key = some (found,table)) : tables.lookup found = some table := by
  unfold getTableMut at address
  split at address
  · rename_i registered
    cases address
    exact registered
  · split at address
    · cases address
    · obtain ⟨other,_,at'⟩ := Option.bind_eq_some_iff.mp address
      obtain ⟨held,registered,same⟩ := Option.map_eq_some_iff.mp at'
      cases same
      exact registered

theorem bareName_plain {key : String} (plain : contains key "." = false) : bareName key = key := by
  have none : rsplitOnce key '.' = none := by
    unfold rsplitOnce
    rw [Option.map_eq_none_iff]
    by_contra split
    have inside := splitFirst_isSome.mp (Option.isSome_iff_ne_none.mpr split)
    have reversed : ".".toList <:+: key.toList := by simpa using List.reverse_infix.mpr inside
    rw [contains_iff.mpr reversed] at plain
    cases plain
  rw [bareName,none]

-- The two agree on a name that is registered as it is written, and on no other
-- that get_table_mut resolves.
theorem renameTarget_iff {tables : AHashMap Table} {key found : String} {table : Table}
    (address : getTableMut tables key = some (found,table)) :
    (renameTarget tables key = some (found,table) ∧ key ∈ tables) ∨ renameTarget tables key = none ∧ key ∉ tables := by
  unfold getTableMut at address
  unfold renameTarget
  cases registered : tables.lookup key with
  | some held =>
    rw [registered] at address
    exact .inl ⟨address,AList.lookup_isSome.mp (Option.isSome_of_eq_some registered)⟩
  | none =>
    rw [registered] at address
    have absent := AList.lookup_eq_none.mp registered
    dsimp only at address
    split at address
    · cases address
    · rename_i plain
      rw [bareName_plain (Bool.eq_false_of_not_eq_true plain),registered]
      exact .inr ⟨rfl,absent⟩

section
variable [CaseMap] [Printer]

-- The new name in the schema of the table's key.
def renamedKey (found : String) (tableName : ObjectName) : String :=
  let name := objectNameToKey (tableName.drop (tableName.length - 1))
  match rsplitOnce found '.' with
  | some (schema,_) => schema ++ "." ++ name
  | none => name

-- RENAME TO leaves everything as it was, save that the table that get_table_mut
-- finds stands under its new name in its old schema.
def RenamesInPlace (catalog : Catalog) (found : String) (table : Table) (tableName : ObjectName)
    (outcome : Except ScytheError Catalog) : Prop :=
  ∃ tables, outcome = .ok { catalog with tables := tables } ∧
    tables.entries.Perm (catalog.tables.entries.map
      (relocate found (renamedKey found tableName) { table with rawName := objectNameToRawName tableName }))

theorem processAlterTable_rename (dialect : SqlDialect) (catalog : Catalog) (name tableName : ObjectName) :
    processAlterTable dialect catalog name [.renameTable tableName] =
      processAlterTableOperation dialect (objectNameToKey name) catalog (.renameTable tableName) := by
  unfold processAlterTable
  rw [List.foldlM_cons]
  cases processAlterTableOperation dialect (objectNameToKey name) catalog (.renameTable tableName) <;> rfl

theorem rename_resolves_alike (dialect : SqlDialect) (catalog : Catalog) (name tableName : ObjectName) :
    (∀ found table,getTableMut catalog.tables (objectNameToKey name) = some (found,table) →
      (RenamesInPlace catalog found table tableName (processAlterTable dialect catalog name [.renameTable tableName]) ↔
        objectNameToKey name ∈ catalog.tables ∧ objectNameToKey tableName = renamedKey found tableName ∧
          (objectNameToKey tableName ∈ catalog.tables → objectNameToKey tableName = found))) ∧
    (getTableMut catalog.tables (objectNameToKey name) = none →
      (processAlterTable dialect catalog name [.renameTable tableName] =
          .error (ScytheError.unknownTable (objectNameToKey name)) ↔
        bareName (objectNameToKey name) ∉ catalog.tables)) := by
  simp only [processAlterTable_rename,processAlterTableOperation]
  constructor
  · intro found table address
    have registered := getTableMut_registered address
    rcases renameTarget_iff address with ⟨same,member⟩ | ⟨none,absent⟩
    · rw [same]
      simp only [member,true_and]
      rw [←exchange_perm_iff registered _ _ { table with rawName := objectNameToRawName tableName }]
      constructor
      · rintro ⟨tables,same,moved⟩
        cases same
        exact moved
      · exact fun moved => ⟨_,rfl,moved⟩
    · rw [none]
      constructor
      · rintro ⟨tables,same,_⟩
        cases same
      · exact fun ⟨member,_⟩ => absurd member absent
  · intro unknown
    have absent : catalog.tables.lookup (objectNameToKey name) = none := by
      unfold getTableMut at unknown
      split at unknown
      · cases unknown
      · assumption
    unfold renameTarget
    rw [absent,←AList.lookup_eq_none]
    dsimp only
    cases catalog.tables.lookup (bareName (objectNameToKey name)) with
    | none => exact ⟨fun _ => rfl,fun _ => rfl⟩
    | some table =>
      constructor
      · intro same
        cases same
      · intro same
        cases same

end

-- One table in a schema of its own name.
section
local instance alteredCase : CaseMap := ascii

local instance alteredPrinter : Printer where
  query _ := ""
  dataType _ := ""
  expr _ := ""

def publicUsers : Catalog := { Catalog.new .postgreSQL with tables := AList.singleton "public.users" ⟨[],"users"⟩ }

def dotted (parts : List String) : ObjectName := parts.map fun part => .identifier ⟨part,false⟩

def renamedKeys (name : List String) : Option (List String) :=
  (processAlterTable .postgreSQL publicUsers (dotted name) [.renameTable (dotted ["people"])]).toOption.map
    fun catalog => catalog.tables.keys

theorem schema_lost :
    getTableMut publicUsers.tables "users" = some ("public.users",⟨[],"users"⟩) ∧
      renamedKey "public.users" (dotted ["people"]) = "public.people" ∧
        renamedKeys ["users"] = none ∧ renamedKeys ["public","users"] = some ["people"] ∧
          ∀ name ∈ [["users"],["public","users"]],
            ¬RenamesInPlace publicUsers "public.users" ⟨[],"users"⟩ (dotted ["people"])
              (processAlterTable .postgreSQL publicUsers (dotted name) [.renameTable (dotted ["people"])]) := by
  refine ⟨by decide,by decide,by decide,by decide,?_⟩
  intro name member
  simp only [List.mem_cons,List.not_mem_nil,or_false] at member
  rcases member with rfl | rfl
  · rintro ⟨tables,same,_⟩
    cases same
  · rintro ⟨tables,same,moved⟩
    cases same
    have keys := (moved.map Sigma.fst).mem_iff (a := "people")
    revert keys
    decide

end
end Scythe
