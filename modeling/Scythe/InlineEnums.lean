import Scythe.Declarations
import Scythe.Lib.LastWrite
import Scythe.TypeResolution

-- The enums that MySQL and SQLite write where the type of a column stands. Each
-- goes into the catalog's enums under a name made of the table's and the column's.
namespace Scythe
open Text LastWrite Register

section
variable [CaseMap] [Printer]

def inlineKey (ct : CreateTable) (colDef : ColumnDef) : String :=
  inlineEnumKey (objectNameToKey ct.name) (identToLower colDef.name)

def columnEnum (dialect : SqlDialect) (ct : CreateTable) (colDef : ColumnDef) : Option (String × EnumType) :=
  (inlineEnum dialect colDef.dataType).map fun values => (inlineKey ct colDef,⟨values⟩)

-- What the columns of a table write, in their order.
def inlineEnums (dialect : SqlDialect) (ct : CreateTable) : List (String × EnumType) :=
  ct.columns.filterMap (columnEnum dialect ct)

def columnFor (dialect : SqlDialect) (domains : AHashMap DomainDef) (ct : CreateTable) (colDef : ColumnDef) : Column :=
  match inlineEnum dialect colDef.dataType with
  | some _ => { columnOf dialect domains ct colDef with sqlType := inlineKey ct colDef }
  | none => columnOf dialect domains ct colDef

def columnsFor (dialect : SqlDialect) (domains : AHashMap DomainDef) (ct : CreateTable) : List Column :=
  ct.constraints.foldl (applyConstraint dialect ct) (ct.columns.map (columnFor dialect domains ct))

theorem columnFor_name (dialect : SqlDialect) (domains : AHashMap DomainDef) (ct : CreateTable) (colDef : ColumnDef) :
    (columnFor dialect domains ct colDef).name = identToLower colDef.name := by
  unfold columnFor
  split <;> rfl

theorem columnFor_sqlType {dialect : SqlDialect} {colDef : ColumnDef} {labels : List String}
    (inline : inlineEnum dialect colDef.dataType = some labels) (domains : AHashMap DomainDef) (ct : CreateTable) :
    (columnFor dialect domains ct colDef).sqlType = inlineKey ct colDef := by
  rw [columnFor,inline]

theorem processColumn_eq (dialect : SqlDialect) (ct : CreateTable) (catalog : Catalog) (columns : List Column)
    (colDef : ColumnDef) :
    processColumn dialect ct (objectNameToKey ct.name) (catalog,columns) colDef =
      ({ catalog with enums := write catalog.enums (columnEnum dialect ct colDef).toList },
        columns ++ [columnFor dialect catalog.domains ct colDef]) := by
  cases inline : inlineEnum dialect colDef.dataType with
  | some values => simp [processColumn,columnEnum,columnFor,columnOf,columnForces,inlineKey,inline]
  | none => simp [processColumn,columnEnum,columnFor,columnOf,columnForces,inline]

theorem columns_written (dialect : SqlDialect) (ct : CreateTable) (colDefs : List ColumnDef) (catalog : Catalog)
    (columns : List Column) :
    colDefs.foldl (processColumn dialect ct (objectNameToKey ct.name)) (catalog,columns) =
      ({ catalog with enums := write catalog.enums (colDefs.filterMap (columnEnum dialect ct)) },
        columns ++ colDefs.map (columnFor dialect catalog.domains ct)) := by
  induction colDefs generalizing catalog columns with
  | nil => simp
  | cons colDef colDefs ih =>
    rw [List.foldl_cons,processColumn_eq,ih]
    cases own : columnEnum dialect ct colDef <;> simp [own]

-- The enums are written before it is known whether the table is.
theorem createTable_written (dialect : SqlDialect) (catalog : Catalog) (ct : CreateTable) :
    processCreateTable dialect catalog ct =
      { catalog with
        enums := write catalog.enums (inlineEnums dialect ct)
        tables := if ct.ifNotExists ∧ objectNameToKey ct.name ∈ catalog.tables then catalog.tables else
          catalog.tables.insert (objectNameToKey ct.name)
            ⟨columnsFor dialect catalog.domains ct,objectNameToRawName ct.name⟩ } := by
  simp only [processCreateTable,columns_written,List.nil_append,inlineEnums,columnsFor]
  split <;> rfl

-- The same entries, in whatever order a map lists them.
structure SameContents (a b : Catalog) : Prop where
  tables : ∀ key,a.tables.lookup key = b.tables.lookup key
  enums : ∀ key,a.enums.lookup key = b.enums.lookup key
  composites : ∀ key,a.composites.lookup key = b.composites.lookup key
  functions : ∀ key,a.functions.lookup key = b.functions.lookup key
  domains : ∀ key,a.domains.lookup key = b.domains.lookup key
  dialect : a.dialect = b.dialect
  engine : a.engine = b.engine
  searchPath : a.searchPath = b.searchPath
  rawColumnTypes : ∀ key,a.rawColumnTypes.lookup key = b.rawColumnTypes.lookup key

-- IF NOT EXISTS on a table that is there changes nothing exactly when the
-- catalog already holds each inline enum that the statement leaves standing.
theorem if_not_exists_frame_iff (dialect : SqlDialect) (catalog : Catalog) (ct : CreateTable)
    (conditional : ct.ifNotExists = true) (present : objectNameToKey ct.name ∈ catalog.tables) :
    SameContents (processCreateTable dialect catalog ct) catalog ↔
      ∀ entry,Stands (inlineEnums dialect ct) entry → catalog.enums.lookup entry.1 = some entry.2 := by
  have skipped : ct.ifNotExists = true ∧ objectNameToKey ct.name ∈ catalog.tables := ⟨conditional,present⟩
  have result : processCreateTable dialect catalog ct =
      { catalog with enums := write catalog.enums (inlineEnums dialect ct) } := by
    rw [createTable_written,if_pos skipped]
  rw [← unchanged_iff,result]
  constructor
  · intro same
    exact same.enums
  · intro enums
    exact ⟨fun _ => rfl,enums,fun _ => rfl,fun _ => rfl,fun _ => rfl,rfl,rfl,rfl,fun _ => rfl⟩


def writtenEnums (dialect : SqlDialect) : SchemaStatement → List (String × EnumType)
  | .createTable ct => inlineEnums dialect ct
  | .createType name (.enum labels) => [(objectNameToKey name,⟨labels.map (·.value)⟩)]
  | _ => []

def explicitEnums (statements : List SchemaStatement) : List (String × EnumType) :=
  (enumsOf statements).map fun type => (objectNameToKey type.1,⟨type.2.map (·.value)⟩)

def tablesAfter (dialect : SqlDialect) (domains : AHashMap DomainDef) (tables : AHashMap Table) :
    SchemaStatement → AHashMap Table
  | .createTable ct =>
    if ct.ifNotExists ∧ objectNameToKey ct.name ∈ tables then tables else
      tables.insert (objectNameToKey ct.name) ⟨columnsFor dialect domains ct,objectNameToRawName ct.name⟩
  | _ => tables

-- The parts of the catalog that decide what a column's type reads as.
structure Leaves (dialect : SqlDialect) (statements : List SchemaStatement) (catalog result : Catalog) : Prop where
  enums : result.enums = write catalog.enums (statements.flatMap (writtenEnums dialect))
  tables : result.tables = statements.foldl (tablesAfter dialect catalog.domains) catalog.tables
  domains : result.domains = catalog.domains
  dialect : result.dialect = catalog.dialect
  searchPath : result.searchPath = catalog.searchPath

theorem statement_leaves {dialect : SqlDialect} {statement : SchemaStatement} {catalog result : Catalog}
    (done : processStatement dialect catalog statement = .ok result) : Leaves dialect [statement] catalog result := by
  cases statement with
  | createTable ct =>
    cases done
    rw [createTable_written]
    exact ⟨by simp [writtenEnums],rfl,rfl,rfl,rfl⟩
  | createType name representation =>
    cases done
    cases representation with
    | enum labels => exact ⟨rfl,rfl,rfl,rfl,rfl⟩
    | composite attributes => exact ⟨rfl,rfl,rfl,rfl,rfl⟩
    | other => exact ⟨rfl,rfl,rfl,rfl,rfl⟩
  | createFunction definition =>
    rw [processStatement,processCreateFunction_eq] at done
    cases registered : registerFunction dialect catalog.domains catalog.functions definition with
    | error failure =>
      rw [registered] at done
      cases done
    | ok functions =>
      rw [registered] at done
      cases done
      exact ⟨rfl,rfl,rfl,rfl,rfl⟩

theorem run_leaves {dialect : SqlDialect} {statements : List SchemaStatement} {catalog result : Catalog}
    (done : statements.foldlM (processStatement dialect) catalog = .ok result) :
    Leaves dialect statements catalog result := by
  induction statements generalizing catalog with
  | nil =>
    cases done
    exact ⟨rfl,rfl,rfl,rfl,rfl⟩
  | cons statement statements ih =>
    rw [List.foldlM_cons] at done
    obtain ⟨middle,first,rest⟩ := bind_ok done
    have head := statement_leaves first
    have tail := ih rest
    refine ⟨?_,?_,?_,?_,?_⟩
    · rw [tail.enums,head.enums]
      simp
    · rw [tail.tables,head.tables,head.domains]
      rfl
    · rw [tail.domains,head.domains]
    · rw [tail.dialect,head.dialect]
    · rw [tail.searchPath,head.searchPath]

section Tables
variable {dialect : SqlDialect} {domains : AHashMap DomainDef} {key : String}

theorem mem_tablesAfter {statements : List SchemaStatement} {tables : AHashMap Table} :
    key ∈ statements.foldl (tablesAfter dialect domains) tables ↔
      key ∈ tables ∨ ∃ ct ∈ tablesOf statements,objectNameToKey ct.name = key := by
  induction statements generalizing tables with
  | nil => simp [tablesOf]
  | cons statement statements ih =>
    rw [List.foldl_cons,ih]
    cases statement with
    | createTable ct =>
      have here : key ∈ tablesAfter dialect domains tables (.createTable ct) ↔
          key ∈ tables ∨ objectNameToKey ct.name = key := by
        rw [tablesAfter]
        split
        · rename_i skipped
          exact ⟨.inl,fun either => either.elim id fun same => same ▸ skipped.2⟩
        · rw [AList.mem_insert]
          exact ⟨fun either => either.symm.imp_right Eq.symm,fun either => (either.imp_right Eq.symm).symm⟩
      rw [here]
      simp [tablesOf,or_assoc]
    | createType => simp [tablesAfter,tablesOf]
    | createFunction => simp [tablesAfter,tablesOf]

-- A table is kept while the statements under its key are all conditional.
theorem table_kept {statements : List SchemaStatement} {tables : AHashMap Table} (present : key ∈ tables)
    (conditional : ∀ ct ∈ tablesOf statements,objectNameToKey ct.name = key → ct.ifNotExists = true) :
    (statements.foldl (tablesAfter dialect domains) tables).lookup key = tables.lookup key := by
  induction statements generalizing tables with
  | nil => rfl
  | cons statement statements ih =>
    rw [List.foldl_cons]
    cases statement with
    | createTable ct =>
      have later : ∀ other ∈ tablesOf statements,objectNameToKey other.name = key → other.ifNotExists = true :=
        fun other member => conditional other (List.mem_cons_of_mem ct member)
      by_cases same : objectNameToKey ct.name = key
      · have skipped : ct.ifNotExists = true ∧ objectNameToKey ct.name ∈ tables :=
          ⟨conditional ct List.mem_cons_self same,same ▸ present⟩
        rw [tablesAfter,if_pos skipped]
        exact ih present later
      · have differs : key ≠ objectNameToKey ct.name := Ne.symm same
        have after : (tablesAfter dialect domains tables (.createTable ct)).lookup key = tables.lookup key := by
          rw [tablesAfter]
          split
          · rfl
          · exact AList.lookup_insert_ne differs
        have still : key ∈ tablesAfter dialect domains tables (.createTable ct) := by
          rw [← AList.lookup_isSome,after]
          exact AList.lookup_isSome.mpr present
        rw [ih still later,after]
    | createType name representation => exact ih present conditional
    | createFunction definition => exact ih present conditional

end Tables

-- The statement that gave the table of its name the columns that it ends up with.
def Standing (statements : List SchemaStatement) (ct : CreateTable) : Prop :=
  ∃ before after,statements = before ++ .createTable ct :: after ∧
    (ct.ifNotExists = true → ∀ other ∈ tablesOf before,objectNameToKey other.name ≠ objectNameToKey ct.name) ∧
      ∀ other ∈ tablesOf after,objectNameToKey other.name = objectNameToKey ct.name → other.ifNotExists = true

theorem standing_table (dialect : SqlDialect) {statements : List SchemaStatement} {ct : CreateTable}
    (standing : Standing statements ct) (domains : AHashMap DomainDef) :
    (statements.foldl (tablesAfter dialect domains) ∅).lookup (objectNameToKey ct.name) =
      some ⟨columnsFor dialect domains ct,objectNameToRawName ct.name⟩ := by
  obtain ⟨before,after,rfl,first,last⟩ := standing
  have new : ¬(ct.ifNotExists = true ∧
      objectNameToKey ct.name ∈ before.foldl (tablesAfter dialect domains) (∅ : AHashMap Table)) := by
    rintro ⟨conditional,present⟩
    rcases mem_tablesAfter.mp present with nothing | ⟨other,earlier,same⟩
    · exact AList.notMem_empty _ nothing
    · exact first conditional other earlier same
  rw [List.foldl_append,List.foldl_cons,tablesAfter,if_neg new,table_kept ((AList.mem_insert _).mpr (.inl rfl)) last,
    AList.lookup_insert]


def labelled (column : Column) : String × String := (column.name,column.sqlType)

omit [CaseMap] [Printer] in
theorem markPrimaryKey_labelled (force : Bool) (name : String) (columns : List Column) :
    (markPrimaryKey force name columns).map labelled = columns.map labelled := by
  induction columns with
  | nil => rfl
  | cons column columns ih =>
    rw [markPrimaryKey]
    split
    · rfl
    · rw [List.map_cons,ih,List.map_cons]

theorem constraints_labelled (dialect : SqlDialect) (ct : CreateTable) (constraints : List TableConstraint)
    (columns : List Column) :
    (constraints.foldl (applyConstraint dialect ct) columns).map labelled = columns.map labelled := by
  induction constraints generalizing columns with
  | nil => rfl
  | cons constraint constraints ih =>
    rw [List.foldl_cons,ih]
    cases constraint with
    | other => rfl
    | primaryKey pkColumns =>
      rw [applyConstraint]
      generalize constraintForcesNotNull dialect ct pkColumns = force
      induction pkColumns generalizing columns with
      | nil => rfl
      | cons expr pkColumns onKeys => rw [List.foldl_cons,onKeys,markPrimaryKey_labelled]

-- A column of the table by its place in the statement.
theorem inline_column {dialect : SqlDialect} {ct : CreateTable} {index : Nat} {colDef : ColumnDef}
    {labels : List String} (domains : AHashMap DomainDef) (place : ct.columns[index]? = some colDef)
    (inline : inlineEnum dialect colDef.dataType = some labels) :
    ∃ column,(columnsFor dialect domains ct)[index]? = some column ∧ column.name = identToLower colDef.name ∧
      column.sqlType = inlineKey ct colDef := by
  have same := congrArg (·[index]?) (constraints_labelled dialect ct ct.constraints
    (ct.columns.map (columnFor dialect domains ct)))
  simp only [List.getElem?_map,place,Option.map_some] at same
  obtain ⟨column,here,is⟩ := Option.map_eq_some_iff.mp same
  have name := congrArg Prod.fst is
  have type := congrArg Prod.snd is
  exact ⟨column,here,name.trans (columnFor_name dialect domains ct colDef),
    type.trans (columnFor_sqlType inline domains ct)⟩

-- The name that sql_type_to_neutral looks up, where the text is no type of its own.
def readName (key : String) : String := stripPrecision (CaseMap.lowercase key)

structure ReadsAsName (dialect : SqlDialect) (key : String) : Prop where
  bit : bitTypeToNeutral (CaseMap.lowercase key) dialect = none
  number : numberTypeToNeutral (CaseMap.lowercase key) = none
  named : namedType dialect (readName key) = none
  single : stripSuffix (readName key) "[]" = none

omit [CaseMap] [Printer] in
theorem no_enum {neutral key : String} (head : neutral.toList.head? ≠ some 'e') : neutral ≠ "enum::" ++ key := by
  intro same
  apply head
  rw [same]
  simp

omit [CaseMap] [Printer] in
theorem named_no_enum {dialect : SqlDialect} {name neutral : String} (key : String)
    (named : namedType dialect name = some neutral) : neutral ≠ "enum::" ++ key := by
  obtain ⟨arm,found,rfl⟩ := Option.map_eq_some_iff.mp named
  have heads : ∀ arm ∈ namedTypes,arm.2.2.toList.head? ≠ some 'e' := by decide +kernel
  exact no_enum (heads arm (List.mem_of_find?_eq_some found))

omit [CaseMap] [Printer] in
theorem bit_no_enum {dialect : SqlDialect} {lower neutral : String} (key : String)
    (bit : bitTypeToNeutral lower dialect = some neutral) : neutral ≠ "enum::" ++ key := by
  simp only [bitTypeToNeutral,Option.bind_eq_bind,Option.bind_eq_some_iff] at bit
  obtain ⟨_,_,_,_,_,_,is⟩ := bit
  split at is
  · cases is
    exact no_enum (by decide)
  · split at is
    · cases is
      exact no_enum (by decide)
    · cases is
      exact no_enum (by decide)

omit [CaseMap] [Printer] in
theorem number_no_enum {lower neutral : String} (key : String) (number : numberTypeToNeutral lower = some neutral) :
    neutral ≠ "enum::" ++ key := by
  simp only [numberTypeToNeutral,Option.bind_eq_bind,Option.bind_eq_some_iff] at number
  obtain ⟨_,_,_,_,_,_,_,_,is⟩ := number
  split at is
  · cases is
    exact no_enum (by decide)
  · cases is

omit [Printer] in
theorem inner_array {catalog : Catalog} (noDomains : catalog.domains = ∅) {sqlType inner : String}
    (on : innerType catalog sqlType = some inner) : (stripSuffix (readName sqlType) "[]").isSome := by
  have none' : catalog.getDomainBaseType (readName sqlType) = none := by
    rw [Catalog.getDomainBaseType,lookupQualified_key,noDomains]
    cases resolvedKey (∅ : AHashMap DomainDef) (readName sqlType) catalog.searchPath with
    | none => rfl
    | some key => simp
  unfold innerType at on
  dsimp only at on
  split at on
  · cases on
  · split at on
    · cases on
    · split at on
      · cases on
      · split at on
        · rename_i stripped
          rw [readName,stripped]
          rfl
        · rw [← readName,none'] at on
          cases on

omit [Printer] in
theorem leaf_enum {catalog : Catalog} {key : String} (last : innerType catalog key = none)
    (reads : leafType catalog key = "enum::" ++ readName key) :
    ReadsAsName catalog.dialect key ∧ (catalog.getEnum (readName key)).isSome := by
  unfold leafType at reads
  dsimp only at reads
  split at reads
  · rename_i bit
    exact absurd reads (bit_no_enum _ bit)
  · rename_i bit
    split at reads
    · rename_i number
      exact absurd reads (number_no_enum _ number)
    · rename_i number
      split at reads
      · rename_i named
        exact absurd reads (named_no_enum _ named)
      · rename_i named
        split at reads
        · rename_i held
          refine ⟨⟨bit,number,named,?_⟩,held⟩
          cases single : stripSuffix (readName key) "[]" with
          | none => rfl
          | some inner =>
            rw [readName] at single
            have array : innerType catalog key = some inner := by simp [innerType,bit,number,named,single]
            rw [array] at last
            cases last
        · split at reads
          · exact absurd reads (no_enum (by simp [toString]))
          · have same := congrArg String.length reads
            rw [← readName,String.length_append] at same
            simp at same

-- What a text that reads as the name of an enum has to be like.
omit [Printer] in
theorem reads_enum_iff {catalog : Catalog} (noDomains : catalog.domains = ∅) (key : String) :
    sqlTypeToNeutral key catalog = "enum::" ++ readName key ↔
      ReadsAsName catalog.dialect key ∧ (catalog.getEnum (readName key)).isSome := by
  rw [sqlTypeToNeutral,typeDepth,within_succ]
  constructor
  · intro reads
    cases on : innerType catalog key with
    | some inner =>
      have array := inner_array noDomains on
      rw [readName] at array
      rw [on] at reads
      dsimp only at reads
      rw [outerType,if_pos array] at reads
      exact absurd reads (no_enum (by simp [toString]))
    | none =>
      rw [on] at reads
      exact leaf_enum on reads
  · rintro ⟨⟨bit,number,named,single⟩,held⟩
    have last : innerType catalog key = none := by
      cases on : innerType catalog key with
      | none => rfl
      | some inner =>
        have array := inner_array noDomains on
        rw [single] at array
        cases array
    rw [readName] at named held ⊢
    rw [last]
    simp only [leafType,bit,number,named,held,if_true]
    rfl

-- Each inline enum of a table that stands is what the type of its column reads as,
-- with the labels that are written on the column; and no enum that was created
-- under a name has lost its labels to another.
structure KeepsLabels (dialect : SqlDialect) (statements : List SchemaStatement) (result : Catalog) : Prop where
  inline : ∀ ct : CreateTable,Standing statements ct →
    ∀ (index : Nat) (colDef : ColumnDef) (labels : List String),
      ct.columns[index]? = some colDef → inlineEnum dialect colDef.dataType = some labels →
      ∃ (table : Table) (column : Column),result.tables.lookup (objectNameToKey ct.name) = some table ∧
        table.columns[index]? = some column ∧ column.name = identToLower colDef.name ∧
          sqlTypeToNeutral column.sqlType result = "enum::" ++ readName column.sqlType ∧
            result.getEnum (readName column.sqlType) = some ⟨labels⟩
  explicit : ∀ entry,Stands (explicitEnums statements) entry → result.enums.lookup entry.1 = some entry.2

-- No key is shared with a later enum of other labels, or hidden by a built-in type.
structure LabelKeysApart (dialect : SqlDialect) (statements : List SchemaStatement) : Prop where
  inline : ∀ ct,Standing statements ct → ∀ colDef ∈ ct.columns,∀ labels,
    inlineEnum dialect colDef.dataType = some labels →
      ReadsAsName dialect (inlineKey ct colDef) ∧
        ∃ key,some key = resolvedKey (write ∅ (statements.flatMap (writtenEnums dialect)))
            (readName (inlineKey ct colDef)) none ∧
          ∀ last,Stands (statements.flatMap (writtenEnums dialect)) (key,last) → last = ⟨labels⟩
  explicit : ∀ entry,Stands (explicitEnums statements) entry →
    ∀ last,Stands (statements.flatMap (writtenEnums dialect)) (entry.1,last) → last = entry.2

omit [Printer] in
theorem explicit_written {dialect : SqlDialect} {statements : List SchemaStatement} {entry : String × EnumType}
    (member : entry ∈ explicitEnums statements) : entry ∈ statements.flatMap (writtenEnums dialect) := by
  obtain ⟨type,isEnum,rfl⟩ := List.mem_map.mp member
  obtain ⟨statement,inside,is⟩ := List.mem_filterMap.mp isEnum
  apply List.mem_flatMap.mpr
  refine ⟨statement,inside,?_⟩
  split at is
  · cases is
    exact List.mem_singleton_self _
  · cases is

omit [Printer] in
theorem getEnum_iff {catalog : Catalog} {writes : List (String × EnumType)} {name : String} {labels : EnumType}
    (enums : catalog.enums = write ∅ writes) (path : catalog.searchPath = none) :
    catalog.getEnum name = some labels ↔
      ∃ key,some key = resolvedKey (write ∅ writes) name none ∧
        ∀ last,Stands writes (key,last) → last = labels := by
  rw [Catalog.getEnum,lookupQualified_key,enums,path,Option.bind_eq_some_iff]
  constructor
  · rintro ⟨key,resolved,held⟩
    have written := (mem_write.mp (resolvedKey_registered resolved)).resolve_left (AList.notMem_empty key)
    exact ⟨key,resolved.symm,(holds_iff written).mp held⟩
  · rintro ⟨key,resolved,only⟩
    have written := (mem_write.mp (resolvedKey_registered resolved.symm)).resolve_left (AList.notMem_empty key)
    exact ⟨key,resolved.symm,(holds_iff written).mpr only⟩

theorem labels_kept_iff {dialect : SqlDialect} {statements : List SchemaStatement} {result : Catalog}
    (done : statements.foldlM (processStatement dialect) (Catalog.new dialect) = .ok result) :
    KeepsLabels dialect statements result ↔ LabelKeysApart dialect statements := by
  have ran := run_leaves done
  have noDomains : result.domains = ∅ := ran.domains
  have dialectSame : result.dialect = dialect := ran.dialect
  have enums : result.enums = write ∅ (statements.flatMap (writtenEnums dialect)) := ran.enums
  have reading (name : String) (labels : List String) :=
    @getEnum_iff _ _ _ name ⟨labels⟩ enums ran.searchPath
  have explicitly (entry : String × EnumType) (stands : Stands (explicitEnums statements) entry) :
      result.enums.lookup entry.1 = some entry.2 ↔
        ∀ last,Stands (statements.flatMap (writtenEnums dialect)) (entry.1,last) → last = entry.2 := by
    rw [enums]
    exact holds_iff ⟨entry,explicit_written (stands_mem stands),rfl⟩
  constructor
  · intro keeps
    refine ⟨?_,fun entry stands => (explicitly entry stands).mp (keeps.explicit entry stands)⟩
    intro ct standing colDef member labels inline
    obtain ⟨index,place⟩ := List.mem_iff_getElem?.mp member
    obtain ⟨table,column,isTable,here,_,reads,held⟩ := keeps.inline ct standing index colDef labels place inline
    rw [ran.tables] at isTable
    cases isTable.symm.trans (standing_table dialect standing _)
    obtain ⟨other,there,_,type⟩ := inline_column (Catalog.new dialect).domains place inline
    have same : column = other := Option.some.inj (here.symm.trans there)
    rw [same,type] at reads held
    have name := ((reads_enum_iff noDomains _).mp reads).1
    rw [dialectSame] at name
    exact ⟨name,(reading _ labels).mp held⟩
  · intro apart
    refine ⟨?_,fun entry stands => (explicitly entry stands).mpr (apart.explicit entry stands)⟩
    intro ct standing index colDef labels place inline
    obtain ⟨name,found⟩ := apart.inline ct standing colDef (List.mem_of_getElem? place) labels inline
    have held := (reading _ labels).mpr found
    obtain ⟨column,there,named,type⟩ := inline_column (Catalog.new dialect).domains place inline
    refine ⟨_,column,(congrArg _ ran.tables).trans (standing_table dialect standing _),there,named,?_,?_⟩
    · rw [type]
      exact (reads_enum_iff noDomains _).mpr ⟨dialectSame.symm ▸ name,Option.isSome_of_eq_some held⟩
    · rw [type]
      exact held

end

section Statuses
local instance inlineCase : CaseMap := ascii
local instance inlinePrinter : Printer := ⟨fun _ => "",fun _ => "",fun _ => ""⟩

def enumTable (table column : String) (labels : List String) : CreateTable :=
  ⟨[.identifier ⟨table,false⟩],[⟨⟨column,false⟩,.enum labels,[]⟩],[],true,false,false⟩

def enumCatalog (tables : List CreateTable) : Catalog :=
  tables.foldl (processCreateTable .mySQL) (Catalog.new .mySQL)

theorem created_again :
    SameContents (processCreateTable .mySQL (enumCatalog [enumTable "users" "status" ["new"]])
      (enumTable "users" "status" ["new"])) (enumCatalog [enumTable "users" "status" ["new"]]) := by
  refine (if_not_exists_frame_iff .mySQL (enumCatalog [enumTable "users" "status" ["new"]])
    (enumTable "users" "status" ["new"]) rfl (by decide)).mpr ?_
  intro entry stands
  cases List.mem_singleton.mp (stands_mem stands)
  rfl

-- The table keeps its column, and the column's enum gets the labels of a
-- statement that creates nothing.
theorem created_with_other_labels :
    objectNameToKey (enumTable "users" "status" ["old"]).name ∈
        (enumCatalog [enumTable "users" "status" ["new"]]).tables ∧
      ¬SameContents (processCreateTable .mySQL (enumCatalog [enumTable "users" "status" ["new"]])
        (enumTable "users" "status" ["old"])) (enumCatalog [enumTable "users" "status" ["new"]]) := by
  refine ⟨by decide,?_⟩
  intro same
  exact absurd (same.enums "users_status") (by decide)

theorem status_kept :
    KeepsLabels .mySQL [.createTable (enumTable "users" "status" ["new"])]
      (enumCatalog [enumTable "users" "status" ["new"]]) := by
  refine (@labels_kept_iff _ _ .mySQL [.createTable (enumTable "users" "status" ["new"])] _ rfl).mpr ⟨?_,?_⟩
  · intro ct standing colDef member labels inline
    obtain ⟨before,after,is,_⟩ := standing
    have one : ct = enumTable "users" "status" ["new"] := by
      have inside : SchemaStatement.createTable ct ∈ [.createTable (enumTable "users" "status" ["new"])] := by
        rw [is]
        simp
      cases List.mem_singleton.mp inside
      rfl
    subst one
    cases List.mem_singleton.mp member
    cases inline
    refine ⟨⟨rfl,rfl,rfl,rfl⟩,"users_status",rfl,?_⟩
    intro last stands
    cases List.mem_singleton.mp (stands_mem stands)
    rfl
  · intro entry stands
    cases stands_mem stands

-- Two tables whose columns get one key: the enum of both is that of the later one.
def userEvents : List CreateTable :=
  [enumTable "user" "event_kind" ["login"],enumTable "user_event" "kind" ["click"]]

theorem status_overwritten :
    (userEvents.map .createTable).foldlM (processStatement .mySQL) (Catalog.new .mySQL) =
        .ok (enumCatalog userEvents) ∧
      ¬KeepsLabels .mySQL (userEvents.map .createTable) (enumCatalog userEvents) := by
  refine ⟨rfl,?_⟩
  intro keeps
  have standing : Standing (userEvents.map .createTable) (enumTable "user" "event_kind" ["login"]) := by
    refine ⟨[],[.createTable (enumTable "user_event" "kind" ["click"])],rfl,?_,?_⟩
    · intro _ _ earlier
      cases earlier
    · intro other later _
      cases List.mem_singleton.mp later
      rfl
  obtain ⟨table,column,isTable,here,_,_,held⟩ := keeps.inline _ standing 0 _ ["login"] rfl rfl
  cases isTable
  cases here
  exact absurd held (by decide)

end Statuses
end Scythe
