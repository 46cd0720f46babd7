import Scythe.Ddl
import Scythe.Lib.Register

-- What a schema text declares, read off its statements without running them,
-- and the run of the statements that registers just that.
namespace Scythe
open Text Register

def declaresNull : ColumnOption → Bool
  | .null => true
  | _ => false

section
variable [CaseMap] [Printer]

def declaresNotNull (forcesNotNull : Bool) : ColumnOption → Bool
  | .notNull => true
  | .primaryKey => forcesNotNull
  | .dialectSpecific tokens => isAutoIncrement tokens
  | _ => false

theorem applyOption_primaryKey (forces : Bool) (traits : ColumnTraits) (option : ColumnOption) :
    (applyOption forces traits option).primaryKey = (traits.primaryKey || option.isPrimaryKey) := by
  unfold applyOption ColumnOption.isPrimaryKey
  split <;> simp
  split <;> rfl

theorem options_primaryKey (forces : Bool) (options : List ColumnOption) (traits : ColumnTraits) :
    (options.foldl (applyOption forces) traits).primaryKey =
      (traits.primaryKey || options.any ColumnOption.isPrimaryKey) := by
  induction options generalizing traits with
  | nil => simp
  | cons option options ih =>
    rw [List.foldl_cons,ih,applyOption_primaryKey,List.any_cons,Bool.or_assoc]

-- An automatic increment leaves its own mark, which the column's end reads again.
def Consistent (traits : ColumnTraits) : Prop := traits.isAutoIncrement = true → traits.nullable = false

theorem applyOption_nullable {forces : Bool} {traits : ColumnTraits} {option : ColumnOption}
    (plain : declaresNull option = false) (consistent : Consistent traits) :
    (applyOption forces traits option).nullable = (traits.nullable && !declaresNotNull forces option) ∧
      Consistent (applyOption forces traits option) := by
  unfold Consistent at consistent ⊢
  cases option with
  | null => cases plain
  | primaryKey =>
    cases forces with
    | true => simp [applyOption,declaresNotNull]
    | false => simpa [applyOption,declaresNotNull] using consistent
  | generated expr => cases expr <;> simpa [applyOption,declaresNotNull] using consistent
  | dialectSpecific tokens =>
    cases auto : isAutoIncrement tokens with
    | true => simp [applyOption,declaresNotNull,auto]
    | false => simpa [applyOption,declaresNotNull,auto] using consistent
  | notNull => simp [applyOption,declaresNotNull]
  | _ => simpa [applyOption,declaresNotNull] using consistent

theorem options_nullable {forces : Bool} {options : List ColumnOption} {traits : ColumnTraits}
    (plain : options.any declaresNull = false) (consistent : Consistent traits) :
    (options.foldl (applyOption forces) traits).nullable =
        (traits.nullable && !options.any (declaresNotNull forces)) ∧
      Consistent (options.foldl (applyOption forces) traits) := by
  induction options generalizing traits with
  | nil => simpa using consistent
  | cons option options ih =>
    rw [List.any_cons,Bool.or_eq_false_iff] at plain
    obtain ⟨nullable,kept⟩ := @applyOption_nullable _ _ forces _ _ plain.1 consistent
    obtain ⟨rest,done⟩ := ih plain.2 kept
    rw [List.foldl_cons,rest,nullable,List.any_cons]
    exact ⟨by simp [Bool.and_assoc],done⟩

-- Nothing but an option that forbids NULL forbids it.
theorem options_stay_nullable {forces : Bool} {options : List ColumnOption} {traits : ColumnTraits}
    (free : options.any (declaresNotNull forces) = false) (nullable : traits.nullable = true)
    (manual : traits.isAutoIncrement = false) :
    (options.foldl (applyOption forces) traits).nullable = true ∧
      (options.foldl (applyOption forces) traits).isAutoIncrement = false := by
  induction options generalizing traits with
  | nil => exact ⟨nullable,manual⟩
  | cons option options ih =>
    rw [List.any_cons,Bool.or_eq_false_iff] at free
    obtain ⟨here,later⟩ := free
    have kept : (applyOption forces traits option).nullable = true ∧
        (applyOption forces traits option).isAutoIncrement = false := by
      cases option with
      | notNull => cases here
      | primaryKey =>
        have unforced : forces = false := here
        simpa [applyOption,unforced] using ⟨nullable,manual⟩
      | generated expr => cases expr <;> exact ⟨nullable,manual⟩
      | dialectSpecific tokens =>
        have none : isAutoIncrement tokens = false := here
        simpa [applyOption,none] using ⟨nullable,manual⟩
      | null => exact ⟨rfl,manual⟩
      | _ => exact ⟨nullable,manual⟩
    exact ih later kept.1 kept.2

-- NULL is not written beside what forbids it.
def NullAlone (forces isSerial : Bool) (options : List ColumnOption) : Prop :=
  options.any declaresNull = true → isSerial = false ∧ options.any (declaresNotNull forces) = false

theorem columnTraits_declared {forces isSerial : Bool} {options : List ColumnOption}
    (alone : NullAlone forces isSerial options) :
    (columnTraits forces isSerial options).nullable = !(isSerial || options.any (declaresNotNull forces)) ∧
      (columnTraits forces isSerial options).primaryKey = options.any ColumnOption.isPrimaryKey := by
  have key := options_primaryKey forces options ⟨!isSerial,none,false,false⟩
  by_cases written : options.any declaresNull = true
  · obtain ⟨unforced,free⟩ := alone written
    have start : (⟨!isSerial,none,false,false⟩ : ColumnTraits).nullable = true := by rw [unforced]; rfl
    obtain ⟨nullable,manual⟩ := options_stay_nullable free start rfl
    rw [columnTraits,manual]
    exact ⟨by simpa [unforced,free] using nullable,by simpa using key⟩
  have plain : options.any declaresNull = false := Bool.eq_false_of_not_eq_true written
  have start : Consistent ⟨!isSerial,none,false,false⟩ := fun auto => nomatch auto
  obtain ⟨nullable,consistent⟩ := @options_nullable _ _ forces _ _ plain start
  rw [columnTraits]
  cases auto : (options.foldl (applyOption forces) ⟨!isSerial,none,false,false⟩).isAutoIncrement with
  | true =>
    have off := consistent auto
    rw [nullable] at off
    refine ⟨?_,by simpa using key⟩
    simpa using off.symm
  | false => exact ⟨by simpa using nullable,by simpa using key⟩

-- A constraint marks the columns it names, whatever the order.
def listsColumn (name : String) : TableConstraint → Bool
  | .primaryKey columns => columns.any fun expr => pkColumnName expr = name
  | .other => false

def constraintForces (dialect : SqlDialect) (ct : CreateTable) : TableConstraint → Bool
  | .primaryKey columns => constraintForcesNotNull dialect ct columns
  | .other => false

def marked (mark : String × Bool) (column : Column) : Column :=
  if column.name = mark.1 then
    { column with primaryKey := true, nullable := if mark.2 then false else column.nullable }
  else column

omit [CaseMap] [Printer] in
@[simp] theorem marked_name (mark : String × Bool) (column : Column) : (marked mark column).name = column.name := by
  unfold marked
  split <;> rfl

omit [CaseMap] [Printer] in
theorem markPrimaryKey_eq {force : Bool} {name : String} {columns : List Column}
    (distinct : (columns.map (·.name)).Nodup) :
    markPrimaryKey force name columns = columns.map (marked (name,force)) := by
  induction columns with
  | nil => rfl
  | cons column columns ih =>
    rw [List.map_cons,List.nodup_cons] at distinct
    rw [markPrimaryKey,List.map_cons]
    split
    next same =>
      have others : columns.map (marked (name,force)) = columns := by
        have untouched : ∀ other ∈ columns, marked (name,force) other = other := by
          intro other member
          have differs : other.name ≠ name := by
            intro equal
            exact distinct.1 (List.mem_map.mpr ⟨other,member,equal.trans same.symm⟩)
          exact if_neg differs
        exact (List.map_congr_left untouched).trans (List.map_id columns)
      rw [others]
      simp [marked,same]
    next differs =>
      rw [ih distinct.2]
      simp [marked,differs]

def marks (dialect : SqlDialect) (ct : CreateTable) : TableConstraint → List (String × Bool)
  | .primaryKey columns => columns.map fun expr => (pkColumnName expr,constraintForcesNotNull dialect ct columns)
  | .other => []

omit [CaseMap] [Printer] in
theorem marks_apply {marks : List (String × Bool)} {columns : List Column}
    (distinct : (columns.map (·.name)).Nodup) :
    marks.foldl (fun columns mark => markPrimaryKey mark.2 mark.1 columns) columns =
      columns.map fun column => marks.foldl (fun column mark => marked mark column) column := by
  induction marks generalizing columns with
  | nil => simp
  | cons mark marks ih =>
    have same : (columns.map (marked mark)).map (·.name) = columns.map (·.name) := by
      rw [List.map_map]
      exact List.map_congr_left fun column _ => marked_name mark column
    rw [List.foldl_cons,markPrimaryKey_eq distinct,ih (by rw [same]; exact distinct),List.map_map]
    rfl

theorem applyConstraint_eq (dialect : SqlDialect) (ct : CreateTable) (columns : List Column)
    (constraint : TableConstraint) :
    applyConstraint dialect ct columns constraint =
      (marks dialect ct constraint).foldl (fun columns mark => markPrimaryKey mark.2 mark.1 columns) columns := by
  cases constraint with
  | primaryKey pkColumns => rw [applyConstraint,marks,List.foldl_map]
  | other => rfl

theorem constraints_apply {dialect : SqlDialect} {ct : CreateTable} {constraints : List TableConstraint}
    {columns : List Column} (distinct : (columns.map (·.name)).Nodup) :
    constraints.foldl (applyConstraint dialect ct) columns =
      columns.map fun column =>
        (constraints.flatMap (marks dialect ct)).foldl (fun column mark => marked mark column) column := by
  rw [←marks_apply distinct,List.foldl_flatMap]
  congr 1
  funext columns constraint
  exact applyConstraint_eq dialect ct columns constraint

omit [CaseMap] [Printer] in
theorem marks_meaning (marks : List (String × Bool)) (column : Column) :
    marks.foldl (fun column mark => marked mark column) column =
      { column with
        primaryKey := column.primaryKey || marks.any (fun mark => mark.1 = column.name)
        nullable := column.nullable && !marks.any fun mark => mark.1 = column.name && mark.2 } := by
  induction marks generalizing column with
  | nil => simp
  | cons mark marks ih =>
    rw [List.foldl_cons,ih]
    obtain ⟨name,force⟩ := mark
    by_cases same : column.name = name
    · cases force <;> simp [marked,same]
    · have other : ¬name = column.name := fun equal => same equal.symm
      simp [marked,same,other]

def declaredPrimaryKey (ct : CreateTable) (colDef : ColumnDef) : Bool :=
  colDef.options.any ColumnOption.isPrimaryKey || ct.constraints.any (listsColumn (identToLower colDef.name))

def columnForces (dialect : SqlDialect) (ct : CreateTable) (colDef : ColumnDef) : Bool :=
  sqlitePrimaryKeyForcesNotNull dialect ct.withoutRowid ct.strict colDef.dataType.isInteger

def declaredNotNull (dialect : SqlDialect) (domains : AHashMap DomainDef) (ct : CreateTable) (colDef : ColumnDef) :
    Bool :=
  (normalizeDataType domains dialect colDef.dataType).2 ||
    colDef.options.any (declaresNotNull (columnForces dialect ct colDef)) ||
    ct.constraints.any fun constraint =>
      listsColumn (identToLower colDef.name) constraint && constraintForces dialect ct constraint

theorem marks_list (dialect : SqlDialect) (ct : CreateTable) (constraints : List TableConstraint) (name : String) :
    (constraints.flatMap (marks dialect ct)).any (fun mark => mark.1 = name) = constraints.any (listsColumn name) := by
  rw [List.any_flatMap]
  congr 1
  funext constraint
  cases constraint with
  | primaryKey columns => simp [marks,listsColumn,Function.comp_def]
  | other => rfl

theorem marks_force (dialect : SqlDialect) (ct : CreateTable) (constraints : List TableConstraint) (name : String) :
    (constraints.flatMap (marks dialect ct)).any (fun mark => mark.1 = name && mark.2) =
      constraints.any fun constraint => listsColumn name constraint && constraintForces dialect ct constraint := by
  rw [List.any_flatMap]
  congr 1
  funext constraint
  cases constraint with
  | primaryKey columns =>
    cases forced : constraintForcesNotNull dialect ct columns <;>
      simp [marks,listsColumn,constraintForces,forced,Function.comp_def]
  | other => rfl

-- Each kind of statement registers in a map of its own, by the domains there are.
def columnOf (dialect : SqlDialect) (domains : AHashMap DomainDef) (ct : CreateTable) (colDef : ColumnDef) : Column :=
  let (sqlType,isSerial) := normalizeDataType domains dialect colDef.dataType
  let traits := columnTraits (columnForces dialect ct colDef) isSerial colDef.options
  ⟨identToLower colDef.name,sqlType,traits.nullable,traits.default,traits.primaryKey⟩

def tableOf (dialect : SqlDialect) (domains : AHashMap DomainDef) (ct : CreateTable) : Table where
  columns := ct.constraints.foldl (applyConstraint dialect ct) (ct.columns.map (columnOf dialect domains ct))
  rawName := objectNameToRawName ct.name

theorem tableOf_columns {dialect : SqlDialect} {domains : AHashMap DomainDef} {ct : CreateTable}
    (distinct : (ct.columns.map fun colDef => identToLower colDef.name).Nodup)
    (alone : ∀ colDef ∈ ct.columns, NullAlone (columnForces dialect ct colDef)
      (normalizeDataType domains dialect colDef.dataType).2 colDef.options) :
    (tableOf dialect domains ct).columns = ct.columns.map fun colDef =>
      { columnOf dialect domains ct colDef with
        primaryKey := declaredPrimaryKey ct colDef
        nullable := !declaredNotNull dialect domains ct colDef } := by
  have names : (ct.columns.map (columnOf dialect domains ct)).map (·.name) =
      ct.columns.map fun colDef => identToLower colDef.name := by
    rw [List.map_map]
    rfl
  rw [tableOf,constraints_apply (by rw [names]; exact distinct),List.map_map]
  apply List.map_congr_left
  intro colDef member
  obtain ⟨nullable,key⟩ := columnTraits_declared (alone colDef member)
  rw [Function.comp_apply,marks_meaning]
  have name : (columnOf dialect domains ct colDef).name = identToLower colDef.name := rfl
  have isKey : (columnOf dialect domains ct colDef).primaryKey = colDef.options.any ColumnOption.isPrimaryKey := key
  have isNullable : (columnOf dialect domains ct colDef).nullable =
      !((normalizeDataType domains dialect colDef.dataType).2 ||
        colDef.options.any (declaresNotNull (columnForces dialect ct colDef))) := nullable
  rw [name,marks_list,marks_force,isKey,isNullable,declaredPrimaryKey,declaredNotNull,←Bool.not_or]
  rfl

def registerTable (dialect : SqlDialect) (domains : AHashMap DomainDef) (tables : AHashMap Table) (ct : CreateTable) :
    AHashMap Table :=
  if ct.ifNotExists ∧ objectNameToKey ct.name ∈ tables then tables
  else tables.insert (objectNameToKey ct.name) (tableOf dialect domains ct)

def registerEnum (enums : AHashMap EnumType) (type : ObjectName × List Ident) : AHashMap EnumType :=
  enums.insert (objectNameToKey type.1) ⟨type.2.map (·.value)⟩

def compositeOf (dialect : SqlDialect) (domains : AHashMap DomainDef) (attributes : List (Ident × DataType)) :
    CompositeType where
  fields := attributes.map fun (name,dataType) =>
    ⟨identToLower name,(normalizeDataType domains dialect dataType).1,true⟩

def registerComposite (dialect : SqlDialect) (domains : AHashMap DomainDef) (composites : AHashMap CompositeType)
    (type : ObjectName × List (Ident × DataType)) : AHashMap CompositeType :=
  composites.insert (objectNameToKey type.1) (compositeOf dialect domains type.2)

def registerFunction (dialect : SqlDialect) (domains : AHashMap DomainDef)
    (functions : AHashMap (List CatalogFunction)) (definition : CreateFunction) :
    Except ScytheError (AHashMap (List CatalogFunction)) :=
  (processCreateFunction dialect { Catalog.new dialect with domains, functions } definition).map (·.functions)

def tablesOf (statements : List SchemaStatement) : List CreateTable :=
  statements.filterMap fun
    | .createTable table => some table
    | _ => none

def enumsOf (statements : List SchemaStatement) : List (ObjectName × List Ident) :=
  statements.filterMap fun
    | .createType name (.enum labels) => some (name,labels)
    | _ => none

def compositesOf (statements : List SchemaStatement) : List (ObjectName × List (Ident × DataType)) :=
  statements.filterMap fun
    | .createType name (.composite attributes) => some (name,attributes)
    | _ => none

def functionsOf (statements : List SchemaStatement) : List CreateFunction :=
  statements.filterMap fun
    | .createFunction definition => some definition
    | _ => none

def NoInlineEnums (dialect : SqlDialect) (ct : CreateTable) : Prop :=
  ∀ colDef ∈ ct.columns, inlineEnum dialect colDef.dataType = none

theorem processColumns_eq {dialect : SqlDialect} {ct : CreateTable} {tableName : String} {catalog : Catalog}
    {colDefs : List ColumnDef} (plain : ∀ colDef ∈ colDefs, inlineEnum dialect colDef.dataType = none)
    (columns : List Column) :
    colDefs.foldl (processColumn dialect ct tableName) (catalog,columns) =
      (catalog,columns ++ colDefs.map (columnOf dialect catalog.domains ct)) := by
  induction colDefs generalizing columns with
  | nil => simp
  | cons colDef colDefs ih =>
    have head : inlineEnum dialect colDef.dataType = none := plain colDef List.mem_cons_self
    have step : processColumn dialect ct tableName (catalog,columns) colDef =
        (catalog,columns ++ [columnOf dialect catalog.domains ct colDef]) := by
      simp only [processColumn,head,columnOf,columnForces]
    rw [List.foldl_cons,step,ih fun colDef member => plain colDef (List.mem_cons_of_mem _ member)]
    simp

theorem processCreateTable_eq {dialect : SqlDialect} {catalog : Catalog} {ct : CreateTable}
    (plain : NoInlineEnums dialect ct) :
    processCreateTable dialect catalog ct =
      { catalog with tables := registerTable dialect catalog.domains catalog.tables ct } := by
  simp only [processCreateTable,processColumns_eq plain,List.nil_append,registerTable]
  split
  next => rfl
  next => rfl

theorem processCreateFunction_eq (dialect : SqlDialect) (catalog : Catalog) (definition : CreateFunction) :
    processCreateFunction dialect catalog definition =
      (registerFunction dialect catalog.domains catalog.functions definition).map fun functions =>
        { catalog with functions } := by
  unfold registerFunction processCreateFunction
  dsimp only
  split
  next => rfl
  next =>
    split
    next =>
      split
      next => rfl
      next =>
        split
        next => rfl
        next => rfl
    next => rfl

theorem processStatements_eq {dialect : SqlDialect} {statements : List SchemaStatement} {catalog result : Catalog}
    (plain : ∀ ct ∈ tablesOf statements, NoInlineEnums dialect ct)
    (done : statements.foldlM (processStatement dialect) catalog = .ok result) :
    ∃ functions,
      (functionsOf statements).foldlM (registerFunction dialect catalog.domains) catalog.functions = .ok functions ∧
      result = { catalog with
        tables := (tablesOf statements).foldl (registerTable dialect catalog.domains) catalog.tables
        enums := (enumsOf statements).foldl registerEnum catalog.enums
        composites := (compositesOf statements).foldl (registerComposite dialect catalog.domains) catalog.composites
        functions := functions } := by
  induction statements generalizing catalog with
  | nil =>
    cases done
    exact ⟨result.functions,rfl,rfl⟩
  | cons statement statements ih =>
    rw [List.foldlM_cons] at done
    obtain ⟨middle,first,rest⟩ := bind_ok done
    cases statement with
    | createTable ct =>
      have here : NoInlineEnums dialect ct := plain ct (by simp [tablesOf])
      obtain ⟨functions,run,equal⟩ := ih (fun ct member => plain ct (by
        simp only [tablesOf,List.filterMap_cons,List.mem_cons]
        exact .inr member)) rest
      simp only [processStatement,Except.ok.injEq] at first
      subst first
      rw [processCreateTable_eq here] at run equal
      exact ⟨functions,run,equal⟩
    | createType name representation =>
      obtain ⟨functions,run,equal⟩ := ih plain rest
      simp only [processStatement,Except.ok.injEq] at first
      subst first
      cases representation with
      | enum labels => exact ⟨functions,run,equal⟩
      | composite attributes => exact ⟨functions,run,equal⟩
      | other => exact ⟨functions,run,equal⟩
    | createFunction definition =>
      obtain ⟨functions,run,equal⟩ := ih plain rest
      rw [processStatement,processCreateFunction_eq] at first
      cases registered : registerFunction dialect catalog.domains catalog.functions definition with
      | error failure =>
        rw [registered] at first
        cases first
      | ok registry =>
        rw [registered] at first
        cases first
        refine ⟨functions,?_,equal⟩
        simp only [functionsOf,List.filterMap_cons,List.foldlM_cons,registered]
        exact run

end
end Scythe
