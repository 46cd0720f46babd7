import Scythe.Origins
import Scythe.Fixtures

-- The split of a grouped query's columns, and the column that the fold groups on.
namespace Scythe
open Effect Text

-- The fold looks the key up by its name among all the columns, and a name that
-- it does not find stands for the first column.
def keyIndex (allColumns : List AnalyzedColumn) (keyColumn : String) : Nat :=
  (allColumns.findIdx? fun c => c.name = keyColumn).getD 0

theorem keyIndex_inside {columns : List AnalyzedColumn} (nonempty : columns ≠ []) (keyColumn : String) :
    keyIndex columns keyColumn < columns.length := by
  unfold keyIndex
  cases found : columns.findIdx? fun c => c.name = keyColumn with
  | none => exact List.length_pos_iff.mpr nonempty
  | some i => exact (List.findIdx?_eq_some_iff_getElem.mp found).1

section
variable [CaseMap] [Printer] (catalog : Catalog)

-- A scope and a list over it whose items are the columns of a statement's result.
inductive ProjectsItems : Statement → Scope → List SelectItem → Prop where
  | query {query : Query} {select : Select} {scope : Scope} (leads : Leads query.body select)
      (built : BuiltFrom catalog select.sources scope) : ProjectsItems (.query query) scope select.projection
  | insert {insert : Insert} {tableName : String} {items : List SelectItem} {scope : Scope} {before after : Analyzer}
      (target : insertTarget insert.table = .ok tableName) (returning : insert.returning = some items)
      (built : (buildScopeForTable catalog tableName).run before = some (.ok scope,after)) :
      ProjectsItems (.insert insert) scope items
  | update {update : Update} {items : List SelectItem} {scope : Scope} {before after : Analyzer}
      (returning : update.returning = some items)
      (built : (buildScopeForTable catalog (tableFactorName update.table.relation)).run before = some (.ok scope,after)) :
      ProjectsItems (.update update) scope items
  | delete {delete : Delete} {items : List SelectItem} {scope : Scope} {before after : Analyzer}
      (returning : delete.returning = some items)
      (built : (buildScopeForTable catalog
        ((delete.sources.head?.map fun twj => tableFactorName twj.relation).getD "")).run before = some (.ok scope,after)) :
      ProjectsItems (.delete delete) scope items

def ReadAt (stmt : Statement) (i : Nat) (source : ScopeSource) (column : ScopeColumn) : Prop :=
  ∃ scope items origin,ProjectsItems catalog stmt scope items ∧ (origins scope items)[i]? = some origin ∧
    origin.Reads scope source column

-- The source column of every column of the result that has one. A column without a
-- relation of its own has none.
structure ColumnSources (stmt : Statement) (columns : List AnalyzedColumn) where
  of : Nat → Option (ScopeSource × ScopeColumn)
  tracked : ∀ i col,columns[i]? = some col → col.sourceRelation = (of i).map fun found => found.1.tableName
  read : ∀ i found,of i = some found → ReadAt catalog stmt i found.1 found.2

-- The source is the table, under the name that the lookup finds it by.
def IsTable (table : String) (source : ScopeSource) : Prop :=
  ∃ key,resolvedKey catalog.tables table catalog.searchPath = some key ∧
    resolvedKey catalog.tables source.tableName catalog.searchPath = some key ∧
      ∃ found ∈ catalog.tables.lookup key,source.columns = catalogScopeColumns catalog source.tableName found

namespace ColumnSources

variable {catalog} {stmt : Statement} {columns : List AnalyzedColumn} (sources : ColumnSources catalog stmt columns)

def ComesFrom (table : String) (i : Nat) : Prop := ∃ found ∈ sources.of i,IsTable catalog table found.1

def IsColumn (table name : String) (i : Nat) : Prop :=
  ∃ found ∈ sources.of i,IsTable catalog table found.1 ∧ found.2.name = name

end ColumnSources

-- What is said of the split: both parts hold the columns in order and none is lost,
-- the parent's are those of the table, and the fold groups on the key.
structure FollowsSource {stmt : Statement} {columns : List AnalyzedColumn} (sources : ColumnSources catalog stmt columns)
    (group : GroupByConfig) : Prop where
  parentOrder : group.parentColumns.Sublist columns
  childOrder : group.childColumns.Sublist columns
  whole : (group.parentColumns ++ group.childColumns).Perm columns
  parents : ∀ i col,columns[i]? = some col →
    ((col ∈ group.parentColumns ↔ sources.ComesFrom group.table i) ∧
      (col ∈ group.childColumns ↔ ¬sources.ComesFrom group.table i))
  key : ∃ col ∈ group.parentColumns,columns[keyIndex columns group.keyColumn]? = some col ∧
    sources.IsColumn group.table group.keyColumn (keyIndex columns group.keyColumn)

def tableColumnNames (table : String) : List String :=
  ((catalog.getTable table).map fun t => t.columns.map (·.name)).getD []

-- The names tell the table's columns from the others.
structure NamesFollow {stmt : Statement} {columns : List AnalyzedColumn} (sources : ColumnSources catalog stmt columns)
    (table keyColumn : String) : Prop where
  kept : ∀ i col,columns[i]? = some col → sources.ComesFrom table i → col.name ∈ tableColumnNames catalog table
  apart : ∀ i col,columns[i]? = some col → col.name ∈ tableColumnNames catalog table → sources.ComesFrom table i
  key : sources.IsColumn table keyColumn (keyIndex columns keyColumn)

end

section
variable [CaseMap] [Printer] {catalog : Catalog}

-- A column of the result has no relation, or that of a source column that it reads.
def SourcedBy (scope : Scope) (origin : Origin) (col : AnalyzedColumn) : Prop :=
  col.sourceRelation = none ∨
    ∃ source column,origin.Reads scope source column ∧ col.sourceRelation = some source.tableName

omit [Printer] in
theorem Shows.located {scope : Scope} {origin : Origin} {col : AnalyzedColumn} (shown : Shows scope origin col) :
    SourcedBy scope origin col := by
  obtain ⟨ti,same,computed | ⟨source,column,reads,rfl⟩⟩ := shown
  · exact .inl (same.sourceRelation.trans computed.2)
  · exact .inr ⟨source,column,reads,same.sourceRelation⟩

omit [Printer] in
theorem SourcedBy.keepsSource {scope : Scope} {origin : Origin} {before after : AnalyzedColumn}
    (located : SourcedBy scope origin before) (kept : KeepsSource before after) : SourcedBy scope origin after := by
  unfold SourcedBy
  rw [kept.sourceRelation]
  exact located

omit [Printer] in
theorem HandedOn.located {scope : Scope} {e : Expr} {ti : TypeInfo} (handed : HandedOn scope e ti) (name : String) :
    SourcedBy scope (.expression e) (.fromTypeInfo name ti) := (handed.shows name).located

omit [Printer] in
theorem starOrigins_located (scope within : Scope) :
    List.Forall₂ (SourcedBy scope) (starOrigins within) (returningColumns within) := by
  unfold starOrigins returningColumns
  induction within.sources with
  | nil => exact .nil
  | cons source sources ih =>
    rw [List.flatMap_cons,List.flatMap_cons]
    refine List.rel_append ?_ ih
    rw [List.forall₂_map_left_iff,List.forall₂_map_right_iff,List.forall₂_same]
    intro col _
    exact .inr ⟨source,col,⟨rfl,rfl⟩,rfl⟩

theorem returningItem_located (fuel : Nat) (scope : Scope) (item : SelectItem) :
    (returningItem (methods catalog fuel) scope item).Returns (List.Forall₂ (SourcedBy scope) (itemOrigins scope item)) := by
  have infer := fun e => methods_handsOn catalog fuel e scope
  cases item with
  | unnamedExpr e => exact (infer e).bind fun ti handed => .cons (handed.located _) .nil
  | exprWithAlias e name => exact (infer e).bind fun ti handed => .cons (handed.located _) .nil
  | exprWithAliases e names =>
    apply (infer e).bind
    intro ti handed
    show List.Forall₂ _ (names.map _) (names.map _)
    rw [List.forall₂_map_left_iff,List.forall₂_map_right_iff,List.forall₂_same]
    intro name _
    exact handed.located _
  | wildcard leftOut unread => exact starOrigins_located scope scope
  | qualifiedWildcard kind leftOut unread => exact starOrigins_located scope _

theorem returningItems_located (fuel : Nat) (scope : Scope) (items : List SelectItem) :
    (returningItems (methods catalog fuel) scope items).Returns (List.Forall₂ (SourcedBy scope) (origins scope items)) := by
  induction items with
  | nil => exact .nil
  | cons item items ih =>
    apply (returningItem_located fuel scope item).bind
    intro cols here
    apply ih.bind
    intro others below
    exact List.rel_append here below

theorem analyzeOptionalReturning_located {fuel : Nat} {tableName : String} {returning : Option (List SelectItem)}
    {before after : Analyzer} {columns : List AnalyzedColumn}
    (ran : (analyzeOptionalReturning catalog (methods catalog fuel) tableName returning).run before =
      some (.ok columns,after)) {i : Nat} {col : AnalyzedColumn} (at' : columns[i]? = some col) :
    ∃ items scope origin middle,returning = some items ∧
      (buildScopeForTable catalog tableName).run before = some (.ok scope,middle) ∧
        (origins scope items)[i]? = some origin ∧ SourcedBy scope origin col := by
  cases returning with
  | none =>
    cases ran
    cases at'
  | some items =>
    obtain ⟨scope,middle,built,ran⟩ := analysis_run_bind ran
    obtain ⟨made,_,projected,ran⟩ := analysis_run_bind ran
    obtain ⟨_,_,-,ran⟩ := analysis_run_bind ran
    cases ran
    have located := (returningItems_located fuel scope items).run projected
    obtain ⟨old,oldAt,kept⟩ := getElem_forall₂ (renameColumns_keepsSource made _) at'
    obtain ⟨origin,originAt,shown⟩ := getElem_forall₂ located oldAt
    exact ⟨items,scope,origin,middle,rfl,built,originAt,shown.keepsSource kept⟩

def LocatedIn (catalog : Catalog) (stmt : Statement) (i : Nat) (col : AnalyzedColumn) : Prop :=
  col.sourceRelation = none ∨
    ∃ scope items origin,ProjectsItems catalog stmt scope items ∧ (origins scope items)[i]? = some origin ∧
      SourcedBy scope origin col

theorem analyzeStatement_located {stmt : Statement} {before after : Analyzer} {columns : List AnalyzedColumn}
    (ran : (analyzeStatement catalog stmt).run before = some (.ok columns,after)) {i : Nat} {col : AnalyzedColumn}
    (at' : columns[i]? = some col) : LocatedIn catalog stmt i col := by
  unfold analyzeStatement at ran
  cases stmt with
  | query query =>
    rcases (methods_sourced catalog _).2 query _ _ _ ran i col at' with ⟨-,unsourced⟩ | found
    · exact .inl unsourced
    · obtain ⟨select,scope,origin,leads,built,originAt,shown⟩ := found
      exact .inr ⟨scope,_,origin,.query leads built,originAt,shown.located⟩
  | insert insert =>
    obtain ⟨tableName,_,target,ran⟩ := analysis_run_bind ran
    obtain ⟨_,_,-,ran⟩ := analysis_run_bind ran
    obtain ⟨_,_,-,ran⟩ := analysis_run_bind ran
    obtain ⟨items,scope,origin,middle,returning,built,originAt,shown⟩ := analyzeOptionalReturning_located ran at'
    cases is : insertTarget insert.table with
    | error failure =>
      rw [is] at target
      cases target
    | ok name =>
      rw [is] at target
      cases target
      exact .inr ⟨scope,items,origin,.insert is returning built,originAt,shown⟩
  | update update =>
    obtain ⟨_,_,-,ran⟩ := analysis_run_bind ran
    obtain ⟨_,_,-,ran⟩ := analysis_run_bind ran
    obtain ⟨_,_,-,ran⟩ := analysis_run_bind ran
    obtain ⟨_,_,-,ran⟩ := analysis_run_bind ran
    obtain ⟨items,scope,origin,middle,returning,built,originAt,shown⟩ := analyzeOptionalReturning_located ran at'
    exact .inr ⟨scope,items,origin,.update returning built,originAt,shown⟩
  | delete delete =>
    obtain ⟨_,_,-,ran⟩ := analysis_run_bind ran
    obtain ⟨_,_,-,ran⟩ := analysis_run_bind ran
    obtain ⟨_,_,-,ran⟩ := analysis_run_bind ran
    obtain ⟨items,scope,origin,middle,returning,built,originAt,shown⟩ := analyzeOptionalReturning_located ran at'
    exact .inr ⟨scope,items,origin,.delete returning built,originAt,shown⟩
  | other =>
    cases ran
    cases at'

variable {query : ParsedQuery} {analyzed : AnalyzedQuery}

omit [Printer] in
theorem finish_groupBy {columns : List AnalyzedColumn} {self : Analyzer}
    (finished : finish catalog query columns self = .ok analyzed) :
    resolveGroupBy catalog query analyzed.columns = .ok analyzed.groupBy := by
  unfold finish at finished
  split at finished
  · cases finished
  · simp only [bind,Except.bind] at finished
    split at finished
    · cases finished
    · split at finished
      · cases finished
      · split at finished
        · cases finished
        · rename_i resolved
          cases finished
          exact resolved

theorem analyze_located (is : analyze catalog query = some (.ok analyzed)) {i : Nat} {col : AnalyzedColumn}
    (at' : analyzed.columns[i]? = some col) : LocatedIn catalog query.stmt i col := by
  obtain ⟨columns,self,ran,finished⟩ := analyze_finished is
  obtain ⟨old,oldAt,kept⟩ := finish_keepsSource finished at'
  rcases analyzeStatement_located ran oldAt with unsourced | ⟨scope,items,origin,projects,originAt,shown⟩
  · exact .inl (kept.sourceRelation.trans unsourced)
  · exact .inr ⟨scope,items,origin,projects,originAt,shown.keepsSource kept⟩

-- What analysis records of a column's relation is what the column is read from.
theorem sources_exist (is : analyze catalog query = some (.ok analyzed)) :
    Nonempty (ColumnSources catalog query.stmt analyzed.columns) := by
  classical
  have found : ∀ i,∃ source : Option (ScopeSource × ScopeColumn),
      (∀ col,analyzed.columns[i]? = some col → col.sourceRelation = source.map fun found => found.1.tableName) ∧
        ∀ found,source = some found → ReadAt catalog query.stmt i found.1 found.2 := by
    intro i
    have absent : ∀ found : ScopeSource × ScopeColumn,none = some found → ReadAt catalog query.stmt i found.1 found.2 := by
      intro found is
      cases is
    cases at' : analyzed.columns[i]? with
    | none =>
      refine ⟨none,fun col is => ?_,absent⟩
      cases is
    | some col =>
      rcases analyze_located is at' with unsourced | ⟨scope,items,origin,projects,originAt,located⟩
      · refine ⟨none,fun other is => ?_,absent⟩
        cases is
        exact unsourced
      · rcases located with unsourced | ⟨source,column,reads,relation⟩
        · refine ⟨none,fun other is => ?_,absent⟩
          cases is
          exact unsourced
        · refine ⟨some (source,column),fun other is => ?_,fun found is => ?_⟩
          · cases is
            exact relation
          · cases is
            exact ⟨scope,items,origin,projects,originAt,reads⟩
  choose source tracked read using found
  exact ⟨⟨source,tracked,read⟩⟩

omit [Printer] in
theorem resolveGroupBy_split {value : String} {columns : List AnalyzedColumn} {resolved : Option GroupByConfig}
    (grouped : query.command = .grouped) (annotated : query.annotations.groupBy = some value)
    (done : resolveGroupBy catalog query columns = .ok resolved) :
    ∃ group,resolved = some group ∧ splitOnce value '.' = some (group.table,group.keyColumn) ∧
      group.parentColumns = columns.filter (fun col => col.name ∈ tableColumnNames catalog group.table) ∧
        group.childColumns = columns.filter (fun col => col.name ∉ tableColumnNames catalog group.table) ∧
          group.parentColumns ≠ [] := by
  unfold resolveGroupBy at done
  rw [decide_eq_true grouped,annotated] at done
  dsimp only at done
  cases cut : splitOnce value '.' with
  | none =>
    rw [cut] at done
    cases done
  | some parts =>
    rw [cut] at done
    dsimp only at done
    split at done
    · cases done
    · cases done
      rename_i nonempty
      exact ⟨_,rfl,rfl,rfl,rfl,fun none => nonempty (List.isEmpty_iff.mpr none)⟩

theorem grouped_split_iff {value : String} (is : analyze catalog query = some (.ok analyzed))
    (grouped : query.command = .grouped) (annotated : query.annotations.groupBy = some value)
    (sources : ColumnSources catalog query.stmt analyzed.columns) :
    ∃ group,analyzed.groupBy = some group ∧ splitOnce value '.' = some (group.table,group.keyColumn) ∧
      (FollowsSource catalog sources group ↔ NamesFollow catalog sources group.table group.keyColumn) := by
  obtain ⟨columns,self,-,finished⟩ := analyze_finished is
  obtain ⟨group,resolved,cut,parents,children,nonempty⟩ := resolveGroupBy_split grouped annotated (finish_groupBy finished)
  refine ⟨group,resolved,cut,?_⟩
  have parent : ∀ col ∈ analyzed.columns,
      (col ∈ group.parentColumns ↔ col.name ∈ tableColumnNames catalog group.table) := by
    intro col member
    simp [parents,member]
  have child : ∀ col ∈ analyzed.columns,
      (col ∈ group.childColumns ↔ col.name ∉ tableColumnNames catalog group.table) := by
    intro col member
    simp [children,member]
  constructor
  · intro follows
    constructor
    · intro i col at' comes
      exact (parent col (List.mem_of_getElem? at')).mp ((follows.parents i col at').1.mpr comes)
    · intro i col at' named
      exact (follows.parents i col at').1.mp ((parent col (List.mem_of_getElem? at')).mpr named)
    · obtain ⟨col,-,-,key⟩ := follows.key
      exact key
  · intro names
    have follow : ∀ i col,analyzed.columns[i]? = some col →
        (col.name ∈ tableColumnNames catalog group.table ↔ sources.ComesFrom group.table i) :=
      fun i col at' => ⟨names.apart i col at',names.kept i col at'⟩
    constructor
    · rw [parents]
      exact List.filter_sublist
    · rw [children]
      exact List.filter_sublist
    · rw [parents,children]
      simpa using List.filter_append_perm (fun col : AnalyzedColumn => decide (col.name ∈ tableColumnNames catalog group.table)) _
    · intro i col at'
      have member := List.mem_of_getElem? at'
      rw [parent col member,child col member,follow i col at']
      exact ⟨.rfl,.rfl⟩
    · obtain ⟨found,at',table,name⟩ := names.key
      have inside : keyIndex analyzed.columns group.keyColumn < analyzed.columns.length := by
        refine keyIndex_inside (fun none => nonempty ?_) _
        rw [parents,none,List.filter_nil]
      have col := List.getElem?_eq_getElem inside
      refine ⟨_,(parent _ (List.mem_of_getElem? col)).mpr ?_,col,found,at',table,name⟩
      exact names.kept _ _ col ⟨found,at',table⟩

end

section OrderNames
local instance splitCase : CaseMap := ascii
local instance splitPrinter : Printer := Fixtures.printer

open Fixtures

def orders : Table := ⟨[⟨"user_id","integer",false,none,false⟩,⟨"name","text",false,none,false⟩],"orders"⟩

def ordersCatalog : Catalog :=
  {catalog .postgreSQL with tables:=(catalog .postgreSQL).tables.insert "orders" orders}

-- SELECT u.id, o.name FROM users u JOIN orders o ON o.user_id = u.id
def orderNames : ParsedQuery :=
  { parsed "SELECT u.id, o.name FROM users u JOIN orders o ON o.user_id = u.id" (.query <| ofBody <|
      select [qualified "u" "id",qualified "o" "name"] [⟨aliased "users" "u",
        [⟨aliased "orders" "o",.inner,some (.binaryOp (qualified "o" "user_id") .eq (qualified "u" "id"))⟩]⟩] none) with
    command:=.grouped,annotations:={Annotations.empty with groupBy:=some "users.id"} }

theorem order_names_iff : ∃ analyzed,∃ sources : ColumnSources ordersCatalog orderNames.stmt analyzed.columns,
    analyze ordersCatalog orderNames = some (.ok analyzed) ∧
      ∃ group,analyzed.groupBy = some group ∧ splitOnce "users.id" '.' = some (group.table,group.keyColumn) ∧
        (FollowsSource ordersCatalog sources group ↔ NamesFollow ordersCatalog sources group.table group.keyColumn) := by
  have accepted : ∃ analyzed,analyze ordersCatalog orderNames = some (.ok analyzed) := ⟨_,rfl⟩
  obtain ⟨analyzed,is⟩ := accepted
  obtain ⟨sources⟩ := sources_exist is
  exact ⟨analyzed,sources,is,grouped_split_iff is rfl rfl sources⟩

-- The name of an order is a field of the user.
theorem order_name_in_parent : ∃ analyzed,analyze ordersCatalog orderNames = some (.ok analyzed) ∧
    ∃ group ∈ analyzed.groupBy,∀ sources : ColumnSources ordersCatalog orderNames.stmt analyzed.columns,
      ¬FollowsSource ordersCatalog sources group := by
  have users : resolvedKey ordersCatalog.tables "users" ordersCatalog.searchPath = some "users" := by decide +kernel
  have named : resolvedKey ordersCatalog.tables "orders" ordersCatalog.searchPath = some "orders" := by decide +kernel
  refine ⟨_,rfl,_,rfl,fun sources follows => ?_⟩
  have relation : some "orders" = (sources.of 1).map fun found => found.1.tableName := sources.tracked 1 _ rfl
  obtain ⟨found,at',key,table,same,-⟩ := (follows.parents 1 _ rfl).1.mp (by decide +kernel)
  rw [show sources.of 1 = some found from at',Option.map_some,Option.some_inj] at relation
  rw [←relation,named] at same
  have key : some "users" = some key := users.symm.trans table
  rw [←same] at key
  exact absurd (Option.some.inj key) (by decide)

end OrderNames

end Scythe
