import Scythe.Analyze
import Scythe.Forwarding

-- What each column of a statement's result is read from.
namespace Scythe
open Effect Text

-- An expression of the SELECT list, or a column that a wildcard stands for.
inductive Origin where
  | expression (e : Expr)
  | star (source : ScopeSource) (column : ScopeColumn)

def starOrigins (scope : Scope) : List Origin :=
  scope.sources.flatMap fun source => source.columns.map (.star source)

section
variable [CaseMap]

def itemOrigins (scope : Scope) : SelectItem → List Origin
  | .unnamedExpr e | .exprWithAlias e _ => [.expression e]
  | .exprWithAliases e names => names.map fun _ => .expression e
  | .wildcard _ _ => starOrigins scope
  | .qualifiedWildcard kind _ _ => starOrigins (scope.named (wildcardQualifier kind))

def origins (scope : Scope) (projection : List SelectItem) : List Origin := projection.flatMap (itemOrigins scope)

-- The source column whose type an origin's column has, where there is one.
def Origin.Reads (scope : Scope) (source : ScopeSource) (column : ScopeColumn) : Origin → Prop
  | .expression e => Scythe.Reads scope e source column
  | .star s c => s = source ∧ c = column

-- What a column keeps of the type it was made from.
structure SameSource (ti : TypeInfo) (col : AnalyzedColumn) : Prop where
  joinGroup : col.joinGroup = ti.joinGroup
  nullableBeforeJoin : col.nullableBeforeJoin = ti.nullableBeforeJoin
  sourceRelation : col.sourceRelation = ti.sourceRelation

omit [CaseMap] in
theorem sameSource_fromTypeInfo (name : String) (ti : TypeInfo) : SameSource ti (.fromTypeInfo name ti) := ⟨rfl,rfl,rfl⟩

def Shows (scope : Scope) (origin : Origin) (col : AnalyzedColumn) : Prop :=
  ∃ ti : TypeInfo,SameSource ti col ∧
    (ti.Computed ∨ ∃ source column,origin.Reads scope source column ∧ ti = .fromScopeColumn column source)

theorem HandedOn.shows {e : Expr} (handed : HandedOn scope e ti) (name : String) :
    Shows scope (.expression e) (.fromTypeInfo name ti) := ⟨ti,sameSource_fromTypeInfo name ti,handed⟩

theorem starOrigins_shows (scope within : Scope) :
    List.Forall₂ (Shows scope) (starOrigins within) (wildcardColumns within) := by
  unfold starOrigins wildcardColumns
  induction within.sources with
  | nil => exact .nil
  | cons source sources ih =>
    rw [List.flatMap_cons,List.flatMap_cons]
    refine List.rel_append ?_ ih
    rw [List.forall₂_map_left_iff,List.forall₂_map_right_iff,List.forall₂_same]
    intro col _
    exact ⟨_,sameSource_fromTypeInfo _ _,.inr ⟨source,col,⟨rfl,rfl⟩,rfl⟩⟩

variable {self : Methods} {scope : Scope}

theorem projectItem_shows (infer : ∀ e,(self.inferExprType e scope).Returns (HandedOn scope e)) (item : SelectItem) :
    (projectItem self scope item).Returns (List.Forall₂ (Shows scope) (itemOrigins scope item)) := by
  cases item with
  | unnamedExpr e =>
    apply Program.returns_after
    intro _
    exact (infer e).bind fun ti handed => .cons (handed.shows _) .nil
  | exprWithAlias e name =>
    apply Program.returns_after
    intro _
    exact (infer e).bind fun ti handed => .cons (handed.shows _) .nil
  | exprWithAliases e names =>
    apply Program.returns_after
    intro _
    apply (infer e).bind
    intro ti handed
    show List.Forall₂ _ (names.map _) (names.map _)
    rw [List.forall₂_map_left_iff,List.forall₂_map_right_iff,List.forall₂_same]
    intro name _
    exact handed.shows _
  | wildcard leftOut unread => exact starOrigins_shows scope scope
  | qualifiedWildcard kind leftOut unread => exact starOrigins_shows scope _

theorem projectItems_shows (infer : ∀ e,(self.inferExprType e scope).Returns (HandedOn scope e))
    (projection : List SelectItem) :
    (projectItems self scope projection).Returns (List.Forall₂ (Shows scope) (origins scope projection)) := by
  induction projection with
  | nil => exact .nil
  | cons item items ih =>
    apply (projectItem_shows infer item).bind
    intro cols here
    apply ih.bind
    intro others below
    exact List.rel_append here below

omit [CaseMap] in
theorem getElem_forall₂ {R : α → β → Prop} {as : List α} {bs : List β} (related : List.Forall₂ R as bs) {i : Nat}
    (at' : bs[i]? = some b) : ∃ a,as[i]? = some a ∧ R a b := by
  induction related generalizing i with
  | nil => cases at'
  | cons here below ih =>
    cases i with
    | zero =>
      cases at'
      exact ⟨_,rfl,here⟩
    | succ i => exact ih at'

-- What is done to the columns after they were made leaves alone where they are
-- from.
structure KeepsSource (before after : AnalyzedColumn) : Prop where
  joinGroup : after.joinGroup = before.joinGroup
  nullableBeforeJoin : after.nullableBeforeJoin = before.nullableBeforeJoin
  sourceRelation : after.sourceRelation = before.sourceRelation

theorem Shows.keepsSource {origin : Origin} (shown : Shows scope origin before) (kept : KeepsSource before after) :
    Shows scope origin after := by
  obtain ⟨ti,same,handed⟩ := shown
  refine ⟨ti,⟨?_,?_,?_⟩,handed⟩
  · rw [kept.joinGroup,same.joinGroup]
  · rw [kept.nullableBeforeJoin,same.nullableBeforeJoin]
  · rw [kept.sourceRelation,same.sourceRelation]

omit [CaseMap] in
theorem renameColumns_keepsSource (columns : List AnalyzedColumn) (names : List String) :
    List.Forall₂ KeepsSource columns (renameColumns columns names) := by
  induction columns generalizing names with
  | nil => exact .nil
  | cons col cols ih =>
    unfold renameColumns
    split
    · exact .cons ⟨rfl,rfl,rfl⟩ (ih names)
    · cases names with
      | nil => exact .cons ⟨rfl,rfl,rfl⟩ (ih [])
      | cons name rest => exact .cons ⟨rfl,rfl,rfl⟩ (ih rest)

-- The SELECT that comes first in a query, whose columns name the result's.
inductive Leads : SetExpr → Select → Prop where
  | select : Leads (.select select) select
  | query (leads : Leads query.body select) : Leads (.query query) select
  | setOperation (leads : Leads left select) : Leads (.setOperation op left right) select

variable [Printer] (catalog : Catalog)

-- A scope that the FROM clause comes to in some state of the analyzer.
def BuiltFrom (sources : List TableWithJoins) (scope : Scope) : Prop :=
  ∃ fuel before after,(buildScopeFromFrom (methods catalog fuel) sources).run before = some (.ok scope,after)

def ColumnOf (body : SetExpr) (i : Nat) (col : AnalyzedColumn) : Prop :=
  ∃ select scope origin,Leads body select ∧ BuiltFrom catalog select.sources scope ∧
    (origins scope select.projection)[i]? = some origin ∧ Shows scope origin col

-- A column of the result either has no source column or is the leading
-- SELECT's.
def Sourced (body : SetExpr) (columns : List AnalyzedColumn) : Prop :=
  ∀ i col,columns[i]? = some col →
    (col.joinGroup = none ∧ col.sourceRelation = none) ∨ ColumnOf catalog body i col

variable {catalog}

theorem analyzeSelect_sourced (ran : (analyzeSelect (methods catalog fuel) select).run before = some (.ok columns,after)) :
    Sourced catalog (.select select) columns := by
  unfold analyzeSelect at ran
  obtain ⟨scope,_,built,ran⟩ := analysis_run_bind ran
  obtain ⟨made,_,projected,ran⟩ := analysis_run_bind ran
  obtain ⟨_,_,-,ran⟩ := analysis_run_bind ran
  obtain ⟨_,_,-,ran⟩ := analysis_run_bind ran
  obtain ⟨_,_,-,ran⟩ := analysis_run_bind ran
  cases ran
  have shown := (projectItems_shows (fun e => methods_handsOn catalog fuel e scope) select.projection).run projected
  intro i col at'
  obtain ⟨old,oldAt,kept⟩ := getElem_forall₂ (renameColumns_keepsSource made _) at'
  obtain ⟨origin,originAt,shows'⟩ := getElem_forall₂ shown oldAt
  exact .inr ⟨select,scope,origin,.select,⟨fuel,_,_,built⟩,originAt,shows'.keepsSource kept⟩

-- A column that has a partner in the other arm is made anew, without a source.
omit [CaseMap] [Printer] in
theorem widenArms_sourced (lefts rights : List AnalyzedColumn) :
    (widenArms lefts rights).Returns fun columns => ∀ (i : Nat) (col : AnalyzedColumn),columns[i]? = some col →
      (col.joinGroup = none ∧ col.sourceRelation = none) ∨ lefts[i]? = some col := by
  induction lefts generalizing rights with
  | nil =>
    intro i col at'
    cases at'
  | cons left lefts ih =>
    cases rights with
    | nil =>
      apply (ih []).bind
      intro columns below i col at'
      cases i with
      | zero => exact .inr at'
      | succ i => exact below i col at'
    | cons right rights =>
      apply Program.returns_after
      intro widenedType
      apply (ih rights).bind
      intro columns below i col at'
      cases i with
      | zero =>
        cases at'
        exact .inl ⟨rfl,rfl⟩
      | succ i => exact below i col at'

omit [CaseMap] [Printer] in
theorem valuesColumns_unsourced (cols : List (String × Bool)) : ∀ col ∈ valuesColumns cols,
    col.joinGroup = none ∧ col.sourceRelation = none := by
  intro col member
  obtain ⟨entry,-,rfl⟩ := List.mem_map.mp member
  exact ⟨rfl,rfl⟩

theorem Sourced.mono {inner outer : SetExpr} (sourced : Sourced catalog inner columns)
    (leads : ∀ select,Leads inner select → Leads outer select) : Sourced catalog outer columns := by
  intro i col at'
  rcases sourced i col at' with unsourced | ⟨select,scope,origin,first,rest⟩
  · exact .inl unsourced
  · exact .inr ⟨select,scope,origin,leads select first,rest⟩

theorem analyzeSetExpr_sourced (sets : ∀ setExpr before columns after,
      ((methods catalog fuel).analyzeSetExpr setExpr).run before = some (.ok columns,after) → Sourced catalog setExpr columns)
    (queries : ∀ query before columns after,
      ((methods catalog fuel).analyzeQuery query).run before = some (.ok columns,after) → Sourced catalog query.body columns)
    (ran : (analyzeSetExpr (methods catalog fuel) setExpr).run before = some (.ok columns,after)) :
    Sourced catalog setExpr columns := by
  cases setExpr with
  | select select => exact analyzeSelect_sourced ran
  | query query => exact (queries query _ _ _ ran).mono fun select leads => .query leads
  | setOperation op left right =>
    obtain ⟨leftCols,_,leftRan,ran⟩ := analysis_run_bind ran
    obtain ⟨rightCols,_,-,ran⟩ := analysis_run_bind ran
    split at ran
    · cases ran
    · have widened := (widenArms_sourced leftCols rightCols).run ran
      intro i col at'
      rcases widened i col at' with unsourced | old
      · exact .inl unsourced
      · exact ((sets left _ _ _ leftRan).mono fun select leads => .setOperation leads) i col old
  | values rows =>
    cases rows with
    | nil =>
      cases ran
      intro i col at'
      cases at'
    | cons first rest =>
      obtain ⟨cols,_,-,ran⟩ := analysis_run_bind ran
      cases ran
      intro i col at'
      exact .inl (valuesColumns_unsourced cols col (List.mem_of_getElem? at'))
  | other unread =>
    cases ran
    intro i col at'
    cases at'

theorem analyzeQuery_sourced (sets : ∀ setExpr before columns after,
      ((methods catalog fuel).analyzeSetExpr setExpr).run before = some (.ok columns,after) → Sourced catalog setExpr columns)
    (ran : (analyzeQuery catalog (methods catalog fuel) query).run before = some (.ok columns,after)) :
    Sourced catalog query.body columns := by
  unfold analyzeQuery at ran
  obtain ⟨_,_,-,ran⟩ := analysis_run_bind ran
  obtain ⟨result,_,body,ran⟩ := analysis_run_bind ran
  obtain ⟨_,_,-,ran⟩ := analysis_run_bind ran
  cases ran
  exact sets query.body _ _ _ body

theorem methods_sourced (catalog : Catalog) (fuel : Nat) :
    (∀ setExpr before columns after,
      ((methods catalog fuel).analyzeSetExpr setExpr).run before = some (.ok columns,after) →
        Sourced catalog setExpr columns) ∧
    ∀ query before columns after,
      ((methods catalog fuel).analyzeQuery query).run before = some (.ok columns,after) →
        Sourced catalog query.body columns := by
  induction fuel with
  | zero => exact ⟨nofun,nofun⟩
  | succ fuel ih =>
    obtain ⟨sets,queries⟩ := ih
    exact ⟨fun _ _ _ _ ran => analyzeSetExpr_sourced sets queries ran,fun _ _ _ _ ran => analyzeQuery_sourced sets ran⟩

omit [CaseMap] [Printer] in
theorem findIn_mem (is : findIn within colName = some (source,column)) : source = within ∧ column ∈ source.columns := by
  obtain ⟨col,found,same⟩ := Option.map_eq_some_iff.mp is
  cases same
  exact ⟨rfl,List.mem_of_find?_eq_some found⟩

omit [CaseMap] [Printer] in
theorem findColumn_mem (is : findColumn colName qualifier scope = some (source,column)) :
    source ∈ scope.sources ∧ column ∈ source.columns := by
  unfold findColumn at is
  split at is
  · obtain ⟨within,member,found⟩ := List.exists_of_findSome?_eq_some is
    obtain ⟨rfl,inside⟩ := findIn_mem found
    exact ⟨(List.mem_filter.mp member).1,inside⟩
  · split at is
    · rename_i found only
      cases is
      have member : (source,column) ∈ scope.sources.filterMap fun s => findIn s colName := by
        rw [only]
        exact List.mem_singleton_self _
      obtain ⟨within,inScope,found⟩ := List.mem_filterMap.mp member
      obtain ⟨rfl,inside⟩ := findIn_mem found
      exact ⟨inScope,inside⟩
    · cases is

-- RETURNING projects one table, which no join makes nullable.
def Scope.Unjoined (scope : Scope) : Prop := ∀ source ∈ scope.sources,source.nullableFromJoin = false

omit [Printer] in
theorem HandedOn.unjoined {scope : Scope} (handed : HandedOn scope e ti) (unjoined : scope.Unjoined) :
    ti.joinGroup = none := by
  rcases handed with computed | ⟨source,column,⟨name,-,found⟩,rfl⟩
  · exact computed.1
  · have same := unjoined source (findColumn_mem found).1
    show (if source.nullableFromJoin then some source.aliasName else none) = none
    rw [same]
    rfl

omit [Printer] in
theorem buildScopeForTable_unjoined (catalog : Catalog) (tableName : String) :
    (buildScopeForTable catalog tableName).Returns Scope.Unjoined := by
  unfold buildScopeForTable
  apply Program.returns_after
  intro ctes
  split
  · intro source member
    cases List.mem_singleton.mp member
    rfl
  · split
    · intro source member
      cases List.mem_singleton.mp member
      rfl
    · intro source member
      cases member

def JoinFree (columns : List AnalyzedColumn) : Prop := ∀ col ∈ columns,col.joinGroup = none

omit [CaseMap] [Printer] in
theorem returningColumns_joinFree (scope : Scope) : JoinFree (returningColumns scope) := by
  intro col member
  obtain ⟨source,-,inside⟩ := List.mem_flatMap.mp member
  obtain ⟨column,-,rfl⟩ := List.mem_map.mp inside
  rfl

theorem returningItem_joinFree {scope : Scope} (unjoined : scope.Unjoined) (item : SelectItem) :
    (returningItem (methods catalog fuel) scope item).Returns JoinFree := by
  have infer := fun e => methods_handsOn catalog fuel e scope
  cases item with
  | unnamedExpr e =>
    apply (infer e).bind
    intro ti handed col member
    cases List.mem_singleton.mp member
    exact handed.unjoined unjoined
  | exprWithAlias e name =>
    apply (infer e).bind
    intro ti handed col member
    cases List.mem_singleton.mp member
    exact handed.unjoined unjoined
  | exprWithAliases e names =>
    apply (infer e).bind
    intro ti handed col member
    obtain ⟨name,-,rfl⟩ := List.mem_map.mp member
    exact handed.unjoined unjoined
  | wildcard leftOut unread => exact returningColumns_joinFree scope
  | qualifiedWildcard kind leftOut unread => exact returningColumns_joinFree _

theorem returningItems_joinFree {scope : Scope} (unjoined : scope.Unjoined) (items : List SelectItem) :
    (returningItems (methods catalog fuel) scope items).Returns JoinFree := by
  induction items with
  | nil => exact nofun
  | cons item items ih =>
    apply (returningItem_joinFree unjoined item).bind
    intro cols here
    apply ih.bind
    intro others below col member
    rcases List.mem_append.mp member with first | later
    · exact here col first
    · exact below col later

omit [CaseMap] [Printer] in
theorem disambiguateColumns_joinFree (untagged : JoinFree columns) : JoinFree (disambiguateColumns columns) := by
  intro col member
  obtain ⟨i,at'⟩ := List.mem_iff_getElem?.mp member
  obtain ⟨old,oldAt,kept⟩ := getElem_forall₂ (renameColumns_keepsSource columns _) at'
  rw [kept.joinGroup]
  exact untagged old (List.mem_of_getElem? oldAt)

theorem analyzeOptionalReturning_joinFree (tableName : String) (returning : Option (List SelectItem)) :
    (analyzeOptionalReturning catalog (methods catalog fuel) tableName returning).Returns JoinFree := by
  cases returning with
  | none => exact nofun
  | some items =>
    apply (buildScopeForTable_unjoined catalog tableName).bind
    intro scope unjoined
    apply (returningItems_joinFree unjoined items).bind
    intro columns untagged
    exact Program.returns_after fun _ => disambiguateColumns_joinFree untagged

theorem analyzeInsert_joinFree (insert : Insert) :
    (analyzeInsert catalog (methods catalog fuel) insert).Returns JoinFree := by
  unfold analyzeInsert
  apply Program.returns_after
  intro tableName
  apply Program.returns_after
  intro _
  apply Program.returns_after
  intro _
  exact analyzeOptionalReturning_joinFree _ _

theorem analyzeUpdate_joinFree (update : Update) :
    (analyzeUpdate catalog (methods catalog fuel) update).Returns JoinFree := by
  unfold analyzeUpdate
  iterate 4
    apply Program.returns_after
    intro _
  exact analyzeOptionalReturning_joinFree _ _

theorem analyzeDelete_joinFree (delete : Delete) :
    (analyzeDelete catalog (methods catalog fuel) delete).Returns JoinFree := by
  unfold analyzeDelete
  iterate 3
    apply Program.returns_after
    intro _
  exact analyzeOptionalReturning_joinFree _ _

-- A tagged column of a statement is a query's.
theorem analyzeStatement_tagged {stmt : Statement}
    (ran : (analyzeStatement catalog stmt).run before = some (.ok columns,after)) {i : Nat} {col : AnalyzedColumn}
    (at' : columns[i]? = some col) (tagged : col.joinGroup = some g) :
    ∃ query,stmt = .query query ∧ ColumnOf catalog query.body i col := by
  unfold analyzeStatement at ran
  have not {P : Prop} (untagged : JoinFree columns) : P := by
    have none' := untagged col (List.mem_of_getElem? at')
    rw [tagged] at none'
    cases none'
  cases stmt with
  | query query =>
    refine ⟨query,rfl,?_⟩
    rcases (methods_sourced catalog _).2 query _ _ _ ran i col at' with ⟨untagged,-⟩ | found
    · rw [tagged] at untagged
      cases untagged
    · exact found
  | insert insert => exact not ((analyzeInsert_joinFree insert).run ran)
  | update update => exact not ((analyzeUpdate_joinFree update).run ran)
  | delete delete => exact not ((analyzeDelete_joinFree delete).run ran)
  | other =>
    cases ran
    cases at'

end

-- What analysis does after the statement keeps where its columns are from.
theorem applyAnnotations_keepsSource (annotations : Annotations) (col : AnalyzedColumn) :
    KeepsSource col (applyAnnotations annotations col) := by
  unfold applyAnnotations
  dsimp only
  split <;> split <;> split <;> exact ⟨rfl,rfl,rfl⟩

theorem KeepsSource.trans (first : KeepsSource a b) (last : KeepsSource b c) : KeepsSource a c :=
  ⟨last.joinGroup.trans first.joinGroup,last.nullableBeforeJoin.trans first.nullableBeforeJoin,
    last.sourceRelation.trans first.sourceRelation⟩

variable [CaseMap] {catalog : Catalog} {query : ParsedQuery}

theorem resolveNestedColumns_keepsSource (snakeQuery : String) (pending : List PendingNestedStruct)
    (columns : List AnalyzedColumn) (names : NestedNames) :
    List.Forall₂ KeepsSource columns (resolveNestedColumns catalog snakeQuery pending columns names).1 := by
  induction columns generalizing names with
  | nil => exact .nil
  | cons col cols ih => exact .cons ⟨rfl,rfl,rfl⟩ (ih _)

theorem resolveNestedStructNames_keepsSource (queryName : String) (pending : List PendingNestedStruct)
    (columns : List AnalyzedColumn) :
    List.Forall₂ KeepsSource columns (resolveNestedStructNames catalog queryName pending columns).1 := by
  unfold resolveNestedStructNames
  split
  · rw [List.forall₂_same]
    exact fun col _ => ⟨rfl,rfl,rfl⟩
  · exact resolveNestedColumns_keepsSource _ pending columns _

theorem finish_columns (finished : finish catalog query columns self = .ok analyzed) :
    analyzed.columns = (resolveNestedStructNames catalog query.name self.pendingNested
      (columns.map (applyAnnotations query.annotations))).1 := by
  unfold finish at finished
  split at finished
  · cases finished
  · simp only [bind,Except.bind] at finished
    split at finished
    · cases finished
    · split at finished
      · cases finished
      · split at finished
        · cases finished
        · cases finished
          rfl

theorem finish_keepsSource (finished : finish catalog query columns self = .ok analyzed) {i : Nat} {col : AnalyzedColumn}
    (at' : analyzed.columns[i]? = some col) : ∃ old,columns[i]? = some old ∧ KeepsSource old col := by
  rw [finish_columns finished] at at'
  obtain ⟨annotated,annotatedAt,kept⟩ := getElem_forall₂ (resolveNestedStructNames_keepsSource _ _ _) at'
  rw [List.getElem?_map] at annotatedAt
  obtain ⟨old,oldAt,same⟩ := Option.map_eq_some_iff.mp annotatedAt
  subst same
  exact ⟨old,oldAt,(applyAnnotations_keepsSource query.annotations old).trans kept⟩

theorem analyze_tagged [Printer] (is : analyze catalog query = some (.ok analyzed)) {i : Nat} {col : AnalyzedColumn}
    (at' : analyzed.columns[i]? = some col) (tagged : col.joinGroup = some g) :
    ∃ stmt,query.stmt = .query stmt ∧ ColumnOf catalog stmt.body i col := by
  unfold analyze at is
  split at is
  · cases is
  · cases is
  · rename_i columns self ran
    cases finished : finish catalog query columns self with
    | error failure =>
      rw [finished] at is
      cases is
    | ok result =>
      rw [finished] at is
      cases is
      obtain ⟨old,oldAt,kept⟩ := finish_keepsSource finished at'
      obtain ⟨stmt,same,select,scope,origin,leads,built,originAt,shown⟩ :=
        analyzeStatement_tagged ran oldAt (kept.joinGroup.symm.trans tagged)
      exact ⟨stmt,same,select,scope,origin,leads,built,originAt,shown.keepsSource kept⟩

end Scythe
