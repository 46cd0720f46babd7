import Scythe.Fingerprint

-- Where an inspected catalog writes no line of its own into the canonical form:
-- plain tables, names that are their own keys, types reported as they are kept.
namespace Scythe
open Text Register

variable [CaseMap]

def CatalogObjectName.Plain (name : CatalogObjectName) : Prop := name.schema = none ∧ name.name = name.key

structure ColumnDefinition.Ordinary (column : ColumnDefinition) : Prop where
  unresolved : column.resolvedSqlType = none
  stored : column.generated = none

def columnKeyed (columnKey : String) (column : Column) : Bool := reported column.name = columnKey

-- Every raw type is the type of the first column that has its key.
structure ColumnsReported (found : RelationColumns) : Prop where
  names : ∀ key, key ∈ found.columnNames ↔ ∃ column ∈ found.columns, reported column.name = key
  types : ∀ key raw, found.rawTypes.lookup key = some raw →
    ∃ column, found.columns.find? (columnKeyed key) = some column ∧ column.sqlType = reported raw
  generated : found.generatedKinds = ∅

theorem columnsReported_start : ColumnsReported ⟨[],[],∅,∅⟩ where
  names key := by simp
  types key raw stored := by simp at stored
  generated := rfl

theorem columnsReported_step {key : String} {found next : RelationColumns} {column : ColumnDefinition}
    (ordinary : column.Ordinary) (known : ColumnsReported found) (done : addColumn key found column = .ok next) :
    ColumnsReported next := by
  obtain ⟨fresh,equal⟩ := addColumn_ok done
  rw [ordinary.stored] at equal
  subst equal
  refine ⟨?_,?_,known.generated⟩
  · intro other
    simp only [List.mem_cons,List.mem_append,List.mem_nil_iff,or_false]
    rw [known.names]
    constructor
    · rintro (rfl | ⟨old,member,named⟩)
      · exact ⟨builtColumn column,.inr rfl,rfl⟩
      · exact ⟨old,.inl member,named⟩
    · rintro ⟨old,member | rfl,named⟩
      · exact .inr ⟨old,member,named⟩
      · exact .inl named.symm
  · intro other raw stored
    by_cases same : other = reported column.name
    · subst same
      rw [AList.lookup_insert,Option.some.injEq] at stored
      subst stored
      have before : found.columns.find? (columnKeyed (reported column.name)) = none := by
        rw [List.find?_eq_none]
        intro old member named
        exact fresh ((known.names _).mpr ⟨old,member,of_decide_eq_true named⟩)
      refine ⟨builtColumn column,?_,?_⟩
      · rw [List.find?_append,before]
        simp [columnKeyed,builtColumn]
      · rw [builtColumn,ordinary.unresolved]
        rfl
    · rw [AList.lookup_insert_ne same] at stored
      obtain ⟨old,here,type⟩ := known.types other raw stored
      refine ⟨old,?_,type⟩
      rw [List.find?_append,here]
      rfl

theorem addColumns_ok {key : String} {definitions : List ColumnDefinition} {found next : RelationColumns}
    (done : definitions.foldlM (addColumn key) found = .ok next) :
    next.columns = found.columns ++ definitions.map builtColumn ∧
      (found.columnNames.Nodup → (definitions.map fun column => reported column.name).Nodup ∧
        ∀ column ∈ definitions, reported column.name ∉ found.columnNames) := by
  induction definitions generalizing found with
  | nil =>
    cases done
    simp
  | cons column definitions ih =>
    rw [List.foldlM_cons] at done
    obtain ⟨middle,first,rest⟩ := bind_ok done
    obtain ⟨fresh,equal⟩ := addColumn_ok first
    subst equal
    obtain ⟨columns,names⟩ := ih rest
    refine ⟨?_,?_⟩
    · rw [columns]
      simp
    · intro distinct
      obtain ⟨others,apart⟩ := names (List.nodup_cons.mpr ⟨fresh,distinct⟩)
      refine ⟨?_,?_⟩
      · rw [List.map_cons,List.nodup_cons]
        refine ⟨?_,others⟩
        intro member
        obtain ⟨other,here,same⟩ := List.mem_map.mp member
        apply apart other here
        rw [same]
        exact List.mem_cons_self
      · intro other member
        rcases List.mem_cons.mp member with rfl | later
        · exact fresh
        · intro old
          exact apart other later (List.mem_cons_of_mem _ old)

structure NamesPlain (names : AHashMap CatalogObjectName) : Prop where
  plain : ∀ key name, names.lookup key = some name → name.schema = none ∧ name.name = key

structure Quiet (catalog : InspectedCatalog) : Prop where
  kinds : ∀ key kind, catalog.relationKinds.lookup key = some kind → kind = .table
  raw : ∀ key rawTypes, catalog.rawColumnTypes.lookup key = some rawTypes →
    ∃ table, catalog.tables.lookup key = some table ∧ ∀ columnKey raw, rawTypes.lookup columnKey = some raw →
      ∃ column, table.columns.find? (columnKeyed columnKey) = some column ∧ column.sqlType = reported raw
  generated : catalog.generatedColumnKinds = ∅
  relations : NamesPlain catalog.relationNames
  enums : NamesPlain catalog.enumNames
  composites : NamesPlain catalog.compositeNames
  domains : NamesPlain catalog.domainNames
  base : ∀ key raw, catalog.rawDomainTypes.lookup key = some raw →
    ∃ domain, catalog.domains.lookup key = some domain ∧ domain.baseType = reported raw

omit [CaseMap] in
theorem namesPlain_empty : NamesPlain ∅ where
  plain key name stored := by simp at stored

theorem namesPlain_insert {names : AHashMap CatalogObjectName} {name : CatalogObjectName} (known : NamesPlain names)
    (plain : name.Plain) : NamesPlain (names.insert name.key name) where
  plain key other stored := by
    by_cases same : key = name.key
    · subst same
      rw [AList.lookup_insert,Option.some.injEq] at stored
      subst stored
      exact plain
    · rw [AList.lookup_insert_ne same] at stored
      exact known.plain key other stored

theorem quiet_uninspected (catalog : Catalog) (none : catalog.rawColumnTypes = ∅) : Quiet catalog.uninspected where
  kinds key kind stored := by simp [Catalog.uninspected] at stored
  raw key rawTypes stored := by simp [Catalog.uninspected,none] at stored
  generated := rfl
  relations := namesPlain_empty
  enums := namesPlain_empty
  composites := namesPlain_empty
  domains := namesPlain_empty
  base key raw stored := by simp [Catalog.uninspected] at stored

theorem quiet_relation {catalog next : InspectedCatalog} {definition : RelationDefinition} (quiet : Quiet catalog)
    (plain : definition.name.Plain) (table : definition.kind = .table)
    (ordinary : ∀ column ∈ definition.columns, column.Ordinary)
    (done : addRelation catalog definition = .ok next) : Quiet next := by
  obtain ⟨fresh,found,columns,equal⟩ := addRelation_ok done
  have known : ColumnsReported found :=
    run_invariant (fun found column member next known step => columnsReported_step (ordinary column member) known step)
      columnsReported_start columns
  subst equal
  refine ⟨?_,?_,?_,namesPlain_insert quiet.relations plain,quiet.enums,quiet.composites,quiet.domains,quiet.base⟩
  · intro key kind stored
    by_cases same : key = definition.name.key
    · subst same
      rw [AList.lookup_insert,Option.some.injEq] at stored
      exact stored.symm.trans table
    · rw [AList.lookup_insert_ne same] at stored
      exact quiet.kinds key kind stored
  · intro key rawTypes stored
    by_cases same : key = definition.name.key
    · subst same
      rw [AList.lookup_insert,Option.some.injEq] at stored
      subst stored
      exact ⟨_,AList.lookup_insert _,known.types⟩
    · rw [AList.lookup_insert_ne same] at stored
      obtain ⟨table,here,types⟩ := quiet.raw key rawTypes stored
      exact ⟨table,(AList.lookup_insert_ne same).trans here,types⟩
  · simp [known.generated,quiet.generated]

theorem quiet_enum {catalog next : InspectedCatalog} {definition : EnumDefinition} (quiet : Quiet catalog)
    (plain : definition.name.Plain) (done : addEnum catalog definition = .ok next) : Quiet next := by
  have equal := addEnum_ok done
  subst equal
  exact { quiet with enums := namesPlain_insert quiet.enums plain }

theorem quiet_composite {catalog next : InspectedCatalog} {definition : CompositeDefinition} (quiet : Quiet catalog)
    (plain : definition.name.Plain) (done : addComposite catalog definition = .ok next) : Quiet next := by
  have equal := addComposite_ok done
  subst equal
  exact { quiet with composites := namesPlain_insert quiet.composites plain }

theorem quiet_domain {catalog next : InspectedCatalog} {definition : DomainDefinition} (quiet : Quiet catalog)
    (plain : definition.name.Plain) (done : addDomain catalog definition = .ok next) : Quiet next := by
  have equal := addDomain_ok done
  subst equal
  refine { quiet with domains := namesPlain_insert quiet.domains plain, base := ?_ }
  intro key raw stored
  by_cases same : key = definition.name.key
  · subst same
    rw [AList.lookup_insert,Option.some.injEq] at stored
    subst stored
    exact ⟨_,AList.lookup_insert _,rfl⟩
  · rw [AList.lookup_insert_ne same] at stored
    obtain ⟨domain,here,type⟩ := quiet.base key raw stored
    exact ⟨domain,(AList.lookup_insert_ne same).trans here,type⟩

theorem quiet_function {catalog next : InspectedCatalog} {definition : FunctionDefinition} (quiet : Quiet catalog)
    (done : addFunction catalog definition = .ok next) : Quiet next := by
  obtain ⟨-,equal⟩ := addFunction_ok done
  subst equal
  exact { quiet with }

omit [CaseMap] in
theorem mem_entriesOf {map : AHashMap α} {key : String} {value : α} :
    (key,value) ∈ entriesOf map ↔ map.lookup key = some value := by
  rw [←Option.mem_def,AList.mem_lookup_iff]
  unfold entriesOf
  constructor
  · intro member
    obtain ⟨entry,here,equal⟩ := List.mem_map.mp member
    cases equal
    exact here
  · intro member
    exact List.mem_map.mpr ⟨_,member,rfl⟩

omit [CaseMap] in
theorem mem_sortedEntries {map : AHashMap α} {entry : String × α} :
    entry ∈ sortedEntries map ↔ map.lookup entry.1 = some entry.2 :=
  (List.mem_mergeSort).trans mem_entriesOf

theorem relationKindLines_quiet {catalog : InspectedCatalog} (quiet : Quiet catalog) :
    relationKindLines catalog.relationKinds = [] := by
  apply List.filterMap_eq_nil_iff.mpr
  intro entry member
  have kind := quiet.kinds _ _ (mem_sortedEntries.mp member)
  simp [kind]

theorem rawColumnTypeLines_quiet {catalog : InspectedCatalog} (quiet : Quiet catalog) :
    rawColumnTypeLines catalog.toCatalog = [] := by
  apply List.flatMap_eq_nil_iff.mpr
  intro entry member
  obtain ⟨table,here,types⟩ := quiet.raw _ _ (mem_sortedEntries.mp member)
  apply List.filterMap_eq_nil_iff.mpr
  intro raw inner
  obtain ⟨column,found,type⟩ := types _ _ (mem_sortedEntries.mp inner)
  have same : (table.columns.find? fun column => CaseMap.lowercase (trim column.name) = raw.1) = some column := found
  have kept : column.sqlType = CaseMap.lowercase (trim raw.2) := type
  simp [rawColumnTypeLine,here,same,equivalentSqlType,kept]

omit [CaseMap] in
theorem preservedNames_quiet {names : AHashMap CatalogObjectName} (known : NamesPlain names) (objectKind : String) :
    appendPreservedNames objectKind names = [] := by
  apply List.filterMap_eq_nil_iff.mpr
  intro entry member
  have plain := known.plain _ _ (mem_sortedEntries.mp member)
  simp [plain]

theorem rawDomainTypes_quiet {catalog : InspectedCatalog} (quiet : Quiet catalog) : appendRawDomainTypes catalog = [] := by
  apply List.filterMap_eq_nil_iff.mpr
  intro entry member
  obtain ⟨domain,here,type⟩ := quiet.base _ _ (mem_sortedEntries.mp member)
  have kept : domain.baseType = CaseMap.lowercase (trim entry.2) := type
  simp [here,equivalentSqlType,kept]

theorem metadata_quiet {catalog : InspectedCatalog} (quiet : Quiet catalog) : appendInspectionMetadata catalog = [] := by
  have generated : generatedColumnLines catalog.generatedColumnKinds = [] := by
    simp [quiet.generated,generatedColumnLines,sortedEntries,sortByKey,entriesOf]
  rw [appendInspectionMetadata,appendRelationMetadata,relationKindLines_quiet quiet,rawColumnTypeLines_quiet quiet,
    generated,preservedNames_quiet quiet.relations,preservedNames_quiet quiet.enums,
    preservedNames_quiet quiet.composites,preservedNames_quiet quiet.domains,rawDomainTypes_quiet quiet]
  rfl

end Scythe
