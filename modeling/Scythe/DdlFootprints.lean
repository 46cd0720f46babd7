import Scythe.DdlStatements

-- Which entries of a catalog a statement changes, and which it looks at.
namespace Scythe
open Text Contents Exchange LastWrite

section
variable [CaseMap] {α : Type} {a b : AHashMap α}

-- The keys that a name answers to where no search path is set.
def ReachesKey (name key : String) : Prop :=
  key = name ∨ contains name "." = false ∧ endsWith key ("." ++ name) = true

omit [CaseMap] in
theorem suffixKey_local {suffix : String} (same : ∀ key,endsWith key suffix = true → a.lookup key = b.lookup key) :
    suffixKey a.keys suffix = suffixKey b.keys suffix := by
  refine smallest_perm ((List.perm_ext_iff_of_nodup (a.keys_nodup.filter _) (b.keys_nodup.filter _)).mpr fun key => ?_)
  rw [List.mem_filter,List.mem_filter,←AList.mem_keys,←AList.mem_keys]
  by_cases fits : endsWith key suffix = true
  · rw [←AList.lookup_isSome,←AList.lookup_isSome,same key fits]
  · simp [fits]

theorem lookupQualified_local {name : String}
    (same : ∀ key,ReachesKey (CaseMap.lowercase name) key → a.lookup key = b.lookup key) :
    lookupQualified a name none = lookupQualified b name none := by
  unfold lookupQualified
  dsimp only
  rw [same _ (.inl rfl)]
  cases b.lookup (CaseMap.lowercase name) with
  | some value => rfl
  | none =>
    dsimp only
    split
    · rfl
    · rename_i bare
      have plain : contains (CaseMap.lowercase name) "." = false := by simpa using bare
      have suffixed := fun key fits => same key (.inr ⟨plain,fits⟩)
      rw [suffixKey_local suffixed]
      cases found : suffixKey b.keys ("." ++ CaseMap.lowercase name) with
      | none => rfl
      | some key => exact suffixed key (suffixKey_mem found).2

omit [CaseMap] in
theorem getTableMut_local {a b : AHashMap Table} {key : String}
    (same : ∀ other,ReachesKey key other → a.lookup other = b.lookup other) : getTableMut a key = getTableMut b key := by
  unfold getTableMut
  rw [same key (.inl rfl)]
  cases b.lookup key with
  | some table => rfl
  | none =>
    dsimp only
    split
    · rfl
    · rename_i bare
      have plain : contains key "." = false := by simpa using bare
      have suffixed := fun other fits => same other (.inr ⟨plain,fits⟩)
      rw [suffixKey_local suffixed]
      cases found : suffixKey b.keys ("." ++ key) with
      | none => rfl
      | some other => rw [Option.bind_some,Option.bind_some,suffixed other (suffixKey_mem found).2]

omit [CaseMap] in
theorem getTableMut_addressed {tables : AHashMap Table} {key found : String} {table : Table}
    (address : getTableMut tables key = some (found,table)) : ReachesKey key found := by
  unfold getTableMut at address
  split at address
  · cases address
    exact .inl rfl
  · split at address
    · cases address
    · rename_i bare
      obtain ⟨other,among,held⟩ := Option.bind_eq_some_iff.mp address
      obtain ⟨table',-,same⟩ := Option.map_eq_some_iff.mp held
      cases same
      exact .inr ⟨by simpa using bare,(suffixKey_mem among).2⟩

end

-- The names in a type that a domain may stand behind.
def typeNames : DataType → List ObjectName
  | .custom name _ => [name]
  | .array element =>
    match element with
    | some element => typeNames element
    | none => []
  | _ => []

section
variable [CaseMap]

def TypeReads (dataType : DataType) (key : String) : Prop :=
  ∃ name ∈ typeNames dataType,ReachesKey (CaseMap.lowercase (objectNameToKey name)) key

def SameFor (dataType : DataType) (domains others : AHashMap DomainDef) : Prop :=
  ∀ key,TypeReads dataType key → domains.lookup key = others.lookup key

variable {domains others : AHashMap DomainDef} {dialect : SqlDialect} {dataType : DataType}

theorem sameFor_custom {name : ObjectName} {tokens : List String} (same : SameFor (.custom name tokens) domains others) :
    lookupQualified domains (objectNameToKey name) none = lookupQualified others (objectNameToKey name) none :=
  lookupQualified_local fun key addressed => same key ⟨name,List.mem_singleton_self _,addressed⟩

variable [Printer]

theorem normalizeDataType_local (dataType : DataType) (same : SameFor dataType domains others) :
    normalizeDataType domains dialect dataType = normalizeDataType others dialect dataType := by
  cases dataType with
  | custom name tokens => simp only [normalizeDataType,normalizeCustom,sameFor_custom same]
  | array element =>
    cases element with
    | none => rfl
    | some element =>
      have inner := normalizeDataType_local element same
      simp only [normalizeDataType,inner]
  | varbinary length =>
    cases length with
    | none => rfl
    | some length => cases length <;> rfl
  | _ => rfl

theorem functionSqlType_local (dataType : DataType) (same : SameFor dataType domains others) :
    functionSqlType domains dialect dataType = functionSqlType others dialect dataType := by
  have own := @normalizeDataType_local _ domains others dialect _ dataType same
  cases dataType with
  | custom name tokens => simp only [functionSqlType,own,sameFor_custom same]
  | array element =>
    cases element with
    | none => rfl
    | some element =>
      cases element with
      | custom name tokens =>
        have inner : SameFor (.custom name tokens) domains others := same
        simp only [functionSqlType,own,sameFor_custom inner]
      | _ => exact congrArg Prod.fst own
  | _ => exact congrArg Prod.fst own

end

-- The entries that a statement is about, by the names it gives them. ALTER
-- TABLE is about every table that its name reaches, and RENAME TO about the
-- table it takes out and the one it leaves.
section
variable [CaseMap] [Printer]

def RenameReaches (tableKey key : String) : AlterTableOperation → Prop
  | .renameTable tableName => key = bareName tableKey ∨ key = objectNameToKey tableName
  | _ => False

def TableReached (name : ObjectName) (operations : List AlterTableOperation) (key : String) : Prop :=
  ReachesKey (objectNameToKey name) key ∨ ∃ op ∈ operations,RenameReaches (objectNameToKey name) key op

def TypeReached (name : ObjectName) (operation : AlterTypeOperation) (key : String) : Prop :=
  key = objectNameToKey name ∨ match operation with
    | .rename newName => key = CaseMap.lowercase newName.value
    | _ => False

-- The arguments of a function decide which overload it is. How their types
-- read may depend on the domains there are.
def signatureOf (dialect : SqlDialect) (domains : AHashMap DomainDef) (definition : CreateFunction) : List String :=
  ((definition.args.map (processArgument dialect domains)).filter fun argument => argument.mode ≠ .out).map (·.sqlType)

def Targets (dialect : SqlDialect) : DdlStatement → CatalogObject → Prop
  | .createDomain domain,object => object = .domain (CaseMap.lowercase (trim domain.name))
  | .createTable table _,object => object = .table (objectNameToKey table.name)
  | .createView name _ _,object => object = .table (objectNameToKey name)
  | .createType name (.enum _),object => object = .enum (objectNameToKey name)
  | .createType name (.composite _),object => object = .composite (objectNameToKey name)
  | .createType _ .other,_ => False
  | .createFunction definition,object =>
    ∃ domains,object = .function (objectNameToKey definition.name) (signatureOf dialect domains definition)
  | .alterTable name operations,object => ∃ key,TableReached name operations key ∧ object = .table key
  | .alterType name operation,object =>
    ∃ key,TypeReached name operation key ∧ (object = .enum key ∨ object = .composite key)

def operationTypes : AlterTableOperation → List DataType
  | .addColumn columnDef => [columnDef.dataType]
  | .alterColumn _ (.setDataType dataType) => [dataType]
  | _ => []

def returnTypes : Option FunctionReturnType → List DataType
  | some (.dataType dataType) => [dataType]
  | some (.setOf dataType) => [dataType]
  | none => []

variable [TypeParser]

-- The types that a statement writes out.
def writtenTypes (dialect : SqlDialect) : DdlStatement → List DataType
  | .createDomain domain => (TypeParser.dataType dialect (trim domain.baseType)).toList
  | .createTable table _ => table.columns.map (·.dataType)
  | .createView _ columns _ => columns.filterMap (·.dataType)
  | .createType _ (.composite attributes) => attributes.map (·.2)
  | .createType _ _ => []
  | .createFunction definition => definition.args.map (·.dataType) ++ returnTypes definition.returnType
  | .alterTable _ operations => operations.flatMap operationTypes
  | .alterType _ _ => []

-- `asked` is what the statement's query asks the catalog for, if it has one.
def LooksAt (dialect : SqlDialect) (asked : CatalogObject → Prop) (statement : DdlStatement) (object : CatalogObject) :
    Prop :=
  Targets dialect statement object ∨ asked object ∨
    ∃ dataType ∈ writtenTypes dialect statement,∃ key,TypeReads dataType key ∧ object = .domain key

def statementQuery : DdlStatement → Option Query
  | .createTable table query => if table.columns.isEmpty then query else none
  | .createView _ _ query => some query
  | _ => none

-- Two catalogs with the same entries there give the query the same columns.
def Asks (asked : CatalogObject → Prop) (query : Query) : Prop :=
  ∀ a b,DistinctOverloads a → DistinctOverloads b → (∀ object,asked object → agree object a b) →
    resolveSelectColumns a query = resolveSelectColumns b query

-- The enums that stand in the columns of a table go into the catalog too.
def InlineWrites (dialect : SqlDialect) : DdlStatement → CatalogObject → Prop
  | .createTable table _,object => ∃ entry ∈ inlineEnums dialect table,object = .enum entry.1
  | _,_ => False

def Changes (dialect : SqlDialect) (statement : DdlStatement) (object : CatalogObject) : Prop :=
  Targets dialect statement object ∨ InlineWrites dialect statement object

end

-- A change of one map leaves an entry alone that is not in it, or that it keeps.
section
variable {catalog : Catalog} {object : CatalogObject}

theorem agree_refl (object : CatalogObject) (catalog : Catalog) : agree object catalog catalog :=
  (agree_equivalence object).refl catalog

theorem frame_tables {tables : AHashMap Table}
    (kept : ∀ key,object = .table key → catalog.tables.lookup key = tables.lookup key) :
    agree object catalog { catalog with tables := tables } := by
  cases object with
  | table key => exact kept key rfl
  | settings => exact ⟨rfl,rfl,rfl,same_refl _ _⟩
  | _ => rfl

theorem frame_enums {enums : AHashMap EnumType}
    (kept : ∀ key,object = .enum key → catalog.enums.lookup key = enums.lookup key) :
    agree object catalog { catalog with enums := enums } := by
  cases object with
  | enum key => exact kept key rfl
  | settings => exact ⟨rfl,rfl,rfl,same_refl _ _⟩
  | _ => rfl

theorem frame_composites {composites : AHashMap CompositeType}
    (kept : ∀ key,object = .composite key → catalog.composites.lookup key = composites.lookup key) :
    agree object catalog { catalog with composites := composites } := by
  cases object with
  | composite key => exact kept key rfl
  | settings => exact ⟨rfl,rfl,rfl,same_refl _ _⟩
  | _ => rfl

theorem frame_domains {domains : AHashMap DomainDef}
    (kept : ∀ key,object = .domain key → catalog.domains.lookup key = domains.lookup key) :
    agree object catalog { catalog with domains := domains } := by
  cases object with
  | domain key => exact kept key rfl
  | settings => exact ⟨rfl,rfl,rfl,same_refl _ _⟩
  | _ => rfl

theorem frame_functions {functions : AHashMap (List CatalogFunction)}
    (kept : ∀ key signature,object = .function key signature →
      overloadAt catalog key signature = overloadAt { catalog with functions := functions } key signature) :
    agree object catalog { catalog with functions := functions } := by
  cases object with
  | function key signature => exact kept key signature rfl
  | settings => exact ⟨rfl,rfl,rfl,same_refl _ _⟩
  | _ => rfl

theorem distinct_kept {a b : Catalog} (functions : b.functions = a.functions) (distinct : DistinctOverloads a) :
    DistinctOverloads b := by
  obtain ⟨filled,apart⟩ := distinct
  exact ⟨by rwa [functions],by rwa [functions]⟩

-- A statement that is never refused.
theorem footprint_total {valid : Catalog → Prop} {f : Catalog → Catalog} {writes reads : CatalogObject → Prop}
    (keeps : ∀ s,valid s → valid (f s)) (frame : ∀ s object,¬writes object → agree object s (f s))
    (outcome : ∀ s t,(∀ object,reads object → agree object s t) → ∀ object,writes object → agree object (f s) (f t)) :
    Footprint valid agree (fun s => some (f s)) writes reads := by
  refine ⟨?_,?_,fun s t _ _ same => .some (outcome s t same)⟩
  · intro s s' is held
    cases is
    exact keeps s held
  · intro s s' is object outside
    cases is
    exact frame s object outside

end

section
variable [CaseMap] [Printer] [TypeParser] {dialect : SqlDialect} {asked : CatalogObject → Prop} {s t : Catalog}

theorem same_types {statement : DdlStatement} (same : ∀ object,LooksAt dialect asked statement object → agree object s t)
    {dataType : DataType} (written : dataType ∈ writtenTypes dialect statement) : SameFor dataType s.domains t.domains :=
  fun key read => same (.domain key) (.inr (.inr ⟨dataType,written,key,read,rfl⟩))

theorem same_target {statement : DdlStatement} (same : ∀ object,LooksAt dialect asked statement object → agree object s t)
    {object : CatalogObject} (target : Targets dialect statement object) : agree object s t := same object (.inl target)

theorem footprint_createDomain (domain : CreateDomain) :
    Footprint DistinctOverloads agree (applied dialect (.createDomain domain)) (Changes dialect (.createDomain domain))
      (LooksAt dialect asked (.createDomain domain)) := by
  refine footprint_total (fun s => distinct_kept rfl) ?_ ?_
  · intro s object outside
    refine frame_domains fun key is => (AList.lookup_insert_ne fun own => outside (.inl ?_)).symm
    rw [is,own]
    rfl
  · intro s t same object inside
    cases inside with
    | inr inline => cases inline
    | inl target =>
      cases target
      simp only [agree,AgreeAt,processCreateDomain,AList.lookup_insert]
      cases parsed : TypeParser.dataType dialect (trim domain.baseType) with
      | none => rfl
      | some dataType =>
        have written : dataType ∈ writtenTypes dialect (.createDomain domain) := by simp [writtenTypes,parsed]
        simp only [normalizeDataType_local dataType (same_types same written)]

theorem footprint_createType (name : ObjectName) (representation : UserDefinedTypeRepresentation) :
    Footprint DistinctOverloads agree (applied dialect (.createType name representation))
      (Changes dialect (.createType name representation)) (LooksAt dialect asked (.createType name representation)) := by
  refine footprint_total (fun s => distinct_kept ?_) ?_ ?_
  · cases representation <;> rfl
  · intro s object outside
    cases representation with
    | enum labels =>
      refine frame_enums fun key is => (AList.lookup_insert_ne fun own => outside (.inl ?_)).symm
      rw [is,own]
      rfl
    | composite attributes =>
      refine frame_composites fun key is => (AList.lookup_insert_ne fun own => outside (.inl ?_)).symm
      rw [is,own]
      rfl
    | other => exact agree_refl object s
  · intro s t same object inside
    cases inside with
    | inr inline => cases inline
    | inl target =>
      cases representation with
      | enum labels =>
        cases target
        simp only [agree,AgreeAt,processCreateType,AList.lookup_insert]
      | composite attributes =>
        cases target
        have fields : (attributes.map fun (field : Ident × DataType) =>
              (⟨identToLower field.1,(normalizeDataType s.domains dialect field.2).1,true⟩ : CompositeField)) =
            attributes.map fun field =>
              ⟨identToLower field.1,(normalizeDataType t.domains dialect field.2).1,true⟩ := by
          refine List.map_congr_left fun field among => ?_
          have written : field.2 ∈ writtenTypes dialect (.createType name (.composite attributes)) :=
            List.mem_map_of_mem among
          rw [normalizeDataType_local field.2 (same_types same written)]
        simp only [agree,AgreeAt,processCreateType,AList.lookup_insert,fields]
      | other => cases target

-- The columns of a table, whatever else the catalog holds.
omit [TypeParser] in
theorem columnsFor_local {domains others : AHashMap DomainDef} (ct : CreateTable)
    (same : ∀ colDef ∈ ct.columns,SameFor colDef.dataType domains others) :
    columnsFor dialect domains ct = columnsFor dialect others ct := by
  have columns : ct.columns.map (columnFor dialect domains ct) = ct.columns.map (columnFor dialect others ct) := by
    refine List.map_congr_left fun colDef among => ?_
    simp only [columnFor,columnOf,normalizeDataType_local colDef.dataType (same colDef among)]
  rw [columnsFor,columnsFor,columns]

omit [Printer] [TypeParser] in
theorem inline_kept {map : AHashMap EnumType} {ct : CreateTable} {key : String}
    (other : ¬InlineWrites dialect (.createTable ct query) (.enum key)) :
    map.lookup key = (write map (inlineEnums dialect ct)).lookup key := by
  refine (lookup_write_other fun entry among own => other ⟨entry,among,?_⟩).symm
  rw [own]

theorem footprint_createTable (table : CreateTable) (query : Option Query)
    (listed : statementQuery (.createTable table query) = none) :
    Footprint DistinctOverloads agree (applied dialect (.createTable table query))
      (Changes dialect (.createTable table query)) (LooksAt dialect asked (.createTable table query)) := by
  have plain : applied dialect (.createTable table query) =
      fun s => some (processCreateTable dialect s table) := by
    funext s
    cases columns : table.columns with
    | cons => simp only [applied,processDdl,columns,Option.bind_some,Except.toOption]
    | nil =>
      cases query with
      | none => simp only [applied,processDdl,columns,Option.bind_some,Except.toOption]
      | some query => simp [statementQuery,columns] at listed
  rw [plain]
  refine footprint_total (fun s => distinct_kept ?_) ?_ ?_
  · rw [createTable_written]
  · intro s object outside
    rw [createTable_written]
    have first : agree object s { s with enums := write s.enums (inlineEnums dialect table) } :=
      frame_enums fun key is => inline_kept fun inline => outside (.inr (is ▸ inline))
    refine (agree_equivalence object).trans first (frame_tables fun key is => ?_)
    have other : key ≠ objectNameToKey table.name := by
      intro own
      refine outside (.inl ?_)
      rw [is,own]
      rfl
    dsimp only
    split
    · rfl
    · exact (AList.lookup_insert_ne other).symm
  · intro s t same object inside
    rw [createTable_written,createTable_written]
    cases inside with
    | inl target =>
      cases target
      have known : s.tables.lookup (objectNameToKey table.name) = t.tables.lookup (objectNameToKey table.name) :=
        same_target same rfl
      have member : objectNameToKey table.name ∈ s.tables ↔ objectNameToKey table.name ∈ t.tables := by
        rw [←AList.lookup_isSome,←AList.lookup_isSome,known]
      have columns : columnsFor dialect s.domains table = columnsFor dialect t.domains table :=
        columnsFor_local table fun colDef among => same_types same (List.mem_map_of_mem among)
      simp only [agree,AgreeAt,member,columns]
      split
      · exact known
      · rw [AList.lookup_insert,AList.lookup_insert]
    | inr inline =>
      obtain ⟨entry,among,rfl⟩ := inline
      obtain ⟨value,stands⟩ := written_stands ⟨entry,among,rfl⟩
      simp only [agree,AgreeAt]
      rw [lookup_standing stands,lookup_standing stands]

omit [TypeParser] in
theorem viewColumns_local {domains others : AHashMap DomainDef} {declared : List ViewColumnDef}
    (same : ∀ dataType ∈ declared.filterMap (·.dataType),SameFor dataType domains others) (analyzed : List Column) :
    viewColumns dialect domains declared analyzed = viewColumns dialect others declared analyzed := by
  have each : ∀ vc ∈ declared,
      (vc.dataType.map fun dt => (normalizeDataType domains dialect dt).1) =
        vc.dataType.map fun dt => (normalizeDataType others dialect dt).1 := by
    intro vc among
    cases given : vc.dataType with
    | none => rfl
    | some dataType =>
      have written := same dataType (List.mem_filterMap.mpr ⟨vc,among,given⟩)
      rw [Option.map_some,Option.map_some,normalizeDataType_local dataType written]
  have columns : declared.zipWith (fun (vc : ViewColumnDef) (column : Column) =>
        (⟨identToLower vc.name,(vc.dataType.map fun dt => (normalizeDataType domains dialect dt).1).getD column.sqlType,
          column.nullable,none,false⟩ : Column)) analyzed =
      declared.zipWith (fun vc column =>
        ⟨identToLower vc.name,(vc.dataType.map fun dt => (normalizeDataType others dialect dt).1).getD column.sqlType,
          column.nullable,none,false⟩) analyzed := by
    clear same
    induction declared generalizing analyzed with
    | nil => rfl
    | cons vc declared ih =>
      cases analyzed with
      | nil => rfl
      | cons column analyzed =>
        rw [List.zipWith_cons_cons,List.zipWith_cons_cons,each vc List.mem_cons_self,
          ih analyzed fun other among => each other (List.mem_cons_of_mem _ among)]
  rw [viewColumns,viewColumns,columns]

theorem applied_createView (name : ObjectName) (declared : List ViewColumnDef) (query : Query) (s : Catalog) :
    applied dialect (.createView name declared query) s =
      ((resolveSelectColumns s query).bind Except.toOption).bind fun analyzed =>
        (viewColumns dialect s.domains declared analyzed).toOption.map fun columns =>
          { s with tables := s.tables.insert (objectNameToKey name) ⟨columns,objectNameToRawName name⟩ } := by
  simp only [applied,processDdl,processCreateView]
  cases resolveSelectColumns s query with
  | none => rfl
  | some outcome =>
    cases outcome with
    | error => rfl
    | ok analyzed =>
      have read : (Except.ok analyzed : Except ScytheError (List Column)).toOption = some analyzed := rfl
      rw [Option.bind_some,read,Option.bind_some]
      cases found : viewColumns dialect s.domains declared analyzed with
      | error failure => simp [bind,Except.bind,found,Except.toOption]
      | ok columns => simp [bind,Except.bind,found,Except.toOption,pure,Except.pure]

theorem applied_createTableAs {table : CreateTable} {query : Query} (unlisted : table.columns = []) (s : Catalog) :
    applied dialect (.createTable table (some query)) s =
      ((resolveSelectColumns s query).bind Except.toOption).map fun columns =>
        if table.ifNotExists ∧ objectNameToKey table.name ∈ s.tables then s else
        { s with tables := s.tables.insert (objectNameToKey table.name) ⟨columns,objectNameToRawName table.name⟩ } := by
  simp only [applied,processDdl,unlisted,processCreateTableAs]
  cases resolveSelectColumns s query with
  | none => rfl
  | some outcome => cases outcome <;> rfl

theorem footprint_createView (name : ObjectName) (declared : List ViewColumnDef) (query : Query)
    (asks : Asks asked query) :
    Footprint DistinctOverloads agree (applied dialect (.createView name declared query))
      (Changes dialect (.createView name declared query)) (LooksAt dialect asked (.createView name declared query)) := by
  have stored {s s' : Catalog} (is : applied dialect (.createView name declared query) s = some s') :
      ∃ table,s' = { s with tables := s.tables.insert (objectNameToKey name) table } := by
    rw [applied_createView] at is
    obtain ⟨analyzed,-,is⟩ := Option.bind_eq_some_iff.mp is
    obtain ⟨columns,-,is⟩ := Option.map_eq_some_iff.mp is
    exact ⟨_,is.symm⟩
  constructor
  · intro s s' is held
    obtain ⟨table,rfl⟩ := stored is
    exact @distinct_kept s _ rfl held
  · intro s s' is object outside
    obtain ⟨table,rfl⟩ := stored is
    refine frame_tables fun key at' => (AList.lookup_insert_ne fun own => outside (.inl ?_)).symm
    rw [at',own]
    rfl
  · intro s t left right same
    rw [applied_createView,applied_createView,asks s t left right fun object looked => same object (.inr (.inl looked))]
    cases (resolveSelectColumns t query).bind Except.toOption with
    | none => exact .none
    | some analyzed =>
      rw [Option.bind_some,Option.bind_some,viewColumns_local fun dataType written => same_types same written]
      cases (viewColumns dialect t.domains declared analyzed).toOption with
      | none => exact .none
      | some columns =>
        refine .some fun object inside => ?_
        cases inside with
        | inr inline => cases inline
        | inl target =>
          cases target
          simp only [agree,AgreeAt,AList.lookup_insert]

theorem footprint_createTableAs {table : CreateTable} {query : Query} (unlisted : table.columns = [])
    (asks : Asks asked query) :
    Footprint DistinctOverloads agree (applied dialect (.createTable table (some query)))
      (Changes dialect (.createTable table (some query))) (LooksAt dialect asked (.createTable table (some query))) := by
  constructor
  · intro s s' is held
    rw [applied_createTableAs unlisted] at is
    obtain ⟨columns,-,rfl⟩ := Option.map_eq_some_iff.mp is
    split
    · exact held
    · exact @distinct_kept s _ rfl held
  · intro s s' is object outside
    rw [applied_createTableAs unlisted] at is
    obtain ⟨columns,-,rfl⟩ := Option.map_eq_some_iff.mp is
    split
    · exact agree_refl object s
    · refine frame_tables fun key at' => (AList.lookup_insert_ne fun own => outside (.inl ?_)).symm
      rw [at',own]
      rfl
  · intro s t left right same
    rw [applied_createTableAs unlisted,applied_createTableAs unlisted,
      asks s t left right fun object looked => same object (.inr (.inl looked))]
    cases (resolveSelectColumns t query).bind Except.toOption with
    | none => exact .none
    | some columns =>
      refine .some fun object inside => ?_
      cases inside with
      | inr inline =>
        obtain ⟨entry,among,-⟩ := inline
        simp [inlineEnums,unlisted] at among
      | inl target =>
        cases target
        have known : s.tables.lookup (objectNameToKey table.name) = t.tables.lookup (objectNameToKey table.name) :=
          same_target same rfl
        have member : objectNameToKey table.name ∈ s.tables ↔ objectNameToKey table.name ∈ t.tables := by
          rw [←AList.lookup_isSome,←AList.lookup_isSome,known]
        simp only [agree,AgreeAt,member]
        split
        · exact known
        · rw [AList.lookup_insert,AList.lookup_insert]

end

-- The overloads of one key, before and after one is put among them.
section
variable {overloads : List CatalogFunction} {function : CatalogFunction}

theorem find_set {index : Nat} {signature : List String}
    (found : (overloads.findIdx? fun f => inputSignature f = inputSignature function) = some index) :
    ((overloads.set index function).find? fun f => inputSignature f = signature) =
      if inputSignature function = signature then some function
      else overloads.find? fun f => inputSignature f = signature := by
  induction overloads generalizing index with
  | nil => cases found
  | cons first overloads ih =>
    rw [List.findIdx?_cons] at found
    by_cases here : inputSignature first = inputSignature function
    · simp only [here,decide_true,if_true] at found
      cases found
      by_cases own : inputSignature function = signature
      · simp [own]
      · simp [own,here]
    · simp only [here,decide_false,Bool.false_eq_true,if_false] at found
      obtain ⟨later,inside,rfl⟩ := Option.map_eq_some_iff.mp found
      rw [List.set_cons_succ,List.find?_cons,ih inside,List.find?_cons]
      by_cases own : inputSignature function = signature
      · have other : ¬inputSignature first = signature := fun same => here (same.trans own.symm)
        simp [own,other]
      · simp [own]

theorem find_append {signature : List String}
    (absent : (overloads.findIdx? fun f => inputSignature f = inputSignature function) = none) :
    ((overloads ++ [function]).find? fun f => inputSignature f = signature) =
      if inputSignature function = signature then some function
      else overloads.find? fun f => inputSignature f = signature := by
  rw [List.find?_append]
  by_cases own : inputSignature function = signature
  · have none' : (overloads.find? fun f => inputSignature f = signature) = none := by
      rw [List.find?_eq_none]
      intro other among
      have differs := List.findIdx?_eq_none_iff.mp absent other among
      rw [own] at differs
      simpa using differs
    simp [own,none']
  · simp [own]

-- The list with the function in the place of the one of its signature, or at the end.
structure OverloadPlaced (overloads : List CatalogFunction) (function : CatalogFunction) (after : List CatalogFunction) :
    Prop where
  filled : after ≠ []
  apart : (overloads.map inputSignature).Nodup → (after.map inputSignature).Nodup
  found : ∀ signature,(after.find? fun f => inputSignature f = signature) =
    if inputSignature function = signature then some function
    else overloads.find? fun f => inputSignature f = signature

theorem placed_set {index : Nat}
    (found : (overloads.findIdx? fun f => inputSignature f = inputSignature function) = some index) :
    OverloadPlaced overloads function (overloads.set index function) := by
  obtain ⟨inside,held,-⟩ := List.findIdx?_eq_some_iff_getElem.mp found
  refine ⟨?_,?_,fun signature => find_set found⟩
  · intro empty
    have size := congrArg List.length empty
    rw [List.length_set,List.length_nil] at size
    omega
  · intro apart
    have within : index < (overloads.map inputSignature).length := by rwa [List.length_map]
    have named : (overloads.map inputSignature)[index] = inputSignature function := by
      rw [List.getElem_map]
      exact of_decide_eq_true held
    have unchanged : (overloads.set index function).map inputSignature = overloads.map inputSignature := by
      rw [List.map_set,←named,List.set_getElem_self]
    rwa [unchanged]

theorem placed_append
    (absent : (overloads.findIdx? fun f => inputSignature f = inputSignature function) = none) :
    OverloadPlaced overloads function (overloads ++ [function]) := by
  refine ⟨by simp,?_,fun signature => find_append absent⟩
  intro apart
  rw [List.map_append,List.nodup_append]
  refine ⟨apart,List.nodup_singleton _,?_⟩
  intro left inLeft right inRight same
  obtain ⟨other,among,rfl⟩ := List.mem_map.mp inLeft
  have differs := List.findIdx?_eq_none_iff.mp absent other among
  rw [List.mem_singleton.mp inRight] at same
  simp [same] at differs

theorem findIdx_isSome {xs : List CatalogFunction} {signature : List String} :
    (xs.findIdx? fun f => inputSignature f = signature).isSome =
      (xs.find? fun f => inputSignature f = signature).isSome := by
  rw [List.findIdx?_isSome,Bool.eq_iff_iff,List.find?_isSome,List.any_eq_true]

end

section
variable [CaseMap] [Printer] [TypeParser] {dialect : SqlDialect} {asked : CatalogObject → Prop}

-- The function that a statement defines, and the overloads with it among them.
def definedFunction (dialect : SqlDialect) (domains : AHashMap DomainDef) (definition : CreateFunction) :
    Option CatalogFunction :=
  let arguments := definition.args.map (processArgument dialect domains)
  (processReturn dialect domains arguments definition.returnType).map fun returnType => ⟨arguments,returnType⟩

omit [TypeParser] in
theorem definedFunction_signature {domains : AHashMap DomainDef} {definition : CreateFunction}
    {function : CatalogFunction} (defined : definedFunction dialect domains definition = some function) :
    inputSignature function = signatureOf dialect domains definition := by
  obtain ⟨returnType,-,rfl⟩ := Option.map_eq_some_iff.mp defined
  rfl

theorem definedFunction_local {domains others : AHashMap DomainDef} {definition : CreateFunction}
    (same : ∀ dataType ∈ writtenTypes dialect (.createFunction definition),SameFor dataType domains others) :
    definedFunction dialect domains definition = definedFunction dialect others definition ∧
      signatureOf dialect domains definition = signatureOf dialect others definition := by
  have arguments : definition.args.map (processArgument dialect domains) =
      definition.args.map (processArgument dialect others) := by
    refine List.map_congr_left fun argument among => ?_
    have written := same argument.dataType (List.mem_append_left _ (List.mem_map_of_mem among))
    rw [processArgument,processArgument,functionSqlType_local argument.dataType written]
  have returned : processReturn dialect domains (definition.args.map (processArgument dialect others))
        definition.returnType =
      processReturn dialect others (definition.args.map (processArgument dialect others)) definition.returnType := by
    have own (dataType : DataType) (inside : dataType ∈ returnTypes definition.returnType) :=
      @functionSqlType_local _ domains others dialect _ dataType (same dataType (List.mem_append_right _ inside))
    unfold processReturn
    cases given : definition.returnType with
    | none => rfl
    | some returnType =>
      rw [given] at own
      cases returnType with
      | dataType dataType => simp only [own dataType (List.mem_singleton_self _)]
      | setOf dataType => simp only [own dataType (List.mem_singleton_self _)]
  exact ⟨by simp only [definedFunction,arguments,returned],by rw [signatureOf,signatureOf,arguments]⟩

def overloadsOf (catalog : Catalog) (definition : CreateFunction) : List CatalogFunction :=
  (catalog.functions.lookup (objectNameToKey definition.name)).getD []

def withOverloads (catalog : Catalog) (definition : CreateFunction) (overloads : List CatalogFunction) : Catalog :=
  { catalog with functions := catalog.functions.insert (objectNameToKey definition.name) overloads }

theorem applied_createFunction (definition : CreateFunction) (s : Catalog) :
    applied dialect (.createFunction definition) s =
      match definedFunction dialect s.domains definition with
      | none => some s
      | some function =>
        match (overloadsOf s definition).findIdx? fun f => inputSignature f = inputSignature function with
        | some index =>
          if definition.orReplace ∨ definition.orAlter then
            some (withOverloads s definition ((overloadsOf s definition).set index function))
          else if ¬definition.ifNotExists then none else some s
        | none => some (withOverloads s definition (overloadsOf s definition ++ [function])) := by
  simp only [applied,processDdl,processCreateFunction,definedFunction,Option.bind_some]
  cases processReturn dialect s.domains (definition.args.map (processArgument dialect s.domains))
      definition.returnType with
  | none => rfl
  | some returnType =>
    simp only [Option.map_some]
    change Except.toOption (match (overloadsOf s definition).findIdx? _ with | some index => _ | none => _) = _
    split
    · split
      · rfl
      · split <;> rfl
    · rfl

theorem createFunction_cases {definition : CreateFunction} {s s' : Catalog}
    (is : applied dialect (.createFunction definition) s = some s') :
    s' = s ∨ ∃ function after,definedFunction dialect s.domains definition = some function ∧
      OverloadPlaced (overloadsOf s definition) function after ∧ s' = withOverloads s definition after := by
  rw [applied_createFunction] at is
  split at is
  · cases is
    exact .inl rfl
  · rename_i function defined
    refine or_iff_not_imp_left.mpr fun changed => ?_
    split at is
    · rename_i index found
      split at is
      · cases is
        exact ⟨function,_,defined,placed_set found,rfl⟩
      · split at is
        · cases is
        · cases is
          exact absurd rfl changed
    · rename_i absent
      cases is
      exact ⟨function,_,defined,placed_append absent,rfl⟩

-- The overload that answers to the statement's own signature afterwards; `none`
-- where the statement is refused.
def answered (definition : CreateFunction) (defined existing : Option CatalogFunction) :
    Option (Option CatalogFunction) :=
  match defined with
  | none => some existing
  | some function =>
    if existing.isNone ∨ definition.orReplace ∨ definition.orAlter then some (some function)
    else if ¬definition.ifNotExists then none else some existing

omit [Printer] [TypeParser] in
theorem withOverloads_at (s : Catalog) (definition : CreateFunction) (after : List CatalogFunction)
    (signature : List String) :
    overloadAt (withOverloads s definition after) (objectNameToKey definition.name) signature =
      after.find? fun f => inputSignature f = signature := by
  rw [overloadAt,withOverloads,AList.lookup_insert,Option.getD_some]

theorem applied_answered (definition : CreateFunction) (s : Catalog) :
    (applied dialect (.createFunction definition) s).map
        (fun s' => overloadAt s' (objectNameToKey definition.name) (signatureOf dialect s.domains definition)) =
      answered definition (definedFunction dialect s.domains definition)
        (overloadAt s (objectNameToKey definition.name) (signatureOf dialect s.domains definition)) := by
  rw [applied_createFunction]
  cases defined : definedFunction dialect s.domains definition with
  | none => rfl
  | some function =>
    have own := definedFunction_signature defined
    have existing := @findIdx_isSome (overloadsOf s definition) (inputSignature function)
    have held : overloadAt s (objectNameToKey definition.name) (inputSignature function) =
        (overloadsOf s definition).find? fun f => inputSignature f = inputSignature function := rfl
    rw [←own]
    dsimp only [answered]
    cases found : (overloadsOf s definition).findIdx? fun f => inputSignature f = inputSignature function with
    | none =>
      rw [found] at existing
      have absent : (overloadAt s (objectNameToKey definition.name) (inputSignature function)).isNone = true := by
        rw [held,←Option.not_isSome,←existing]
        rfl
      rw [Option.map_some,withOverloads_at,(placed_append found).found,if_pos rfl,if_pos (.inl absent)]
    | some index =>
      rw [found] at existing
      have present : ¬(overloadAt s (objectNameToKey definition.name) (inputSignature function)).isNone = true := by
        rw [held,←Option.not_isSome,←existing]
        simp
      dsimp only
      by_cases replaced : definition.orReplace = true ∨ definition.orAlter = true
      · rw [if_pos replaced,if_pos (.inr replaced),Option.map_some,withOverloads_at,(placed_set found).found,if_pos rfl]
      · rw [if_neg replaced,if_neg (not_or.mpr ⟨present,replaced⟩)]
        split <;> rfl

theorem footprint_createFunction (definition : CreateFunction) :
    Footprint DistinctOverloads agree (applied dialect (.createFunction definition))
      (Changes dialect (.createFunction definition)) (LooksAt dialect asked (.createFunction definition)) := by
  -- Only the signature under the domains there are can change its overload.
  have frame {s s' : Catalog} (is : applied dialect (.createFunction definition) s = some s') (object : CatalogObject)
      (other : object ≠ .function (objectNameToKey definition.name) (signatureOf dialect s.domains definition)) :
      agree object s s' := by
    obtain rfl | ⟨function,after,defined,placed,rfl⟩ := createFunction_cases is
    · exact agree_refl object s'
    · refine frame_functions fun key signature at' => ?_
      by_cases same : key = objectNameToKey definition.name
      · subst same
        have differs : ¬inputSignature function = signature := by
          intro own
          refine other ?_
          rw [at',←definedFunction_signature defined,own]
        exact ((withOverloads_at s definition after signature).trans
          ((placed.found signature).trans (if_neg differs))).symm
      · rw [overloadAt,overloadAt,AList.lookup_insert_ne same]
  constructor
  · intro s s' is held
    obtain rfl | ⟨function,after,-,placed,rfl⟩ := createFunction_cases is
    · exact held
    · have apart : ((overloadsOf s definition).map inputSignature).Nodup := by
        unfold overloadsOf
        cases found : s.functions.lookup (objectNameToKey definition.name) with
        | none => exact List.nodup_nil
        | some overloads => exact held.apart _ overloads found
      constructor
      · intro key overloads found
        by_cases same : key = objectNameToKey definition.name
        · rw [same,withOverloads,AList.lookup_insert] at found
          cases found
          exact placed.filled
        · rw [withOverloads,AList.lookup_insert_ne same] at found
          exact held.filled key overloads found
      · intro key overloads found
        by_cases same : key = objectNameToKey definition.name
        · rw [same,withOverloads,AList.lookup_insert] at found
          cases found
          exact placed.apart apart
        · rw [withOverloads,AList.lookup_insert_ne same] at found
          exact held.apart key overloads found
  · intro s s' is object outside
    refine frame is object fun own => outside (.inl ⟨s.domains,own⟩)
  · intro s t left right same
    obtain ⟨defined,signature⟩ := definedFunction_local fun dataType written => same_types same written
    have existing : overloadAt s (objectNameToKey definition.name) (signatureOf dialect t.domains definition) =
        overloadAt t (objectNameToKey definition.name) (signatureOf dialect t.domains definition) :=
      same_target same ⟨t.domains,rfl⟩
    have answer := @applied_answered _ _ _ dialect definition s
    have answer' := @applied_answered _ _ _ dialect definition t
    rw [defined,signature,existing,←answer'] at answer
    cases first : applied dialect (.createFunction definition) s with
    | none =>
      rw [first] at answer
      rw [Option.map_eq_none_iff.mp answer.symm]
      exact .none
    | some s' =>
      rw [first] at answer
      obtain ⟨t',second,equal⟩ := Option.map_eq_some_iff.mp answer.symm
      rw [second]
      refine .some fun object inside => ?_
      cases inside with
      | inr inline => cases inline
      | inl target =>
        by_cases own : object = .function (objectNameToKey definition.name) (signatureOf dialect t.domains definition)
        · subst own
          exact equal.symm
        · have back := (agree_equivalence object).symm (frame first object (signature ▸ own))
          exact (agree_equivalence object).trans back
            ((agree_equivalence object).trans (same_target same target) (frame second object own))

end

-- One entry rewritten where it is there, and one entry moved to another key.
section
variable {α : Type} {map other : AHashMap α} {old new key : String}

def entryRewritten (map : AHashMap α) (key : String) (change : α → α) : AHashMap α :=
  match map.lookup key with
  | some value => map.insert key (change value)
  | none => map

theorem lookup_rewritten (change : α → α) :
    (entryRewritten map old change).lookup key = if key = old then (map.lookup old).map change else map.lookup key := by
  unfold entryRewritten
  by_cases own : key = old
  · subst own
    rw [if_pos rfl]
    cases found : map.lookup key with
    | none => exact found
    | some value => exact AList.lookup_insert map
  · rw [if_neg own]
    cases map.lookup old with
    | none => rfl
    | some value => exact AList.lookup_insert_ne own

def moved (map : AHashMap α) (old new : String) : AHashMap α :=
  match map.lookup old with
  | some value => (map.erase old).insert new value
  | none => map

theorem lookup_moved_other (left : key ≠ old) (right : key ≠ new) : (moved map old new).lookup key = map.lookup key := by
  unfold moved
  cases map.lookup old with
  | none => rfl
  | some value => exact (AList.lookup_insert_ne right).trans (AList.lookup_erase_ne left)

theorem lookup_moved (same : map.lookup old = other.lookup old) (here : map.lookup key = other.lookup key) :
    (moved map old new).lookup key = (moved other old new).lookup key := by
  unfold moved
  rw [same]
  cases other.lookup old with
  | none => exact here
  | some value =>
    by_cases right : key = new
    · rw [right,AList.lookup_insert,AList.lookup_insert]
    · rw [AList.lookup_insert_ne right,AList.lookup_insert_ne right]
      by_cases left : key = old
      · rw [left,AList.lookup_erase,AList.lookup_erase]
      · rw [AList.lookup_erase_ne left,AList.lookup_erase_ne left,here]

end

section
variable [CaseMap] [Printer] [TypeParser] {dialect : SqlDialect} {asked : CatalogObject → Prop}

omit [Printer] [TypeParser] in
theorem processAlterType_eq (catalog : Catalog) (name : ObjectName) (operation : AlterTypeOperation) :
    processAlterType catalog name operation =
      match operation with
      | .addValue _ value _ =>
        { catalog with
          enums := entryRewritten catalog.enums (objectNameToKey name) fun enum => ⟨enum.values ++ [value.value]⟩ }
      | .renameValue old new =>
        { catalog with
          enums := entryRewritten catalog.enums (objectNameToKey name) fun enum =>
            ⟨renameFirst old.value new.value enum.values⟩ }
      | .rename newName =>
        { catalog with
          enums := moved catalog.enums (objectNameToKey name) (CaseMap.lowercase newName.value)
          composites := moved catalog.composites (objectNameToKey name) (CaseMap.lowercase newName.value) } := by
  cases operation with
  | addValue ifNotExists value position =>
    simp only [processAlterType,entryRewritten]
    cases catalog.enums.lookup (objectNameToKey name) <;> rfl
  | renameValue old new =>
    simp only [processAlterType,entryRewritten]
    cases catalog.enums.lookup (objectNameToKey name) <;> rfl
  | rename newName =>
    simp only [processAlterType,moved]
    cases catalog.enums.lookup (objectNameToKey name) <;>
      cases catalog.composites.lookup (objectNameToKey name) <;> rfl

theorem footprint_alterType (name : ObjectName) (operation : AlterTypeOperation) :
    Footprint DistinctOverloads agree (applied dialect (.alterType name operation))
      (Changes dialect (.alterType name operation)) (LooksAt dialect asked (.alterType name operation)) := by
  have rewrites {s : Catalog} {change : EnumType → EnumType} {object : CatalogObject}
      (outside : object ≠ .enum (objectNameToKey name)) :
      agree object s { s with enums := entryRewritten s.enums (objectNameToKey name) change } := by
    refine frame_enums fun key at' => ?_
    rw [lookup_rewritten,if_neg]
    intro own
    exact outside (by rw [at',own])
  have renames {s : Catalog} {newName : String} {object : CatalogObject}
      (outside : ∀ key,key = objectNameToKey name ∨ key = newName → object ≠ .enum key ∧ object ≠ .composite key) :
      agree object s { s with
        enums := moved s.enums (objectNameToKey name) newName
        composites := moved s.composites (objectNameToKey name) newName } := by
    have enums : agree object s { s with enums := moved s.enums (objectNameToKey name) newName } :=
      frame_enums fun key at' => (lookup_moved_other (fun own => (outside key (.inl own)).1 at')
        fun own => (outside key (.inr own)).1 at').symm
    refine (agree_equivalence object).trans enums (frame_composites fun key at' => (lookup_moved_other ?_ ?_).symm)
    · exact fun own => (outside key (.inl own)).2 at'
    · exact fun own => (outside key (.inr own)).2 at'
  refine footprint_total (fun s => distinct_kept ?_) ?_ ?_
  · rw [processAlterType_eq]
    cases operation <;> rfl
  · intro s object outside
    rw [processAlterType_eq]
    have untouched (key : String) (reached : TypeReached name operation key) :
        object ≠ .enum key ∧ object ≠ .composite key :=
      ⟨fun own => outside (.inl ⟨key,reached,.inl own⟩),fun own => outside (.inl ⟨key,reached,.inr own⟩)⟩
    cases operation with
    | addValue => exact rewrites (untouched _ (.inl rfl)).1
    | renameValue => exact rewrites (untouched _ (.inl rfl)).1
    | rename newName => exact renames untouched
  · intro s t same object inside
    rw [processAlterType_eq,processAlterType_eq]
    cases inside with
    | inr inline => cases inline
    | inl target =>
      have here := same_target same target
      have enum : s.enums.lookup (objectNameToKey name) = t.enums.lookup (objectNameToKey name) :=
        same_target same  ⟨_,.inl rfl,.inl rfl⟩
      have composite : s.composites.lookup (objectNameToKey name) = t.composites.lookup (objectNameToKey name) :=
        same_target same  ⟨_,.inl rfl,.inr rfl⟩
      obtain ⟨key,reached,rfl | rfl⟩ := target
      · cases operation with
        | addValue => simp only [agree,AgreeAt,lookup_rewritten,enum] at here ⊢; rw [here]
        | renameValue => simp only [agree,AgreeAt,lookup_rewritten,enum] at here ⊢; rw [here]
        | rename newName => exact lookup_moved enum here
      · cases operation with
        | addValue => exact here
        | renameValue => exact here
        | rename newName => exact lookup_moved composite here

omit [TypeParser] in
theorem alterColumns_local {domains others : AHashMap DomainDef} {op : AlterTableOperation}
    (same : ∀ dataType ∈ operationTypes op,SameFor dataType domains others) (columns : List Column) :
    alterColumns dialect domains columns op = alterColumns dialect others columns op := by
  cases op with
  | addColumn columnDef =>
    have written := same columnDef.dataType (List.mem_singleton_self _)
    simp only [alterColumns,addedColumn,normalizeDataType_local columnDef.dataType written]
  | alterColumn columnName change =>
    cases change with
    | setDataType dataType =>
      have written := same dataType (List.mem_singleton_self _)
      simp only [alterColumns,alterColumn,normalizeDataType_local dataType written]
    | _ => rfl
  | _ => rfl

-- What an operation leaves: the tables alone, and among them the reached ones.
omit [TypeParser] in
theorem operation_only {tableKey : String} {op : AlterTableOperation} {s s' : Catalog}
    (is : processAlterTableOperation dialect tableKey s op = .ok s') :
    ∃ tables,s' = { s with tables := tables } ∧
      ∀ key,¬ReachesKey tableKey key → ¬RenameReaches tableKey key op → tables.lookup key = s.tables.lookup key := by
  unfold processAlterTableOperation at is
  split at is
  · rename_i tableName
    split at is
    · cases is
    · rename_i removed table target
      cases is
      refine ⟨_,rfl,fun key unreached unnamed => ?_⟩
      have new : key ≠ objectNameToKey tableName := fun own => unnamed (.inr own)
      have old : key ≠ removed := by
        intro own
        unfold renameTarget at target
        split at target
        · cases target
          exact unreached (.inl own)
        · obtain ⟨_,-,held⟩ := Option.map_eq_some_iff.mp target
          cases held
          exact unnamed (.inl own)
      rw [AList.lookup_insert_ne new,AList.lookup_erase_ne old]
  · cases is
    exact ⟨_,rfl,fun _ _ _ => rfl⟩
  · split at is
    · cases is
    · rename_i found table address
      cases is
      refine ⟨_,rfl,fun key unreached _ => AList.lookup_insert_ne fun own => unreached ?_⟩
      rw [own]
      exact getTableMut_addressed address

section
variable {reached : String → Prop}

-- Catalogs with the same tables under the keys that are reached.
def SameTables (reached : String → Prop) (s t : Catalog) : Prop :=
  ∀ key,reached key → s.tables.lookup key = t.tables.lookup key

omit [TypeParser] in
theorem operation_local {tableKey : String} {op : AlterTableOperation} {s t : Catalog}
    (reaches : ∀ key,ReachesKey tableKey key → reached key)
    (renames : ∀ key,RenameReaches tableKey key op → reached key) (same : SameTables reached s t)
    (types : ∀ dataType ∈ operationTypes op,SameFor dataType s.domains t.domains) :
    Option.Rel (SameTables reached) (processAlterTableOperation dialect tableKey s op).toOption
      (processAlterTableOperation dialect tableKey t op).toOption := by
  have addressed : getTableMut s.tables tableKey = getTableMut t.tables tableKey :=
    getTableMut_local fun key inside => same key (reaches key inside)
  have stored (key : String) (table : Table) :
      SameTables reached { s with tables := s.tables.insert key table } { t with tables := t.tables.insert key table } := by
    intro other inside
    by_cases own : other = key
    · rw [own,AList.lookup_insert,AList.lookup_insert]
    · rw [AList.lookup_insert_ne own,AList.lookup_insert_ne own,same other inside]
  have altered : ∀ op',alterColumns dialect s.domains op' op = alterColumns dialect t.domains op' op :=
    fun columns => alterColumns_local types columns
  have columnwise (missing : ∀ c : Catalog,getTableMut c.tables tableKey = none →
        (processAlterTableOperation dialect tableKey c op).toOption = none)
      (present : ∀ (c : Catalog) found table,getTableMut c.tables tableKey = some (found,table) →
        (processAlterTableOperation dialect tableKey c op).toOption =
          some { c with tables := (c.tables.insert found
            ({ table with columns := alterColumns dialect c.domains table.columns op } : Table)) }) :
      Option.Rel (SameTables reached) (processAlterTableOperation dialect tableKey s op).toOption
        (processAlterTableOperation dialect tableKey t op).toOption := by
    cases is : getTableMut t.tables tableKey with
    | none =>
      rw [missing s (addressed.trans is),missing t is]
      exact .none
    | some address =>
      obtain ⟨found,table⟩ := address
      rw [present s found table (addressed.trans is),present t found table is,altered]
      exact .some (stored found _)
  cases op with
  | renameTable tableName =>
    have target : renameTarget s.tables tableKey = renameTarget t.tables tableKey := by
      rw [renameTarget,renameTarget,same tableKey (reaches tableKey (.inl rfl)),
        same (bareName tableKey) (renames _ (.inl rfl))]
    simp only [processAlterTableOperation,target]
    cases renameTarget t.tables tableKey with
    | none => exact .none
    | some taken =>
      obtain ⟨removed,table⟩ := taken
      refine .some fun key inside => ?_
      by_cases new : key = objectNameToKey tableName
      · rw [new,AList.lookup_insert,AList.lookup_insert]
      · rw [AList.lookup_insert_ne new,AList.lookup_insert_ne new]
        by_cases old : key = removed
        · rw [old,AList.lookup_erase,AList.lookup_erase]
        · rw [AList.lookup_erase_ne old,AList.lookup_erase_ne old,same key inside]
  | other => exact .some same
  | addColumn | dropColumn | renameColumn | alterColumn | addConstraint =>
    refine columnwise (fun c is => ?_) fun c found table is => ?_
    all_goals
      unfold processAlterTableOperation
      simp only [is]
      rfl

omit [TypeParser] in
theorem alterTable_cons (tableKey : String) (op : AlterTableOperation) (operations : List AlterTableOperation)
    (s : Catalog) :
    (((op :: operations).foldlM (processAlterTableOperation dialect tableKey) s : Except ScytheError Catalog)).toOption =
      (processAlterTableOperation dialect tableKey s op).toOption.bind fun s' =>
        (operations.foldlM (processAlterTableOperation dialect tableKey) s').toOption := by
  rw [List.foldlM_cons]
  cases processAlterTableOperation dialect tableKey s op <;> rfl

omit [TypeParser] in
theorem operations_only {tableKey : String} {operations : List AlterTableOperation} {s s' : Catalog}
    (is : (operations.foldlM (processAlterTableOperation dialect tableKey) s).toOption = some s') :
    ∃ tables,s' = { s with tables := tables } ∧
      ∀ key,¬ReachesKey tableKey key → (∀ op ∈ operations,¬RenameReaches tableKey key op) →
        tables.lookup key = s.tables.lookup key := by
  induction operations generalizing s with
  | nil =>
    cases is
    exact ⟨_,rfl,fun _ _ _ => rfl⟩
  | cons op operations ih =>
    rw [alterTable_cons] at is
    obtain ⟨middle,first,rest⟩ := Option.bind_eq_some_iff.mp is
    cases step : processAlterTableOperation dialect tableKey s op with
    | error failure =>
      rw [step] at first
      cases first
    | ok next =>
      rw [step] at first
      cases first
      obtain ⟨tables,rfl,kept⟩ := operation_only step
      obtain ⟨tables',rfl,kept'⟩ := ih rest
      refine ⟨tables',rfl,fun key unreached unnamed => ?_⟩
      have later := kept' key unreached fun op' among => unnamed op' (List.mem_cons_of_mem _ among)
      exact later.trans (kept key unreached (unnamed op List.mem_cons_self))

omit [TypeParser] in
theorem operations_local {tableKey : String} {operations : List AlterTableOperation} {s t : Catalog}
    (reaches : ∀ key,ReachesKey tableKey key → reached key)
    (renames : ∀ op ∈ operations,∀ key,RenameReaches tableKey key op → reached key) (same : SameTables reached s t)
    (types : ∀ op ∈ operations,∀ dataType ∈ operationTypes op,SameFor dataType s.domains t.domains) :
    Option.Rel (SameTables reached) (operations.foldlM (processAlterTableOperation dialect tableKey) s).toOption
      (operations.foldlM (processAlterTableOperation dialect tableKey) t).toOption := by
  induction operations generalizing s t with
  | nil => exact .some same
  | cons op operations ih =>
    rw [alterTable_cons,alterTable_cons]
    have first := @operation_local _ _ dialect reached tableKey op s t reaches (renames op List.mem_cons_self) same
      (types op List.mem_cons_self)
    cases left : processAlterTableOperation dialect tableKey s op with
    | error failure =>
      rw [left] at first
      cases right : processAlterTableOperation dialect tableKey t op with
      | error failure => exact .none
      | ok t' =>
        rw [right] at first
        cases first
    | ok s' =>
      rw [left] at first
      cases right : processAlterTableOperation dialect tableKey t op with
      | error failure =>
        rw [right] at first
        cases first
      | ok t' =>
        rw [right] at first
        obtain ⟨_,rfl,-⟩ := operation_only left
        obtain ⟨_,rfl,-⟩ := operation_only right
        cases first with
        | some near =>
          exact ih (fun op' among => renames op' (List.mem_cons_of_mem _ among)) near
            fun op' among => types op' (List.mem_cons_of_mem _ among)

end

theorem footprint_alterTable (name : ObjectName) (operations : List AlterTableOperation) :
    Footprint DistinctOverloads agree (applied dialect (.alterTable name operations))
      (Changes dialect (.alterTable name operations)) (LooksAt dialect asked (.alterTable name operations)) := by
  have plain (s : Catalog) : applied dialect (.alterTable name operations) s =
      (operations.foldlM (processAlterTableOperation dialect (objectNameToKey name)) s).toOption := rfl
  constructor
  · intro s s' is held
    obtain ⟨tables,rfl,-⟩ := operations_only is
    exact @distinct_kept s _ rfl held
  · intro s s' is object outside
    obtain ⟨tables,rfl,kept⟩ := operations_only is
    refine frame_tables fun key at' => ?_
    have untouched : ¬TableReached name operations key := fun reached => outside (.inl ⟨key,reached,at'⟩)
    refine (kept key (fun reached => untouched (.inl reached)) fun op among reached => untouched ?_).symm
    exact .inr ⟨op,among,reached⟩
  · intro s t left right same
    rw [plain,plain]
    have tables : SameTables (TableReached name operations) s t :=
      fun key reached => @same_target _ _ _ _ _ s t _ same (.table key) ⟨key,reached,rfl⟩
    have related := @operations_local _ _ dialect _ (objectNameToKey name) operations s t (fun key => .inl)
      (fun op among key reached => .inr ⟨op,among,reached⟩) tables
      fun op among dataType inside => same_types same (List.mem_flatMap.mpr ⟨op,among,inside⟩)
    obtain ⟨refused,refused'⟩ | ⟨s',t',one,two,near⟩ := rel_cases related
    · rw [refused,refused']
      exact .none
    · rw [one,two]
      refine .some fun object inside => ?_
      cases inside with
      | inr inline => cases inline
      | inl target =>
        obtain ⟨key,reached,rfl⟩ := target
        exact near key reached

-- A statement changes nothing but its targets and the enums in its columns, and
-- what it makes of them depends on nothing but what it looks at.
theorem footprint (statement : DdlStatement) (asks : ∀ query ∈ statementQuery statement,Asks asked query) :
    Footprint DistinctOverloads agree (applied dialect statement) (Changes dialect statement)
      (LooksAt dialect asked statement) := by
  cases statement with
  | createDomain domain => exact footprint_createDomain domain
  | createTable table query =>
    cases wanted : statementQuery (.createTable table query) with
    | none => exact footprint_createTable table query wanted
    | some found =>
      have asked' := asks found wanted
      unfold statementQuery at wanted
      dsimp only at wanted
      split at wanted
      · rename_i empty
        subst wanted
        exact footprint_createTableAs (List.isEmpty_iff.mp empty) asked'
      · cases wanted
  | createView name columns query => exact footprint_createView name columns query (asks query rfl)
  | createType name representation => exact footprint_createType name representation
  | createFunction definition => exact footprint_createFunction definition
  | alterTable name operations => exact footprint_alterTable name operations
  | alterType name operation => exact footprint_alterType name operation

end
end Scythe
