import Scythe.Declarations
import Scythe.Inspection

-- One set of definitions, given to the builder as the database reports it and
-- written out as a schema text: what the two catalogs then have in common.
namespace Scythe
open Text Register

section
variable [CaseMap] [Printer] [TypeParser]

def parsedType (dialect : SqlDialect) (text : String) : Option DataType := TypeParser.dataType dialect (trim text)

structure ColumnSpells (dialect : SqlDialect) (domains : AHashMap DomainDef) (ct : CreateTable)
    (column : ColumnDefinition) (colDef : ColumnDef) : Prop where
  ordinary : column.Ordinary
  name : identToLower colDef.name = column.name
  type : parsedType dialect column.rawSqlType = some colDef.dataType
  own : inlineEnum dialect colDef.dataType = none
  alone : NullAlone (columnForces dialect ct colDef) (normalizeDataType domains dialect colDef.dataType).2 colDef.options
  nullable : column.nullable = !declaredNotNull dialect domains ct colDef
  primaryKey : column.primaryKey = declaredPrimaryKey ct colDef

structure TableSpells (dialect : SqlDialect) (domains : AHashMap DomainDef) (relation : RelationDefinition)
    (ct : CreateTable) : Prop where
  kind : relation.kind = .table
  name : objectNameToKey ct.name = relation.name.key
  columns : List.Forall₂ (ColumnSpells dialect domains ct) relation.columns ct.columns

structure EnumSpells (definition : EnumDefinition) (type : ObjectName × List Ident) : Prop where
  name : objectNameToKey type.1 = definition.name.key
  values : type.2.map (·.value) = definition.values

-- A field of a composite type may always hold NULL.
structure FieldSpells (dialect : SqlDialect) (field : CompositeFieldDefinition) (typed : Ident × DataType) :
    Prop where
  name : identToLower typed.1 = field.name
  type : parsedType dialect field.rawSqlType = some typed.2
  nullable : field.nullable = true

structure CompositeSpells (dialect : SqlDialect) (definition : CompositeDefinition)
    (type : ObjectName × List (Ident × DataType)) : Prop where
  name : objectNameToKey type.1 = definition.name.key
  fields : List.Forall₂ (FieldSpells dialect) definition.fields type.2

structure DomainSpells (definition : DomainDefinition) (domain : CreateDomain) : Prop where
  name : reported domain.name = definition.name.key
  baseType : trim domain.baseType = trim definition.rawBaseType
  notNull : domain.notNull = definition.notNull

structure ArgumentSpells (dialect : SqlDialect) (definition : FunctionArgumentDefinition)
    (argument : OperateFunctionArg) : Prop where
  name : argument.name.map identToLower = definition.name
  type : parsedType dialect definition.rawSqlType = some argument.dataType
  mode : argument.mode.getD .in = definition.mode
  hasDefault : argument.defaultExpr.isSome = definition.hasDefault

def outputArguments (arguments : List FunctionArgumentDefinition) : List FunctionArgumentDefinition :=
  arguments.filter fun argument => argument.mode = .out ∨ argument.mode = .inOut

-- The columns of a result are the OUT and INOUT arguments, which name no type
-- beside themselves.
def ReturnSpells (dialect : SqlDialect) (arguments : List FunctionArgumentDefinition) :
    FunctionReturnDefinition → Option FunctionReturnType → Prop
  | .scalar text,some (.dataType dataType) => outputArguments arguments = [] ∧ parsedType dialect text = some dataType
  | .setOf text,some (.setOf dataType) => outputArguments arguments = [] ∧ parsedType dialect text = some dataType
  | .table columns,_ => outputArguments arguments ≠ [] ∧
    columns = (outputArguments arguments).mapIdx fun index argument =>
      ⟨argument.name.getD s!"column{index + 1}",argument.rawSqlType,true⟩
  | _,_ => False

structure FunctionSpells (dialect : SqlDialect) (definition : FunctionDefinition) (function : CreateFunction) :
    Prop where
  name : objectNameToKey function.name = definition.name.key
  arguments : List.Forall₂ (ArgumentSpells dialect) definition.arguments function.args
  returnType : ReturnSpells dialect definition.arguments definition.returnType function.returnType

-- The statements of each kind follow the definitions of that kind, in any
-- interleaving; `domains` are those the types are read by.
structure Spells (builder : CatalogBuilder) (domains : AHashMap DomainDef) (text : SchemaText) : Prop where
  searchPath : builder.searchPath = none
  relations : List.Forall₂ (TableSpells builder.dialect domains) builder.relations (tablesOf text.statements)
  enums : List.Forall₂ EnumSpells builder.enums (enumsOf text.statements)
  composites : List.Forall₂ (CompositeSpells builder.dialect) builder.composites (compositesOf text.statements)
  functions : List.Forall₂ (FunctionSpells builder.dialect) builder.functions (functionsOf text.statements)
  domains : List.Forall₂ DomainSpells builder.domains text.domains

-- Where the normaliser gives back the very text that was reported.
def KeepsType (dialect : SqlDialect) (domains : AHashMap DomainDef) (text : String) : Prop :=
  ∀ dataType, parsedType dialect text = some dataType →
    (normalizeDataType domains dialect dataType).1 = reported text

def KeepsSignatureType (dialect : SqlDialect) (domains : AHashMap DomainDef) (text : String) : Prop :=
  ∀ dataType, parsedType dialect text = some dataType → functionSqlType domains dialect dataType = reported text

-- A base type is read by the domains that stand before it.
def KeepsBaseTypes (dialect : SqlDialect) : AHashMap DomainDef → List DomainDefinition → Prop
  | _,[] => True
  | domains,definition :: definitions =>
    KeepsType dialect domains definition.rawBaseType ∧
      KeepsBaseTypes dialect
        (domains.insert definition.name.key ⟨reported definition.rawBaseType,definition.notNull⟩) definitions

structure KeepsFunction (dialect : SqlDialect) (domains : AHashMap DomainDef) (definition : FunctionDefinition) :
    Prop where
  arguments : ∀ argument ∈ definition.arguments, KeepsSignatureType dialect domains argument.rawSqlType
  returnType : match definition.returnType with
    | .scalar text | .setOf text => KeepsSignatureType dialect domains text
    | .table _ => True

-- Unqualified names in their folded spelling, and types in the catalog's own.
structure NormalForm (builder : CatalogBuilder) (domains : AHashMap DomainDef) : Prop where
  relations : ∀ relation ∈ builder.relations, relation.name.Plain ∧
    ∀ column ∈ relation.columns, KeepsType builder.dialect domains column.rawSqlType
  enums : ∀ definition ∈ builder.enums, definition.name.Plain
  composites : ∀ definition ∈ builder.composites, definition.name.Plain ∧
    ∀ field ∈ definition.fields, KeepsType builder.dialect domains field.rawSqlType
  functions : ∀ definition ∈ builder.functions, KeepsFunction builder.dialect domains definition
  domains : ∀ definition ∈ builder.domains, definition.name.Plain

-- Domains come first on either side, so that every type is read by the same ones.
theorem domains_agree {dialect : SqlDialect} {definitions : List DomainDefinition} {domains : List CreateDomain}
    (spells : List.Forall₂ DomainSpells definitions domains) {catalog built : InspectedCatalog} {parsed : Catalog}
    (same : catalog.domains = parsed.domains) (keeps : KeepsBaseTypes dialect catalog.domains definitions)
    (done : definitions.foldlM addDomain catalog = .ok built) :
    built.domains = (domains.foldl (processCreateDomain dialect) parsed).domains := by
  induction spells generalizing catalog parsed with
  | nil =>
    cases done
    exact same
  | @cons definition domain definitions domains head tail ih =>
    rw [List.foldlM_cons] at done
    obtain ⟨middle,first,rest⟩ := bind_ok done
    have equal := addDomain_ok first
    obtain ⟨keepsHere,keepsLater⟩ := keeps
    have registered : (processCreateDomain dialect parsed domain).domains =
        parsed.domains.insert definition.name.key ⟨reported definition.rawBaseType,definition.notNull⟩ := by
      have key : CaseMap.lowercase (trim domain.name) = definition.name.key := head.name
      simp only [processCreateDomain,head.baseType,head.notNull,key]
      cases parse : TypeParser.dataType dialect (trim definition.rawBaseType) with
      | none => rfl
      | some dataType =>
        have kept := keepsHere dataType parse
        rw [same] at kept
        simp only [kept]
    have next : middle.domains = (processCreateDomain dialect parsed domain).domains := by
      rw [registered,equal,same]
    refine ih next ?_ rest
    rw [equal]
    exact keepsLater

theorem registerDomains_eq (dialect : SqlDialect) (domains : List CreateDomain) (catalog : Catalog) :
    domains.foldl (processCreateDomain dialect) catalog =
      { catalog with domains := (domains.foldl (processCreateDomain dialect) catalog).domains } := by
  induction domains generalizing catalog with
  | nil => rfl
  | cons domain domains ih =>
    rw [List.foldl_cons,ih]
    rfl

omit [Printer] [TypeParser] in
theorem enums_agree {definitions : List EnumDefinition} {types : List (ObjectName × List Ident)}
    (spells : List.Forall₂ EnumSpells definitions types) {catalog built : InspectedCatalog}
    (done : definitions.foldlM addEnum catalog = .ok built) :
    built.enums = types.foldl registerEnum catalog.enums := by
  induction spells generalizing catalog with
  | nil =>
    cases done
    rfl
  | @cons definition type definitions types head tail ih =>
    rw [List.foldlM_cons] at done
    obtain ⟨middle,first,rest⟩ := bind_ok done
    have equal := addEnum_ok first
    have next : middle.enums = registerEnum catalog.enums type := by
      rw [equal,registerEnum,head.name,head.values]
    rw [ih rest,List.foldl_cons,next]

-- Composite types stand under the same names; where their fields' types are
-- kept, they are the same types.
def SameWhen (kept : Prop) (a b : α) : Prop := kept → a = b

theorem compositeFields_agree {dialect : SqlDialect} {domains : AHashMap DomainDef}
    {fields : List CompositeFieldDefinition} {types : List (Ident × DataType)}
    (spells : List.Forall₂ (FieldSpells dialect) fields types)
    (keeps : ∀ field ∈ fields, KeepsType dialect domains field.rawSqlType) :
    (⟨fields.map builtField⟩ : CompositeType) = compositeOf dialect domains types := by
  rw [compositeOf]
  congr 1
  induction spells with
  | nil => rfl
  | @cons field typed fields types head tail ih =>
    obtain ⟨name,dataType⟩ := typed
    have kept := keeps field List.mem_cons_self dataType head.type
    have named : identToLower name = field.name := head.name
    rw [List.map_cons,List.map_cons,ih fun field member => keeps field (List.mem_cons_of_mem _ member),builtField,
      head.nullable]
    simp only [named,kept]

theorem composites_agree {dialect : SqlDialect} {domains : AHashMap DomainDef} {kept : Prop}
    {definitions : List CompositeDefinition} {types : List (ObjectName × List (Ident × DataType))}
    (spells : List.Forall₂ (CompositeSpells dialect) definitions types)
    (keeps : kept → ∀ definition ∈ definitions, ∀ field ∈ definition.fields,
      KeepsType dialect domains field.rawSqlType)
    {catalog built : InspectedCatalog} {parsed : AHashMap CompositeType}
    (same : Agree (SameWhen kept) catalog.composites parsed)
    (done : definitions.foldlM addComposite catalog = .ok built) :
    Agree (SameWhen kept) built.composites (types.foldl (registerComposite dialect domains) parsed) := by
  induction spells generalizing catalog parsed with
  | nil =>
    cases done
    exact same
  | @cons definition type definitions types head tail ih =>
    rw [List.foldlM_cons] at done
    obtain ⟨middle,first,rest⟩ := bind_ok done
    have equal := addComposite_ok first
    rw [List.foldl_cons]
    refine ih (fun holds definition member => keeps holds definition (List.mem_cons_of_mem _ member)) ?_ rest
    rw [equal,registerComposite,head.name]
    refine agree_insert same ?_ _
    intro holds
    exact compositeFields_agree head.fields (keeps holds definition List.mem_cons_self)

-- A column of the two catalogs: one definition's reported type, and the
-- normaliser's text for what the parser makes of it.
structure ColumnsAgree (dialect : SqlDialect) (domains : AHashMap DomainDef) (kept : Prop) (built parsed : Column) :
    Prop where
  name : built.name = parsed.name
  nullable : built.nullable = parsed.nullable
  primaryKey : built.primaryKey = parsed.primaryKey
  types : ∃ text dataType, parsedType dialect text = some dataType ∧ built.sqlType = reported text ∧
    parsed.sqlType = (normalizeDataType domains dialect dataType).1
  same : kept → built.sqlType = parsed.sqlType

def TablesAgree (dialect : SqlDialect) (domains : AHashMap DomainDef) (kept : Prop) (built parsed : Table) : Prop :=
  List.Forall₂ (ColumnsAgree dialect domains kept) built.columns parsed.columns

theorem columns_agree {dialect : SqlDialect} {domains : AHashMap DomainDef} {kept : Prop} {ct : CreateTable}
    {column : ColumnDefinition} {colDef : ColumnDef} (spells : ColumnSpells dialect domains ct column colDef)
    (keeps : kept → KeepsType dialect domains column.rawSqlType) :
    ColumnsAgree dialect domains kept (builtColumn column)
      { columnOf dialect domains ct colDef with
        primaryKey := declaredPrimaryKey ct colDef
        nullable := !declaredNotNull dialect domains ct colDef } where
  name := spells.name.symm
  nullable := spells.nullable
  primaryKey := spells.primaryKey
  types := ⟨column.rawSqlType,colDef.dataType,spells.type,by rw [builtColumn,spells.ordinary.unresolved]; rfl,rfl⟩
  same holds := by
    rw [builtColumn,spells.ordinary.unresolved]
    exact (keeps holds colDef.dataType spells.type).symm

theorem columnNames_spelled {dialect : SqlDialect} {domains : AHashMap DomainDef} {ct : CreateTable}
    {columns : List ColumnDefinition} {colDefs : List ColumnDef}
    (spells : List.Forall₂ (ColumnSpells dialect domains ct) columns colDefs) :
    colDefs.map (fun colDef => identToLower colDef.name) = columns.map (·.name) := by
  induction spells with
  | nil => rfl
  | cons head tail ih => rw [List.map_cons,List.map_cons,ih,head.name]

theorem table_agrees {dialect : SqlDialect} {domains : AHashMap DomainDef} {kept : Prop}
    {relation : RelationDefinition} {ct : CreateTable} (spells : TableSpells dialect domains relation ct)
    (keeps : kept → ∀ column ∈ relation.columns, KeepsType dialect domains column.rawSqlType)
    {key : String} {found : RelationColumns}
    (done : relation.columns.foldlM (addColumn key) ⟨[],[],∅,∅⟩ = .ok found) (rawName : String) :
    TablesAgree dialect domains kept ⟨found.columns,rawName⟩ (tableOf dialect domains ct) := by
  obtain ⟨columns,names⟩ := addColumns_ok done
  have distinct : (ct.columns.map fun colDef => identToLower colDef.name).Nodup := by
    rw [columnNames_spelled spells.columns]
    have keys := (names List.nodup_nil).1
    exact List.Nodup.of_map reported (by rw [List.map_map]; exact keys)
  have alone : ∀ colDef ∈ ct.columns, NullAlone (columnForces dialect ct colDef)
      (normalizeDataType domains dialect colDef.dataType).2 colDef.options :=
    forall₂_right (fun _ _ column => column.alone) spells.columns
  rw [TablesAgree,tableOf_columns distinct alone,columns,List.nil_append]
  rw [List.forall₂_map_left_iff,List.forall₂_map_right_iff]
  have both := (List.forall₂_and_left _ _).mpr ⟨fun column member => member,spells.columns⟩
  exact both.imp fun column colDef here => columns_agree here.2 fun holds => keeps holds column here.1

theorem tables_agree {dialect : SqlDialect} {domains : AHashMap DomainDef} {kept : Prop}
    {relations : List RelationDefinition} {tables : List CreateTable}
    (spells : List.Forall₂ (TableSpells dialect domains) relations tables)
    (keeps : kept → ∀ relation ∈ relations, ∀ column ∈ relation.columns,
      KeepsType dialect domains column.rawSqlType)
    {catalog built : InspectedCatalog} {parsed : AHashMap Table}
    (same : Agree (TablesAgree dialect domains kept) catalog.tables parsed)
    (done : relations.foldlM addRelation catalog = .ok built) :
    Agree (TablesAgree dialect domains kept) built.tables (tables.foldl (registerTable dialect domains) parsed) := by
  induction spells generalizing catalog parsed with
  | nil =>
    cases done
    exact same
  | @cons relation ct relations tables head tail ih =>
    rw [List.foldlM_cons] at done
    obtain ⟨middle,first,rest⟩ := bind_ok done
    obtain ⟨fresh,found,columns,equal⟩ := addRelation_ok first
    have new : ¬(ct.ifNotExists = true ∧ objectNameToKey ct.name ∈ parsed) := by
      rintro ⟨-,known⟩
      rw [head.name,←agree_mem same] at known
      exact fresh known
    rw [List.foldl_cons]
    refine ih (fun holds relation member => keeps holds relation (List.mem_cons_of_mem _ member)) ?_ rest
    rw [registerTable,if_neg new,equal,head.name]
    exact agree_insert same
      (table_agrees head (fun holds => keeps holds relation List.mem_cons_self) columns relation.name.name) _

theorem arguments_agree {dialect : SqlDialect} {domains : AHashMap DomainDef}
    {definitions : List FunctionArgumentDefinition} {args : List OperateFunctionArg}
    (spells : List.Forall₂ (ArgumentSpells dialect) definitions args)
    (keeps : ∀ argument ∈ definitions, KeepsSignatureType dialect domains argument.rawSqlType) :
    args.map (processArgument dialect domains) = definitions.map builtArgument := by
  induction spells with
  | nil => rfl
  | @cons definition argument definitions args head tail ih =>
    have kept := keeps definition List.mem_cons_self argument.dataType head.type
    rw [List.map_cons,List.map_cons,ih fun argument member => keeps argument (List.mem_cons_of_mem _ member),
      processArgument,builtArgument,head.name,kept,head.mode,head.hasDefault]

omit [Printer] [TypeParser] in
theorem outputColumns_built (arguments : List FunctionArgumentDefinition) :
    outputColumns (arguments.map builtArgument) =
      (outputArguments arguments).mapIdx fun index argument =>
        ⟨argument.name.getD s!"column{index + 1}",reported argument.rawSqlType,true⟩ := by
  rw [outputColumns,outputArguments,List.filter_map,mapIdx_map]
  rfl

omit [CaseMap] [Printer] in
theorem returnSpells_scalar {dialect : SqlDialect} {arguments : List FunctionArgumentDefinition} {text : String}
    {returnType : Option FunctionReturnType} (spells : ReturnSpells dialect arguments (.scalar text) returnType) :
    outputArguments arguments = [] ∧
      ∃ dataType, returnType = some (.dataType dataType) ∧ parsedType dialect text = some dataType := by
  cases returnType with
  | none => cases spells
  | some declared =>
    cases declared with
    | dataType dataType => exact ⟨spells.1,dataType,rfl,spells.2⟩
    | setOf => cases spells

omit [CaseMap] [Printer] in
theorem returnSpells_setOf {dialect : SqlDialect} {arguments : List FunctionArgumentDefinition} {text : String}
    {returnType : Option FunctionReturnType} (spells : ReturnSpells dialect arguments (.setOf text) returnType) :
    outputArguments arguments = [] ∧
      ∃ dataType, returnType = some (.setOf dataType) ∧ parsedType dialect text = some dataType := by
  cases returnType with
  | none => cases spells
  | some declared =>
    cases declared with
    | dataType => cases spells
    | setOf dataType => exact ⟨spells.1,dataType,rfl,spells.2⟩

omit [CaseMap] [Printer] in
theorem returnSpells_table {dialect : SqlDialect} {arguments : List FunctionArgumentDefinition}
    {columns : List FunctionResultColumnDefinition} {returnType : Option FunctionReturnType}
    (spells : ReturnSpells dialect arguments (.table columns) returnType) :
    outputArguments arguments ≠ [] ∧
      columns = (outputArguments arguments).mapIdx fun index argument =>
        ⟨argument.name.getD s!"column{index + 1}",argument.rawSqlType,true⟩ := by
  cases returnType with
  | none => exact spells
  | some declared =>
    cases declared with
    | dataType => exact spells
    | setOf => exact spells

theorem return_agrees {dialect : SqlDialect} {domains : AHashMap DomainDef} {definition : FunctionDefinition}
    {returnType : Option FunctionReturnType}
    (spells : ReturnSpells dialect definition.arguments definition.returnType returnType)
    (keeps : KeepsFunction dialect domains definition) :
    processReturn dialect domains (definition.arguments.map builtArgument) returnType =
      some (builtReturn definition.returnType) := by
  have keepsReturn := keeps.returnType
  simp only [processReturn,outputColumns_built]
  cases declared : definition.returnType with
  | scalar text =>
    rw [declared] at spells keepsReturn
    obtain ⟨silent,dataType,rfl,parse⟩ := returnSpells_scalar spells
    rw [silent]
    simp [builtReturn,keepsReturn dataType parse]
  | setOf text =>
    rw [declared] at spells keepsReturn
    obtain ⟨silent,dataType,rfl,parse⟩ := returnSpells_setOf spells
    rw [silent]
    simp [builtReturn,keepsReturn dataType parse]
  | table columns =>
    rw [declared] at spells
    obtain ⟨some,columns⟩ := returnSpells_table spells
    rw [columns,builtReturn,map_mapIdx]
    apply if_pos
    simpa using some

theorem function_agrees {dialect : SqlDialect} {domains : AHashMap DomainDef} {definition : FunctionDefinition}
    {function : CreateFunction} (spells : FunctionSpells dialect definition function)
    (keeps : KeepsFunction dialect domains definition) {catalog built : InspectedCatalog}
    (done : addFunction catalog definition = .ok built) :
    registerFunction dialect domains catalog.functions function = .ok built.functions := by
  obtain ⟨fresh,equal⟩ := addFunction_ok done
  rw [←spells.name] at fresh equal
  have arguments := arguments_agree spells.arguments keeps.arguments
  have returned := return_agrees spells.returnType keeps
  have unseen : ((catalog.functions.lookup (objectNameToKey function.name)).getD []).findIdx?
      (fun existing => inputSignature existing =
        inputSignature ⟨definition.arguments.map builtArgument,builtReturn definition.returnType⟩) = none := by
    rw [List.findIdx?_eq_none_iff]
    intro existing member
    exact decide_eq_false (fresh existing member)
  rw [equal,registerFunction,processCreateFunction]
  simp only [arguments,returned,unseen]
  rfl

theorem functions_agree {dialect : SqlDialect} {domains : AHashMap DomainDef}
    {definitions : List FunctionDefinition} {functions : List CreateFunction}
    (spells : List.Forall₂ (FunctionSpells dialect) definitions functions)
    (keeps : ∀ definition ∈ definitions, KeepsFunction dialect domains definition)
    {catalog built : InspectedCatalog} (done : definitions.foldlM addFunction catalog = .ok built) :
    functions.foldlM (registerFunction dialect domains) catalog.functions = .ok built.functions := by
  induction spells generalizing catalog with
  | nil =>
    cases done
    rfl
  | @cons definition function definitions functions head tail ih =>
    rw [List.foldlM_cons] at done
    obtain ⟨middle,first,rest⟩ := bind_ok done
    have registered := function_agrees head (keeps definition List.mem_cons_self) first
    rw [List.foldlM_cons,registered]
    exact ih (fun definition member => keeps definition (List.mem_cons_of_mem _ member)) rest

omit [Printer] [TypeParser] in
theorem build_ok {builder : CatalogBuilder} {built : InspectedCatalog} (done : builder.build = .ok built) :
    ∃ (start related enumerated composed : InspectedCatalog) (domained : InspectedCatalog),
      start.toCatalog = { Catalog.new builder.dialect with engine := start.engine, searchPath := start.searchPath } ∧
      start = start.toCatalog.uninspected ∧ (builder.searchPath = none → start.searchPath = none) ∧
      builder.relations.foldlM addRelation start = .ok related ∧
      builder.enums.foldlM addEnum related = .ok enumerated ∧
      builder.composites.foldlM addComposite enumerated = .ok composed ∧
      builder.domains.foldlM addDomain composed = .ok domained ∧
      builder.functions.foldlM addFunction domained = .ok built := by
  obtain ⟨engine,-,done⟩ := bind_ok done
  obtain ⟨searchPath,path,done⟩ := bind_ok done
  obtain ⟨related,relations,done⟩ := bind_ok done
  obtain ⟨enumerated,enums,done⟩ := bind_ok done
  obtain ⟨composed,composites,done⟩ := bind_ok done
  obtain ⟨domained,domains,functions⟩ := bind_ok done
  refine ⟨_,related,enumerated,composed,domained,?_,rfl,?_,relations,enums,composites,domains,functions⟩
  · rfl
  · intro none
    rw [none] at path
    cases path
    rfl

-- Each phase of the builder leaves the maps of the others as they are.
section
omit [Printer] [TypeParser]

theorem relations_keep {definitions : List RelationDefinition} {s s' : InspectedCatalog}
    (done : definitions.foldlM addRelation s = .ok s') :
    s'.dialect = s.dialect ∧ s'.searchPath = s.searchPath ∧ s'.enums = s.enums ∧ s'.composites = s.composites ∧
      s'.domains = s.domains ∧ s'.functions = s.functions := by
  have kept := run_keeps (fun s : InspectedCatalog => (s.dialect,s.searchPath,s.enums,s.composites,s.domains,s.functions)) (fun s c s' one => by
      obtain ⟨-,found,-,equal⟩ := addRelation_ok one
      rw [equal]) done
  simpa using kept

theorem enums_keep {definitions : List EnumDefinition} {s s' : InspectedCatalog}
    (done : definitions.foldlM addEnum s = .ok s') :
    s'.dialect = s.dialect ∧ s'.searchPath = s.searchPath ∧ s'.tables = s.tables ∧ s'.composites = s.composites ∧
      s'.domains = s.domains ∧ s'.functions = s.functions := by
  have kept := run_keeps (fun s : InspectedCatalog => (s.dialect,s.searchPath,s.tables,s.composites,s.domains,s.functions)) (fun s c s' one => by
      have equal := addEnum_ok one
      rw [equal]) done
  simpa using kept

theorem composites_keep {definitions : List CompositeDefinition} {s s' : InspectedCatalog}
    (done : definitions.foldlM addComposite s = .ok s') :
    s'.dialect = s.dialect ∧ s'.searchPath = s.searchPath ∧ s'.tables = s.tables ∧ s'.enums = s.enums ∧
      s'.domains = s.domains ∧ s'.functions = s.functions := by
  have kept := run_keeps (fun s : InspectedCatalog => (s.dialect,s.searchPath,s.tables,s.enums,s.domains,s.functions)) (fun s c s' one => by
      have equal := addComposite_ok one
      rw [equal]) done
  simpa using kept

theorem domains_keep {definitions : List DomainDefinition} {s s' : InspectedCatalog}
    (done : definitions.foldlM addDomain s = .ok s') :
    s'.dialect = s.dialect ∧ s'.searchPath = s.searchPath ∧ s'.tables = s.tables ∧ s'.enums = s.enums ∧
      s'.composites = s.composites ∧ s'.functions = s.functions := by
  have kept := run_keeps (fun s : InspectedCatalog => (s.dialect,s.searchPath,s.tables,s.enums,s.composites,s.functions)) (fun s c s' one => by
      have equal := addDomain_ok one
      rw [equal]) done
  simpa using kept

theorem functions_keep {definitions : List FunctionDefinition} {s s' : InspectedCatalog}
    (done : definitions.foldlM addFunction s = .ok s') :
    s'.dialect = s.dialect ∧ s'.searchPath = s.searchPath ∧ s'.tables = s.tables ∧ s'.enums = s.enums ∧
      s'.composites = s.composites ∧ s'.domains = s.domains := by
  have kept := run_keeps (fun s : InspectedCatalog => (s.dialect,s.searchPath,s.tables,s.enums,s.composites,s.domains)) (fun s c s' one => by
      obtain ⟨-,equal⟩ := addFunction_ok one
      rw [equal]) done
  simpa using kept

end

theorem built_quiet {builder : CatalogBuilder} {built : InspectedCatalog} {domains : AHashMap DomainDef}
    (normal : NormalForm builder domains)
    (plain : ∀ relation ∈ builder.relations, relation.kind = .table ∧ ∀ column ∈ relation.columns, column.Ordinary)
    (done : builder.build = .ok built) : Quiet built := by
  obtain ⟨start,related,enumerated,composed,domained,initial,bare,-,relations,enums,composites,domains,functions⟩ :=
    build_ok done
  have begin : Quiet start := by
    rw [bare]
    apply quiet_uninspected
    rw [initial]
    rfl
  have afterRelations : Quiet related := run_invariant (fun s relation member s' quiet one =>
    quiet_relation quiet (normal.relations relation member).1 (plain relation member).1 (plain relation member).2 one)
    begin relations
  have afterEnums : Quiet enumerated := run_invariant (fun s definition member s' quiet one =>
    quiet_enum quiet (normal.enums definition member) one) afterRelations enums
  have afterComposites : Quiet composed := run_invariant (fun s definition member s' quiet one =>
    quiet_composite quiet (normal.composites definition member).1 one) afterEnums composites
  have afterDomains : Quiet domained := run_invariant (fun s definition member s' quiet one =>
    quiet_domain quiet (normal.domains definition member) one) afterComposites domains
  exact run_invariant (fun s definition member s' quiet one => quiet_function quiet one) afterDomains functions

-- What the two catalogs share whenever both constructors accept, and what they
-- share besides where the types are kept.
structure Shared (dialect : SqlDialect) (kept : Prop) (built parsed : Catalog) : Prop where
  enums : built.enums = parsed.enums
  composites : Agree (SameWhen kept) built.composites parsed.composites
  tables : Agree (TablesAgree dialect built.domains kept) built.tables parsed.tables
  dialect : built.dialect = parsed.dialect
  searchPath : built.searchPath = parsed.searchPath
  unsearched : built.searchPath = none
  uninspected : parsed.rawColumnTypes = ∅
  functions : kept → built.functions = parsed.functions
  domains : built.domains = parsed.domains

theorem catalogs_share {builder : CatalogBuilder} {text : SchemaText} {built : InspectedCatalog} {parsed : Catalog}
    (isBuilt : builder.build = .ok built) (isParsed : fromDdlWithDialect [text] builder.dialect = .ok parsed)
    (spells : Spells builder built.domains text) (baseTypes : KeepsBaseTypes builder.dialect ∅ builder.domains) :
    Shared builder.dialect (NormalForm builder built.domains) built.toCatalog parsed := by
  obtain ⟨start,related,enumerated,composed,domained,initial,bare,path,relations,enums,composites,domains,functions⟩ :=
    build_ok isBuilt
  have searched := path spells.searchPath
  rw [searched] at initial
  obtain ⟨r1,r2,r3,r4,r5,r6⟩ := relations_keep relations
  obtain ⟨e1,e2,e3,e4,e5,e6⟩ := enums_keep enums
  obtain ⟨c1,c2,c3,c4,c5,c6⟩ := composites_keep composites
  obtain ⟨d1,d2,d3,d4,d5,d6⟩ := domains_keep domains
  obtain ⟨f1,f2,f3,f4,f5,f6⟩ := functions_keep functions
  have one : processSchemaText builder.dialect (Catalog.new builder.dialect) text = .ok parsed := by
    have run := isParsed
    rw [fromDdlWithDialect,List.foldlM_cons] at run
    obtain ⟨only,first,rest⟩ := bind_ok run
    cases rest
    exact first
  rw [processSchemaText,registerDomains_eq] at one
  have empty : composed.domains = (Catalog.new builder.dialect).domains := by
    rw [c5,e5,r5,initial]
  have domainsSame : domained.domains =
      (text.domains.foldl (processCreateDomain builder.dialect) (Catalog.new builder.dialect)).domains := by
    refine domains_agree spells.domains empty ?_ domains
    rw [empty]
    exact baseTypes
  rw [←domainsSame,←f6] at one
  have inline : ∀ ct ∈ tablesOf text.statements, NoInlineEnums builder.dialect ct :=
    forall₂_right (fun relation ct spelled => forall₂_right (fun column colDef here => here.own) spelled.columns)
      spells.relations
  obtain ⟨registered,run,equal⟩ := processStatements_eq inline one
  subst equal
  refine ⟨?_,?_,?_,?_,?_,?_,rfl,?_,rfl⟩
  · have all := enums_agree spells.enums enums
    rw [f4,d4,c4,all,r3,initial]
  · have begin : Agree (SameWhen (NormalForm builder built.domains)) enumerated.composites
        (Catalog.new builder.dialect).composites := by
      rw [e4,r4,initial]
      exact agree_empty
    have all := composites_agree spells.composites
      (fun normal definition member => (normal.composites definition member).2) begin composites
    rw [f5,d5]
    exact all
  · have begin : Agree (TablesAgree builder.dialect built.domains (NormalForm builder built.domains)) start.tables
        (Catalog.new builder.dialect).tables := by
      rw [initial]
      exact agree_empty
    have all := tables_agree spells.relations
      (fun normal relation member => (normal.relations relation member).2) begin relations
    rw [f3,d3,c3,e3]
    exact all
  · rw [f1,d1,c1,e1,r1,initial]
  · rw [f2,d2,c2,e2,r2,initial]
    rfl
  · rw [f2,d2,c2,e2,r2,initial]
  · intro normal
    have all := functions_agree spells.functions normal.functions functions
    have none : domained.functions = (Catalog.new builder.dialect).functions := by
      rw [d6,c6,e6,r6,initial]
    rw [none,run] at all
    cases all
    rfl

omit [CaseMap] [Printer] [TypeParser] in
theorem columns_shape {built parsed : Table}
    (agree : List.Forall₂ (fun c p : Column => columnShape c = columnShape p) built.columns parsed.columns) :
    built.columns.map columnShape = parsed.columns.map columnShape := by
  rwa [←List.forall₂_eq_eq_eq,List.forall₂_map_left_iff,List.forall₂_map_right_iff]

theorem fingerprints_agree {builder : CatalogBuilder} {text : SchemaText} {built : InspectedCatalog}
    {parsed : Catalog} (isBuilt : builder.build = .ok built)
    (isParsed : fromDdlWithDialect [text] builder.dialect = .ok parsed)
    (spells : Spells builder built.domains text) (baseTypes : KeepsBaseTypes builder.dialect ∅ builder.domains)
    (normal : NormalForm builder built.domains) (digest : String → String) :
    fingerprint digest built = fingerprint digest parsed.uninspected := by
  have shared := catalogs_share isBuilt isParsed spells baseTypes
  have plain : ∀ relation ∈ builder.relations,
      relation.kind = .table ∧ ∀ column ∈ relation.columns, column.Ordinary :=
    forall₂_left (fun relation ct spelled => ⟨spelled.kind,
      forall₂_left (fun column colDef here => here.ordinary) spelled.columns⟩) spells.relations
  have quiet := built_quiet normal plain isBuilt
  have uninspected := quiet_uninspected parsed shared.uninspected
  have shapes : shapeLines built.toCatalog = shapeLines parsed := by
    refine shapeLines_congr shared.dialect ?_ shared.enums ?_ shared.domains (shared.functions normal)
    · refine agree_mono (fun t u columns => columns_shape (columns.imp fun c p same => ?_)) shared.tables
      rw [columnShape,columnShape,same.name,same.same normal,same.nullable,same.primaryKey]
    · exact eq_of_agree (agree_mono (fun a b same => same normal) shared.composites)
  rw [fingerprint,fingerprint,canonicalForm,canonicalForm,metadata_quiet quiet,metadata_quiet uninspected,shapes]
  rfl

end
end Scythe
