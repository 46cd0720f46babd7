import Mathlib.Algebra.Order.BigOperators.Group.List
import Scythe.Lib.Worklist
import Scythe.Naming
import Scythe.Statements

namespace Scythe
open Text

def applyAnnotations (annotations : Annotations) (col : AnalyzedColumn) : AnalyzedColumn :=
  let col := if col.name ∈ annotations.nullableOverrides then {col with nullable:=true} else col
  let col := if col.name ∈ annotations.nonnullOverrides then {col with nullable:=false} else col
  match annotations.jsonMappings.find? fun m => m.column = col.name with
  | some mapping => {col with neutralType:=s!"json_typed<{mapping.rustType}>"}
  | none => col

def untypedLiteralError (queryName columnName : String) : String :=
  s!"query \"{queryName}\": column \"{columnName}\" is a bare parameter or NULL literal with no CAST, comparison, " ++
    "COALESCE, or other typed context -- scythe cannot infer its type; add an explicit CAST, e.g. " ++
    "CAST(? AS <type>)"

def rejectUntypedLiterals (queryName : String) (columns : List AnalyzedColumn) : Except ScytheError Unit :=
  match columns.find? fun col => col.untypedLiteral && col.neutralType = "unknown" with
  | some col => .error (.typeMismatch (untypedLiteralError queryName col.name))
  | none => .ok ()

-- Stable by position; of the entries at one position the first stays.
def sortParams (params : List ParamInfo) : List ParamInfo :=
  params.insertionSort fun a b => a.position ≤ b.position

def dedupFrom : ParamInfo → List ParamInfo → List ParamInfo
  | kept,[] => [kept]
  | kept,param :: params =>
    if kept.position = param.position then dedupFrom kept params else kept :: dedupFrom param params

def dedupParams : List ParamInfo → List ParamInfo
  | [] => []
  | param :: params => dedupFrom param params

def nameParam (annotations : Annotations) (p : ParamInfo) : AnalyzedParam where
  name := ((annotations.positionalParamDocs.find? fun doc => doc.position = p.position).map (·.name)).getD
    (p.name.getD s!"p{p.position}")
  neutralType := p.neutralType.getD "unknown"
  nullable := p.nullable
  position := p.position
  sourceRelation := p.sourceRelation

def optionalParam (annotations : Annotations) (p : AnalyzedParam) : AnalyzedParam :=
  if p.name ∈ annotations.optionalParams then {p with nullable:=true} else p

def rejectUnknownOptional (annotations : Annotations) (params : List AnalyzedParam) : Except ScytheError Unit :=
  match annotations.optionalParams.find? fun name => ¬params.any fun p => p.name = name with
  | some name => .error ( ScytheError.invalidAnnotation s!"@optional references unknown parameter '{name}'")
  | none => .ok ()

def renameParams (params : List AnalyzedParam) : List AnalyzedParam :=
  params.zipWith (fun p name => {p with name:=name}) (disambiguateDuplicateNames (params.map (·.name)))

def resolveParams (annotations : Annotations) (params : List ParamInfo) : Except ScytheError (List AnalyzedParam) := do
  let named := (dedupParams (sortParams params)).map (nameParam annotations)
  rejectUnresolvedParams named
  let marked := named.map (optionalParam annotations)
  rejectUnknownOptional annotations marked
  return renameParams marked

-- Strip the wrappers one by one; a type has fewer of them than characters.
def unwrapWithin : Nat → String → String
  | 0,neutral => neutral
  | fuel + 1,neutral =>
    match (stripPrefix neutral "array<").bind fun r => stripSuffix r ">" with
    | some inner => unwrapWithin fuel (trim inner)
    | none =>
    match (stripPrefix neutral "nullable<").bind fun r => stripSuffix r ">" with
    | some inner => unwrapWithin fuel (trim inner)
    | none => neutral

def unwrapNeutralContainers (neutral : String) : String := unwrapWithin neutral.length neutral

variable [CaseMap]

def detectedNames (types : List String) : List String := types.filterMap fun t => stripPrefix t "composite::"

def compositeFieldInfo (catalog : Catalog) (f : CompositeField) : CompositeFieldInfo :=
  ⟨f.name,sqlTypeToNeutral f.sqlType catalog,f.nullable⟩

def compositeInfo (catalog : Catalog) (name : String) : Option CompositeInfo :=
  (catalog.getComposite name).map fun comp => ⟨name,comp.fields.map (compositeFieldInfo catalog)⟩

-- The composites that the fields of a composite name outright.
def fieldComposites (catalog : Catalog) (name : String) : List String :=
  ((compositeInfo catalog name).map fun info => detectedNames (info.fields.map (·.neutralType))).getD []

-- No more names can be queued than the roots and every field of the catalog.
def compositeFuel (catalog : Catalog) (roots : List String) : Nat :=
  roots.length + (catalog.composites.entries.map fun entry => entry.2.fields.length).sum

def collectComposites (catalog : Catalog) (types : List String) : List CompositeInfo :=
  let roots := detectedNames types
  (Worklist.visit (fieldComposites catalog) (compositeFuel catalog roots) roots).filterMap (compositeInfo catalog)

-- Every name that some composite of the catalog has for a field.
def fieldNames (catalog : Catalog) : List String :=
  catalog.composites.entries.flatMap fun entry =>
    detectedNames (entry.2.fields.map fun f => (compositeFieldInfo catalog f).neutralType)

theorem fieldComposites_within (catalog : Catalog) (name : String) :
    ∀ field ∈ fieldComposites catalog name, field ∈ fieldNames catalog := by
  intro field named
  unfold fieldComposites compositeInfo Catalog.getComposite at named
  rw [lookupQualified_key] at named
  cases resolved : resolvedKey catalog.composites name catalog.searchPath with
  | none =>
    rw [resolved] at named
    cases named
  | some key =>
    rw [resolved,Option.bind_some] at named
    cases found : catalog.composites.lookup key with
    | none =>
      rw [found] at named
      cases named
    | some comp =>
      rw [found,Option.map_some,Option.map_some,Option.getD_some,List.map_map] at named
      exact List.mem_flatMap.mpr ⟨⟨key,comp⟩,AList.mem_lookup_iff.mp found,named⟩

omit [CaseMap] in
theorem detectedNames_length (types : List String) : (detectedNames types).length ≤ types.length :=
  List.length_filterMap_le _ _

theorem fieldNames_length (catalog : Catalog) :
    (fieldNames catalog).length ≤ (catalog.composites.entries.map fun entry => entry.2.fields.length).sum := by
  rw [fieldNames,List.length_flatMap]
  refine List.sum_le_sum fun entry _ => ?_
  exact (detectedNames_length _).trans_eq (List.length_map ..)

-- The queue runs empty, so the collected composites are those that the types
-- reach through fields, and each of them is collected once.
theorem mem_visited {catalog : Catalog} {roots : List String} {name : String} :
    name ∈ Worklist.visit (fieldComposites catalog) (compositeFuel catalog roots) roots ↔
      ∃ root ∈ roots, Relation.ReflTransGen (fun a b => b ∈ fieldComposites catalog a) root name := by
  refine Worklist.mem_visit (fieldComposites_within catalog) ?_
  exact Nat.add_le_add_left (fieldNames_length catalog) _

theorem compositeInfo_named {catalog : Catalog} {name : String} {info : CompositeInfo}
    (is : compositeInfo catalog name = some info) : info.sqlName = name := by
  obtain ⟨comp,-,rfl⟩ := Option.map_eq_some_iff.mp is
  rfl

theorem mem_collectComposites {catalog : Catalog} {types : List String} {info : CompositeInfo} :
    info ∈ collectComposites catalog types ↔
      compositeInfo catalog info.sqlName = some info ∧ ∃ root ∈ detectedNames types,
        Relation.ReflTransGen (fun a b => b ∈ fieldComposites catalog a) root info.sqlName := by
  rw [collectComposites,List.mem_filterMap]
  constructor
  · intro collected
    obtain ⟨name,visited,is⟩ := collected
    rw [compositeInfo_named is]
    exact ⟨is,mem_visited.mp visited⟩
  · intro reached
    obtain ⟨is,path⟩ := reached
    exact ⟨info.sqlName,mem_visited.mpr path,is⟩

theorem collectComposites_nodup (catalog : Catalog) (types : List String) :
    ((collectComposites catalog types).map (·.sqlName)).Nodup := by
  rw [collectComposites,List.map_filterMap]
  refine (Worklist.visit_nodup _ _ _).filterMap ?_
  intro name other found is isOther
  obtain ⟨info,of,rfl⟩ := Option.map_eq_some_iff.mp is
  obtain ⟨infoOther,ofOther,same⟩ := Option.map_eq_some_iff.mp isOther
  rw [←compositeInfo_named of,←same,compositeInfo_named ofOther]

def enumInfo (catalog : Catalog) (name : String) : Option EnumInfo :=
  (catalog.getEnum name).map fun enum => ⟨name,enum.values⟩

def collectEnums (catalog : Catalog) (types : List String) : List EnumInfo :=
  (Worklist.fresh [] (types.filterMap fun t => stripPrefix (unwrapNeutralContainers t) "enum::")).filterMap
    (enumInfo catalog)

-- Try `base`, then `base_1` and so on. A name is taken by a struct of another
-- shape, or by a type of the catalog.
def assignNestedStructName (catalog : Catalog) (base : String) (fields : List NestedFieldInfo) :
    Nat → Nat → List NestedStructInfo → String × List NestedStructInfo
  | 0,_,structs => (base,structs)
  | tries + 1,suffix,structs =>
    let candidate := if suffix = 0 then base else s!"{base}_{suffix}"
    match structs.find? fun s => s.name = candidate with
    | some existing =>
      if existing.fields = fields then (candidate,structs)
      else assignNestedStructName catalog base fields tries (suffix + 1) structs
    | none =>
      if (catalog.getComposite candidate).isNone ∧ (catalog.getEnum candidate).isNone then
        (candidate,structs ++ [⟨candidate,fields⟩])
      else assignNestedStructName catalog base fields tries (suffix + 1) structs

structure NestedNames where
  resolved : List (Nat × String)
  structs : List NestedStructInfo

def nestedTries (catalog : Catalog) (structs : List NestedStructInfo) : Nat :=
  structs.length + catalog.composites.keys.length + catalog.enums.keys.length + 1

def nestedName (catalog : Catalog) (pending : List PendingNestedStruct) (base : String) (id : Nat)
    (names : NestedNames) : String × NestedNames :=
  match names.resolved.lookup id with
  | some name => (name,names)
  | none =>
    let (name,structs) := assignNestedStructName catalog base ((pendingFields pending id).getD [])
      (nestedTries catalog names.structs) 0 names.structs
    (name,⟨(id,name) :: names.resolved,structs⟩)

-- Replace the placeholders of one type, one after the other.
def resolveNestedType (catalog : Catalog) (pending : List PendingNestedStruct) (base : String) :
    Nat → String → NestedNames → String × NestedNames
  | 0,neutralType,names => (neutralType,names)
  | fuel + 1,neutralType,names =>
    match findNestedPlaceholderId neutralType with
    | none => (neutralType,names)
    | some id =>
      let (name,names) := nestedName catalog pending base id names
      resolveNestedType catalog pending base fuel
        (replaceFirst neutralType s!"__nested__{id}" (toPascalCase name)) names

def resolveNestedColumns (catalog : Catalog) (snakeQuery : String) (pending : List PendingNestedStruct) :
    List AnalyzedColumn → NestedNames → List AnalyzedColumn × NestedNames
  | [],names => ([],names)
  | col :: cols,names =>
    let (neutralType,names) := resolveNestedType catalog pending s!"{snakeQuery}_row_{col.name}"
      col.neutralType.length col.neutralType names
    let (cols,names) := resolveNestedColumns catalog snakeQuery pending cols names
    ({col with neutralType:=neutralType} :: cols,names)

def resolveNestedStructNames (catalog : Catalog) (queryName : String) (pending : List PendingNestedStruct)
    (columns : List AnalyzedColumn) : List AnalyzedColumn × List NestedStructInfo :=
  if pending.isEmpty ∨ catalog.dialect ≠ .postgreSQL then (columns,[]) else
  let (columns,names) := resolveNestedColumns catalog (toSnakeCase queryName) pending columns ⟨[],[]⟩
  (columns,names.structs)

def groupByFormatError (value : String) : String := s!"@group_by must be in 'table.column' format, got: {value}"

def groupByEmptyError (value : String) : String :=
  s!"@group_by {value} matched none of the query's result columns, so the " ++
    "parent row type would have no fields -- name the table as it appears in the " ++
    "schema (not a query alias), and make sure the projection selects its columns " ++
    "under their own names"

def resolveGroupBy (catalog : Catalog) (query : ParsedQuery) (columns : List AnalyzedColumn) :
    Except ScytheError (Option GroupByConfig) :=
  match decide (query.command = .grouped),query.annotations.groupBy with
  | true,some value =>
    match splitOnce value '.' with
    | none => .error ( ScytheError.invalidAnnotation (groupByFormatError value))
    | some (table,keyColumn) =>
      let parentNames := ((catalog.getTable table).map fun t => t.columns.map (·.name)).getD []
      let parentColumns := columns.filter fun col => col.name ∈ parentNames
      let childColumns := columns.filter fun col => col.name ∉ parentNames
      if parentColumns.isEmpty then .error ( ScytheError.invalidAnnotation (groupByEmptyError value)) else
      .ok (some ⟨table,keyColumn,parentColumns,childColumns⟩)
  | _,_ => .ok none

def nestedFieldTypes (structs : List NestedStructInfo) : List String :=
  structs.flatMap fun nested => nested.fields.map (·.neutralType)

-- Every neutral type that generated code has to be able to name.
def reachedTypes (columns : List AnalyzedColumn) (params : List AnalyzedParam) (structs : List NestedStructInfo) :
    List String :=
  columns.map (·.neutralType) ++ params.map (·.neutralType) ++ nestedFieldTypes structs

def compositeFieldTypes (composites : List CompositeInfo) : List String :=
  composites.flatMap fun info => info.fields.map (·.neutralType)

-- What analysis does with the columns of the statement and the analyzer that
-- its functions leave behind.
def finish (catalog : Catalog) (query : ParsedQuery) (columns : List AnalyzedColumn) (self : Analyzer) :
    Except ScytheError AnalyzedQuery := do
  match self.typeErrors with
  | message :: _ => .error (.typeMismatch message)
  | [] =>
    let columns := columns.map (applyAnnotations query.annotations)
    rejectUntypedLiterals query.name columns
    let (columns,nestedStructs) := resolveNestedStructNames catalog query.name self.pendingNested columns
    let params ← resolveParams query.annotations self.params
    let types := reachedTypes columns params nestedStructs
    let composites := collectComposites catalog types
    let enums := collectEnums catalog (types ++ compositeFieldTypes composites)
    let groupBy ← resolveGroupBy catalog query columns
    return {
      name := query.name
      command := query.command
      sql := query.sql
      columns := columns
      params := params
      deprecated := query.annotations.deprecated
      sourceTable := detectSelectStarSource query.stmt
      composites := composites
      enums := enums
      optionalParams := query.annotations.optionalParams
      groupBy := groupBy
      custom := query.annotations.custom
      nestedStructs := nestedStructs }

-- `none` is a run that does not end.
def analyze [Printer] (catalog : Catalog) (query : ParsedQuery) : Option (Except ScytheError AnalyzedQuery) :=
  match (analyzeStatement catalog query.stmt).run .new with
  | none => none
  | some (.error failure,_) => some (.error failure)
  | some (.ok columns,self) => some (finish catalog query columns self)

theorem analyze_finished [Printer] {catalog : Catalog} {query : ParsedQuery} {analyzed : AnalyzedQuery}
    (is : analyze catalog query = some (.ok analyzed)) :
    ∃ columns self,(analyzeStatement catalog query.stmt).run .new = some (.ok columns,self) ∧
      finish catalog query columns self = .ok analyzed := by
  unfold analyze at is
  split at is
  · cases is
  · cases is
  · rename_i columns self ran
    exact ⟨columns,self,ran,Option.some.inj is⟩

end Scythe
