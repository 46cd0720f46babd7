import Scythe.Lib.Register
import Scythe.TypeClosure

-- The code of one query, as the texts that a backend renders for it.
namespace Scythe.AssembledFile
open Text Identifiers

structure NestedStructDef where
  name : String
  code : String
  deriving DecidableEq,Repr

-- The enums of a query are rendered once more for the file, and only there for it.
structure GeneratedCode where
  queryFn : Option String
  rowStruct : Option String
  modelStruct : Option String
  nestedStructDefs : List NestedStructDef
  deriving DecidableEq,Repr

structure GroupedQueryFn (Column Param : Type) where
  analyzed : AnalyzedQuery
  parentStructName : String
  childStructName : String
  allColumns : List Column
  parentColumns : List Column
  childColumns : List Column
  params : List Param
  keyColumn : String

-- A backend, by what it resolves with the tables of its manifest and what it
-- renders. A resolved column has its name in the query and the one of its field.
structure CodegenBackend (Column Param : Type) where
  naming : NamingConfig
  language : String
  jsonArray : Bool
  columnName : Column → String
  columnFieldName : Column → String
  resolveColumns : List AnalyzedColumn → List TypeOverride → Except String (List Column)
  resolveParams : List AnalyzedParam → List TypeOverride → String → Except String (List Param)
  generateRowStruct : String → List Column → Except String String
  generateModelStruct : String → List Column → Except String String
  generateQueryFn : AnalyzedQuery → String → List Column → List Param → Except String String
  generateGroupedStructs : String → String → List Column → List Column → String → Except String String
  generateGroupedQueryFn : GroupedQueryFn Column Param → Except String String
  generateEnumDef : EnumInfo → Except String String
  generateEnumDefForNested : EnumInfo → Except String String
  generateCompositeDef : CompositeInfo → Except String String
  generateCompositeDefForNested : CompositeInfo → Except String String
  generateNestedStructDef : NestedStructInfo → Except String (Option String)
  fileHeaderForResults : List GeneratedCode → String
  queryClassHeader : String
  fileFooter : String
  postFooter : String

def duplicateAlias (msg : String) : String := s!"DUPLICATE_ALIAS: {msg}"
def internalError (msg : String) : String := s!"INTERNAL_ERROR: {msg}"

-- The first two that have one name.
def firstCollision : List (String × String) → Option (String × String × String)
  | [] => none
  | (source,name) :: rest =>
    match rest.find? fun other => other.2 = name with
    | some other => some (source,other.1,name)
    | none => firstCollision rest

def checkCollisions (message : String → String → String → String) (items : List (String × String)) :
    Except String Unit :=
  match firstCollision items with
  | some (sourceA,sourceB,name) => .error (duplicateAlias (message sourceA sourceB name))
  | none => .ok ()

def checkFieldNameCollisions (items : List (String × String)) (kind : String) (naming : NamingConfig) :
    Except String Unit :=
  let alternative := if naming.fieldCase = "snake_case" then "" else ", or set field_case = \"snake_case\""
  checkCollisions (fun sqlA sqlB field =>
    s!"{kind} '{sqlA}' and '{sqlB}' both resolve to field name '{field}' under field_case = \"{naming.fieldCase}\" -- " ++
      s!"alias one of them in SQL{alternative}") items

def checkTypeNameCollisions (items : List (String × String)) (kind : String) : Except String Unit :=
  checkCollisions (fun sourceA sourceB name =>
    s!"{kind} '{sourceA}' and '{sourceB}' both resolve to generated name '{name}' -- rename one of them") items

def checkEnumVariantCollisions (items : List (String × String)) (enumName : String) : Except String Unit :=
  checkCollisions (fun sourceA sourceB name =>
    s!"enum '{enumName}' values '{sourceA}' and '{sourceB}' both resolve to variant '{name}' -- " ++
      "rename one of the SQL values") items

def pushSeparated (separator out text : String) : String := (if out = "" then "" else out ++ separator) ++ text

def groupedChildrenField : String := "children"

-- A suffix that is empty cuts nothing off.
def trimEndMatches (suffix : List Char) : Nat → List Char → List Char
  | 0,name => name
  | rounds + 1,name =>
    match suffix.isSuffixOf? name with
    | some rest => if suffix = [] then name else trimEndMatches suffix rounds rest
    | none => name

section
variable [CaseMap] {Column Param : Type} (backend : CodegenBackend Column Param)

-- The part of a backend that the types of nested structs depend on.
def CodegenBackend.nested : NestedBackend where
  builds info := match backend.generateNestedStructDef info with
    | .ok (some _) => true
    | _ => false
  jsonArray := backend.jsonArray

def renderNestedStructs (nestedStructs : List NestedStructInfo) : Except String (List NestedStructDef) := do
  let rendered ← nestedStructs.mapM fun info => do
    let code ← backend.generateNestedStructDef info
    pure (info.name,code)
  pure (rendered.filterMap fun item => item.2.map fun code => ⟨item.1,code⟩)

def degradeColumns (analyzed : AnalyzedQuery) (columns : List AnalyzedColumn) : List AnalyzedColumn :=
  (degradeUnsupportedNestedStructs backend.nested columns analyzed.nestedStructs).1

def determineStructName (analyzed : AnalyzedQuery) : String :=
  match analyzed.sourceTable with
  | some tableName => modelStructName backend.naming tableName
  | none => rowStructName backend.naming analyzed.name

def generateSingleEnumDef (info : EnumInfo) (reachableFromNested : Bool) : Except String String :=
  if reachableFromNested then backend.generateEnumDefForNested info else backend.generateEnumDef info

def nestedEnumRefs (analyzed : AnalyzedQuery) : List String :=
  (emittedNestedFields backend.nested analyzed).filterMap fun field => enumRef field.neutralType

-- An enum that the catalog does not have is rendered without values.
def generateEnumDefsViaBackend (analyzed : AnalyzedQuery) (declaredStructName : Option String) :
    Except String String := do
  let nestedRefs := nestedEnumRefs backend analyzed
  let sources := firstOfEach id [] (analyzed.columns.filterMap (fun col => enumRef col.neutralType) ++
    analyzed.params.filterMap (fun param => enumRef param.neutralType) ++ nestedRefs)
  let generatedNames := sources.map fun sqlName => (sqlName,enumTypeName backend.naming sqlName)
  let queryTypeEntry := declaredStructName.toList.map fun name => ("<query row/model type>",name)
  checkTypeNameCollisions (generatedNames ++ queryTypeEntry) "enum and query type names"
  sources.foldlM (fun out sqlName => do
    let info := (analyzed.enums.find? fun info => info.sqlName = sqlName).getD ⟨sqlName,[]⟩
    checkEnumVariantCollisions (info.values.map fun value => (value,enumVariantName backend.naming value)) sqlName
    let definition ← generateSingleEnumDef backend info (sqlName ∈ nestedRefs)
    pure (pushSeparated "\n" out definition)) ""

-- A composite that some query of the file reaches through a nested struct has the
-- nested form in all of them.
def compositeDef (analyzed : AnalyzedQuery) (nestedCompositeNames : List String) (comp : CompositeInfo) :
    Except String String :=
  let nestedRefs := (emittedNestedFields backend.nested analyzed).filterMap fun field => compositeRef field.neutralType
  if comp.sqlName ∈ nestedRefs ∨ comp.sqlName ∈ nestedCompositeNames then
    backend.generateCompositeDefForNested comp
  else backend.generateCompositeDef comp

structure OwnStructs where
  model : Option String
  row : Option String

def generateOwnStruct (analyzed : AnalyzedQuery) (columns : List Column) : Except String OwnStructs :=
  match analyzed.command with
  | .one | .opt | .many =>
    if analyzed.columns = [] then .ok ⟨none,none⟩ else
    match analyzed.sourceTable with
    | some tableName => do pure ⟨some (← backend.generateModelStruct tableName columns),none⟩
    | none => do pure ⟨none,some (← backend.generateRowStruct analyzed.name columns)⟩
  | _ => .ok ⟨none,none⟩

def declaredStructName (analyzed : AnalyzedQuery) : Option String :=
  match analyzed.command with
  | .one | .opt | .many => if analyzed.columns = [] then none else some (determineStructName backend analyzed)
  | _ => none

def childStructName (parentStructName : String) : String :=
  let base := trimEndMatches backend.naming.rowSuffix.toList parentStructName.toList.length parentStructName.toList
  String.ofList base ++ "Child" ++ backend.naming.rowSuffix

def generateGrouped (overrides : List TypeOverride) (analyzed : AnalyzedQuery) (columns : List Column)
    (params : List Param) : Except String (String × String) := do
  let groupBy ← match analyzed.groupBy with
    | some groupBy => pure groupBy
    | none => .error (internalError s!"query '{analyzed.name}' is :grouped but is missing @group_by annotation")
  let parentStructName := rowStructName backend.naming analyzed.name
  let childStructName := childStructName backend parentStructName
  let parentCols ← backend.resolveColumns (degradeColumns backend analyzed groupBy.parentColumns) overrides
  let childCols ← backend.resolveColumns (degradeColumns backend analyzed groupBy.childColumns) overrides
  let children := ("<synthesized :grouped children field>",fieldName backend.naming groupedChildrenField)
  checkFieldNameCollisions
    (parentCols.map (fun col => (backend.columnName col,backend.columnFieldName col)) ++ [children])
    "parent columns" backend.naming
  let structs ← backend.generateGroupedStructs parentStructName childStructName parentCols childCols groupBy.keyColumn
  let queryFn ← backend.generateGroupedQueryFn
    ⟨analyzed,parentStructName,childStructName,columns,parentCols,childCols,params,groupBy.keyColumn⟩
  pure (structs,queryFn)

-- The text of the table's model and those of the composites.
def modelText (model : Option String) (composites : List String) : Option String :=
  let extraDefs := composites.foldl (pushSeparated "\n\n") ""
  if extraDefs = "" then model else
  match model with
  | some existing => some (existing ++ "\n\n" ++ extraDefs)
  | none => some extraDefs

def generateCode (overrides : List TypeOverride) (nestedCompositeNames : List String) (analyzed : AnalyzedQuery) :
    Except String GeneratedCode := do
  let nestedStructDefs ← renderNestedStructs backend analyzed.nestedStructs
  let columns ← backend.resolveColumns (degradeColumns backend analyzed analyzed.columns) overrides
  let params ← backend.resolveParams analyzed.params overrides (analyzed.sourceTable.getD "")
  let _ ← generateEnumDefsViaBackend backend analyzed (declaredStructName backend analyzed)
  let own ← generateOwnStruct backend analyzed columns
  let composites ← (emittedComposites backend.nested analyzed).mapM (compositeDef backend analyzed nestedCompositeNames)
  let modelStruct := modelText own.model composites
  if analyzed.command = .grouped then
    let (structs,queryFn) ← generateGrouped backend overrides analyzed columns params
    pure ⟨some queryFn,some structs,modelStruct,nestedStructDefs⟩
  else
    let queryFn ← backend.generateQueryFn analyzed (determineStructName backend analyzed) columns params
    pure ⟨some queryFn,own.row,modelStruct,nestedStructDefs⟩

end

end Scythe.AssembledFile
