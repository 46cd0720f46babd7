import Scythe.BackendCode
import Scythe.Lib.Merge

-- One output file: the code of its queries, the check of the generated names and
-- the text that the definitions are put together to.
namespace Scythe.AssembledFile
open Text Identifiers

structure QueryResult where
  code : GeneratedCode
  enums : List EnumInfo
  nestedEnumNames : List String
  deriving DecidableEq,Repr

-- The declarations of each name, with where they come from and their text.
abbrev Declared := List (String × String × String)

def recordTypeDeclaration (declared : Declared) (name source body renameHint : String) : Except String Declared :=
  match declared.lookup name with
  | some (prevSource,prevBody) =>
    if prevBody ≠ body then
      .error (s!"{prevSource} and {source} both generate a declaration named '{name}' with different bodies -- " ++
        s!"rename one of them ({renameHint}) so the generated names differ")
    else .ok declared
  | none => .ok ((name,source,body) :: declared)

section
variable [CaseMap] {Column Param : Type} (backend : CodegenBackend Column Param)

def fileNestedEnumNames (results : List QueryResult) : List String := results.flatMap (·.nestedEnumNames)

def enumDef (results : List QueryResult) (info : EnumInfo) : Except String String :=
  generateSingleEnumDef backend info (info.sqlName ∈ fileNestedEnumNames results)

def structHint : String := "@name, or the qualifying schema/table"

def recordStruct (declared : Declared) (analyzed : AnalyzedQuery) (code : GeneratedCode) : Except String Declared :=
  match analyzed.sourceTable,code.modelStruct,code.rowStruct with
  | some tableName,some body,_ => recordTypeDeclaration declared (modelStructName backend.naming tableName)
      s!"table '{tableName}'" body structHint
  | some _,none,_ => .ok declared
  | none,_,some body => recordTypeDeclaration declared (rowStructName backend.naming analyzed.name)
      s!"query '{analyzed.name}'" body structHint
  | none,_,none => .ok declared

def recordFn (declaredFns : Declared) (analyzed : AnalyzedQuery) (code : GeneratedCode) : Except String Declared :=
  match code.queryFn with
  | some body => recordTypeDeclaration declaredFns (fnName backend.naming analyzed.name)
      s!"query '{analyzed.name}'" body "@name"
  | none => .ok declaredFns

def recordEnum (results : List QueryResult) (declared : Declared) (info : EnumInfo) : Except String Declared :=
  match enumDef backend results info with
  | .error e => .error s!"rendering enum '{info.sqlName}' for collision check: {e}"
  | .ok body => recordTypeDeclaration declared (enumTypeName backend.naming info.sqlName)
      s!"enum '{info.sqlName}'" body structHint

def recordQuery (results : List QueryResult) (maps : Declared × Declared) (pair : AnalyzedQuery × QueryResult) :
    Except String (Declared × Declared) := do
  let declared ← recordStruct backend maps.1 pair.1 pair.2.code
  let declaredFns ← recordFn backend maps.2 pair.1 pair.2.code
  let declared ← pair.2.enums.foldlM (recordEnum backend results) declared
  pure (declared,declaredFns)

def checkFileLevelTypeNameCollisions (analyzedQueries : List AnalyzedQuery) (results : List QueryResult) :
    Except String Unit := do
  let _ ← (analyzedQueries.zip results).foldlM (recordQuery backend results) ([],[])
  pure ()

def recordShape (shapes : List (String × List NestedFieldInfo)) (nested : NestedStructInfo) :
    Except String (List (String × List NestedFieldInfo)) :=
  if (shapes.lookup nested.name).any fun fields => fields ≠ nested.fields then
    .error (s!"two queries in this output file derive the nested struct name '{nested.name}' from different row " ++
      "shapes; rename one of the queries or its output column (@name / column alias) so the generated struct " ++
        "names differ")
  else .ok ((nested.name,nested.fields) :: shapes)

def nestedComposites (analyzed : AnalyzedQuery) : List String :=
  (analyzed.composites.map (·.sqlName)).filter (nestedTypeIsEmitted backend.nested analyzed "composite::")

def queryResult (analyzed : AnalyzedQuery) (code : GeneratedCode) : QueryResult :=
  let enums := declaredEnums backend.nested analyzed
  let names := (analyzed.enums.map (·.sqlName)).filter (nestedTypeIsEmitted backend.nested analyzed "enum::")
  ⟨code,enums,names⟩

-- Rendered once more where some query needs a composite in its nested form.
def promotedCodes (overrides : List TypeOverride) (analyzedQueries : List AnalyzedQuery)
    (initialCodes : List GeneratedCode) : Except String (List GeneratedCode) :=
  let nestedCompositeNames := analyzedQueries.flatMap (nestedComposites backend)
  if nestedCompositeNames = [] then .ok initialCodes else
  analyzedQueries.mapM (generateCode backend overrides nestedCompositeNames)

def generateForBackend (overrides : List TypeOverride) (analyzedQueries : List AnalyzedQuery) :
    Except String (List QueryResult) := do
  let _ ← (analyzedQueries.flatMap (·.nestedStructs)).foldlM recordShape []
  let initialCodes ← analyzedQueries.mapM (generateCode backend overrides [])
  let codes ← promotedCodes backend overrides analyzedQueries initialCodes
  let results := (analyzedQueries.zip codes).map fun pair => queryResult backend pair.1 pair.2
  checkFileLevelTypeNameCollisions backend analyzedQueries results
  pure results

def uniqueEnumDefs (results : List QueryResult) : List String :=
  (firstOfEach EnumInfo.sqlName [] (results.flatMap (·.enums))).filterMap fun info => (enumDef backend results info).toOption

def uniqueNestedDefs (results : List QueryResult) : List String :=
  (firstOfEach NestedStructDef.name [] (results.flatMap (·.code.nestedStructDefs))).map (·.code)

def pythonModelsFirst : Bool := backend.language = "python"

-- The loop over the results. A model text that was written before is left out.
def structsAndFns (withModels withFns : Bool) (seen : List String) : List QueryResult → List String
  | [] => []
  | result :: results =>
    let models := if withModels then result.code.modelStruct.toList.filter (· ∉ seen) else []
    let fns := if withFns then result.code.queryFn.toList else []
    models ++ result.code.rowStruct.toList ++ fns ++ structsAndFns withModels withFns (models ++ seen) results

def written (text : String) : List String := if text = "" then [] else [text]

def outputParts (results : List QueryResult) : List String :=
  let models := firstOfEach id [] (results.filterMap (·.code.modelStruct))
  let withModels := !pythonModelsFirst backend
  written (backend.fileHeaderForResults (results.map (·.code))) ++ uniqueEnumDefs backend results ++
    (if pythonModelsFirst backend then models else []) ++ uniqueNestedDefs results ++
      (if backend.queryClassHeader = "" then structsAndFns withModels true [] results else
        structsAndFns withModels false [] results ++ [backend.queryClassHeader] ++
          results.filterMap (·.code.queryFn)) ++
        written backend.fileFooter ++ written backend.postFooter

def assembleBody (results : List QueryResult) : String :=
  let parts := outputParts backend results
  if parts = [] then "// No queries generated.\n" else join "\n\n" parts ++ "\n"

end

inductive Declaration where
  | type (name : String)
  | function (name : String)
  deriving DecidableEq,Repr

-- What a target language reads in a text. A text is whole when no comment and no
-- string is open at its end.
structure TargetLanguage where
  declares : String → List Declaration
  Whole : String → Prop
  whole_empty : Whole ""
  declares_empty : declares "" = []
  whole_separated : ∀ a b,Whole a → Whole b → Whole (a ++ "\n\n" ++ b)
  declares_separated : ∀ a b,Whole a → Whole b → declares (a ++ "\n\n" ++ b) = declares a ++ declares b
  declares_ended : ∀ a,Whole a → declares (a ++ "\n") = declares a

-- What the assembly takes for one definition: enums and nested structs by their
-- names, models by their text, rows and functions by their query.
inductive Identity where
  | enum (sqlName : String)
  | nested (name : String)
  | model (text : String)
  | row (query : Nat)
  | function (query : Nat)
  deriving DecidableEq,Repr

def numbered (tag : Nat → Identity) (text : QueryResult → Option String) (results : List QueryResult) :
    List (Identity × String) :=
  results.zipIdx.filterMap fun item => (text item.1).map fun text => (tag item.2,text)

section
variable [CaseMap] {Column Param : Type} (backend : CodegenBackend Column Param) (language : TargetLanguage)

def enumDefinition (results : List QueryResult) (info : EnumInfo) : Option (Identity × String) :=
  (enumDef backend results info).toOption.map fun text => (.enum info.sqlName,text)

def nestedDefinition (nested : NestedStructDef) : Identity × String := (.nested nested.name,nested.code)
def modelDefinition (text : String) : Identity × String := (.model text,text)

def rowsAndFns (results : List QueryResult) : List (Identity × String) :=
  numbered .row (·.code.rowStruct) results ++ numbered .function (·.code.queryFn) results

-- The definitions that the queries bring to the file, and the ones that stand in it.
def definitions (results : List QueryResult) : List (Identity × String) :=
  (results.flatMap (·.enums)).filterMap (enumDefinition backend results) ++
    (results.flatMap (·.code.nestedStructDefs)).map nestedDefinition ++
      (results.filterMap (·.code.modelStruct)).map modelDefinition ++ rowsAndFns results

def keptDefinitions (results : List QueryResult) : List (Identity × String) :=
  (firstOfEach EnumInfo.sqlName [] (results.flatMap (·.enums))).filterMap (enumDefinition backend results) ++
    (firstOfEach NestedStructDef.name [] (results.flatMap (·.code.nestedStructDefs))).map nestedDefinition ++
      (firstOfEach id [] (results.filterMap (·.code.modelStruct))).map modelDefinition ++ rowsAndFns results

-- What stands around the definitions.
def frameParts (results : List QueryResult) : List String :=
  written (backend.fileHeaderForResults (results.map (·.code))) ++ written backend.queryClassHeader ++
    written backend.fileFooter ++ written backend.postFooter

def pieces (definitions : List (Identity × String)) : List (Identity × List Declaration) :=
  definitions.map fun definition => (definition.1,language.declares definition.2)

def DeclaredOnce (results : List QueryResult) : Prop :=
  ∀ definition ∈ definitions backend results,∀ declaration ∈ language.declares definition.2,
    (language.declares (assembleBody backend results)).count declaration = 1

-- Definitions that the assembly keeps apart declare no name in common.
def NamesApart (results : List QueryResult) : Prop :=
  Merge.Apart ((frameParts backend results).flatMap language.declares) (pieces language (definitions backend results))

end

section
variable {α : Type} {key : α → String}

theorem firstOfEach_sublist (seen : List String) (xs : List α) : (firstOfEach key seen xs).Sublist xs := by
  induction xs generalizing seen with
  | nil => exact List.Sublist.refl _
  | cons x xs ih =>
    unfold firstOfEach
    split
    · exact (ih seen).cons x
    · exact (ih _).cons_cons x

theorem firstOfEach_distinct (key : α → String) (seen : List String) (xs : List α) : ((firstOfEach key seen xs).map key).Nodup := by
  induction xs generalizing seen with
  | nil => exact List.nodup_nil
  | cons x xs ih =>
    unfold firstOfEach
    split
    · exact ih seen
    · rw [List.map_cons,List.nodup_cons]
      refine ⟨?_,ih _⟩
      intro member
      obtain ⟨y,inside,same⟩ := List.mem_map.mp member
      exact ((firstOfEach_keys (key x)).mp ⟨y,inside,same⟩).2 List.mem_cons_self

-- Where values of one key are all mapped to one image, none of the images is lost.
theorem firstOfEach_images {β : Type} {f : α → β} {xs : List α} (consistent : ∀ x ∈ xs,∀ y ∈ xs,key x = key y → f x = f y)
    (image : β) : (∃ x ∈ firstOfEach key [] xs,f x = image) ↔ ∃ x ∈ xs,f x = image := by
  constructor
  · intro kept
    obtain ⟨x,member,is⟩ := kept
    exact ⟨x,(firstOfEach_sublist [] xs).subset member,is⟩
  · intro given
    obtain ⟨x,member,is⟩ := given
    obtain ⟨y,first,same⟩ := (firstOfEach_keys (key x)).mpr ⟨⟨x,member,rfl⟩,List.not_mem_nil⟩
    have among := (firstOfEach_sublist [] xs).subset first
    exact ⟨y,first,(consistent y among x member same).trans is⟩

end

section
variable {tag : Nat → Identity} {text : QueryResult → Option String}

theorem numbered_texts (results : List QueryResult) (start : Nat) :
    ((results.zipIdx start).filterMap fun item => (text item.1).map fun text => (tag item.2,text)).map Prod.snd =
      results.filterMap text := by
  induction results generalizing start with
  | nil => rfl
  | cons result results ih =>
    rw [List.zipIdx_cons]
    cases is : text result with
    | none => simp only [List.filterMap_cons,is,Option.map_none,ih]
    | some body => simp only [List.filterMap_cons,is,Option.map_some,List.map_cons,ih]

theorem numbered_snd (results : List QueryResult) :
    (numbered tag text results).map Prod.snd = results.filterMap text := numbered_texts results 0

theorem numbered_tags (results : List QueryResult) {identity : Identity}
    (member : identity ∈ (numbered tag text results).map Prod.fst) : ∃ query,identity = tag query := by
  obtain ⟨definition,inside,is⟩ := List.mem_map.mp member
  obtain ⟨item,-,made⟩ := List.mem_filterMap.mp inside
  obtain ⟨body,-,is'⟩ := Option.map_eq_some_iff.mp made
  exact ⟨item.2,by rw [← is,← is']⟩

theorem numbered_distinct (injective : Function.Injective tag) (results : List QueryResult) :
    ((numbered tag text results).map Prod.fst).Nodup := by
  have tagged : ((numbered tag text results).map Prod.fst).Sublist ((results.zipIdx.map Prod.snd).map tag) := by
    unfold numbered
    generalize results.zipIdx = items
    induction items with
    | nil => exact List.Sublist.refl _
    | cons item items ih =>
      cases is : text item.1 with
      | none =>
        rw [List.filterMap_cons_none (by rw [is,Option.map_none])]
        exact ih.cons _
      | some body =>
        rw [List.filterMap_cons_some (by rw [is,Option.map_some])]
        exact ih.cons_cons _
  apply List.Nodup.sublist tagged
  apply List.Nodup.map injective
  rw [List.zipIdx_map_snd]
  exact List.nodup_range'

end

inductive Kind where
  | enum
  | nested
  | model
  | row
  | function
  deriving DecidableEq,Repr

def Identity.kind : Identity → Kind
  | .enum _ => .enum
  | .nested _ => .nested
  | .model _ => .model
  | .row _ => .row
  | .function _ => .function

theorem distinct_append {xs ys : List (Identity × String)} (kind : Kind) (first : (xs.map Prod.fst).Nodup)
    (second : (ys.map Prod.fst).Nodup) (same : ∀ x ∈ xs,x.1.kind = kind) (other : ∀ y ∈ ys,y.1.kind ≠ kind) :
    ((xs ++ ys).map Prod.fst).Nodup := by
  rw [List.map_append]
  refine List.Nodup.append first second ?_
  intro identity left right
  obtain ⟨x,among,rfl⟩ := List.mem_map.mp left
  obtain ⟨y,inside,is⟩ := List.mem_map.mp right
  exact other y inside (is ▸ same x among)

theorem numbered_kind {kind : Kind} (tag : Nat → Identity) (tagged : ∀ i,(tag i).kind = kind)
    {text : QueryResult → Option String} {results : List QueryResult} :
    ∀ definition ∈ numbered tag text results,definition.1.kind = kind := by
  intro definition member
  obtain ⟨query,is⟩ := numbered_tags results (List.mem_map.mpr ⟨definition,member,rfl⟩)
  rw [is,tagged]

theorem rowsAndFns_kind {results : List QueryResult} :
    ∀ definition ∈ rowsAndFns results,definition.1.kind = .row ∨ definition.1.kind = .function := by
  intro definition member
  rcases List.mem_append.mp member with row | function
  · exact .inl (numbered_kind .row (fun _ => rfl) definition row)
  · exact .inr (numbered_kind .function (fun _ => rfl) definition function)

theorem rowsAndFns_distinct (results : List QueryResult) : ((rowsAndFns results).map Prod.fst).Nodup := by
  apply distinct_append .row
  · exact numbered_distinct (fun _ _ same => Identity.row.inj same) results
  · exact numbered_distinct (fun _ _ same => Identity.function.inj same) results
  · exact numbered_kind .row fun _ => rfl
  · intro definition member row
    have function := numbered_kind .function (fun _ => rfl) definition member
    rw [row] at function
    cases function

section
variable [CaseMap] {Column Param : Type} {backend : CodegenBackend Column Param} {results : List QueryResult}

omit [CaseMap] in
theorem enumDefinition_identity {info : EnumInfo} {definition : Identity × String}
    (is : enumDefinition backend results info = some definition) : definition.1 = .enum info.sqlName := by
  obtain ⟨text,-,rfl⟩ := Option.map_eq_some_iff.mp is
  rfl

omit [CaseMap] in
theorem enumDefinitions_distinct {infos : List EnumInfo} (distinct : (infos.map EnumInfo.sqlName).Nodup) :
    ((infos.filterMap (enumDefinition backend results)).map Prod.fst).Nodup := by
  have tagged : ((infos.filterMap (enumDefinition backend results)).map Prod.fst).Sublist
      ((infos.map EnumInfo.sqlName).map Identity.enum) := by
    clear distinct
    induction infos with
    | nil => exact List.Sublist.refl _
    | cons info infos ih =>
      cases is : enumDefinition backend results info with
      | none =>
        rw [List.filterMap_cons_none is]
        exact ih.cons _
      | some definition =>
        rw [List.filterMap_cons_some is,List.map_cons,enumDefinition_identity is]
        exact ih.cons_cons _
  exact (distinct.map fun _ _ same => Identity.enum.inj same).sublist tagged

omit [CaseMap] in
theorem tagged_distinct {α : Type} {key : α → String} {tag : String → Identity} (injective : Function.Injective tag)
    {text : α → String} (xs : List α) :
    (((firstOfEach key [] xs).map fun x => (tag (key x),text x)).map Prod.fst).Nodup := by
  have tagged := (firstOfEach_distinct key [] xs).map injective
  rw [List.map_map] at tagged ⊢
  exact tagged

omit [CaseMap] in
theorem keptDefinitions_distinct (results : List QueryResult) :
    ((keptDefinitions backend results).map Prod.fst).Nodup := by
  unfold keptDefinitions
  rw [List.append_assoc,List.append_assoc]
  have nested : ∀ {infos : List NestedStructDef},∀ definition ∈ infos.map nestedDefinition,
      definition.1.kind = .nested := by
    intro infos definition member
    obtain ⟨def',-,rfl⟩ := List.mem_map.mp member
    rfl
  have models : ∀ {texts : List String},∀ definition ∈ texts.map modelDefinition,definition.1.kind = .model := by
    intro texts definition member
    obtain ⟨text,-,rfl⟩ := List.mem_map.mp member
    rfl
  apply distinct_append .enum
  · exact enumDefinitions_distinct (firstOfEach_distinct _ _ _)
  · apply distinct_append .nested
    · exact tagged_distinct (fun _ _ same => Identity.nested.inj same) _
    · apply distinct_append .model
      · exact tagged_distinct (fun _ _ same => Identity.model.inj same) _
      · exact rowsAndFns_distinct results
      · exact models
      · intro definition member
        rcases rowsAndFns_kind definition member with is | is <;> rw [is] <;> decide
    · exact nested
    · intro definition member
      rcases List.mem_append.mp member with model | other
      · rw [models definition model]
        decide
      · rcases rowsAndFns_kind definition other with is | is <;> rw [is] <;> decide
  · intro definition member
    obtain ⟨info,-,made⟩ := List.mem_filterMap.mp member
    rw [enumDefinition_identity made]
    rfl
  · intro definition member
    rcases List.mem_append.mp member with inside | later
    · rw [nested definition inside]
      decide
    · rcases List.mem_append.mp later with model | other
      · rw [models definition model]
        decide
      · rcases rowsAndFns_kind definition other with is | is <;> rw [is] <;> decide

end

theorem recordShape_ok {shapes next : List (String × List NestedFieldInfo)} {nested : NestedStructInfo}
    (done : recordShape shapes nested = .ok next) : next = (nested.name,nested.fields) :: shapes ∧
      ∀ fields,shapes.lookup nested.name = some fields → fields = nested.fields := by
  unfold recordShape at done
  split at done
  · cases done
  · rename_i same
    cases done
    refine ⟨rfl,?_⟩
    intro fields is
    rw [is] at same
    simpa using same

theorem accepted_shapes {structs : List NestedStructInfo} {shapes : List (String × List NestedFieldInfo)}
    (done : structs.foldlM recordShape [] = .ok shapes) :
    ∀ nested ∈ structs,∀ other ∈ structs,nested.name = other.name → nested = other := by
  have each := Register.run_each
    (Q := fun nested (shapes : List (String × List NestedFieldInfo)) => shapes.lookup nested.name = some nested.fields)
    (fun _ _ _ step => by rw [(recordShape_ok step).1]; exact List.lookup_cons_self)
    (by
      intro nested shapes other next holds step
      obtain ⟨rfl,same⟩ := recordShape_ok step
      by_cases equal : nested.name = other.name
      · rw [equal] at holds ⊢
        rw [same _ holds]
        exact List.lookup_cons_self
      · rw [List.lookup_cons,beq_eq_false_iff_ne.mpr equal]
        exact holds) done
  intro nested member other inside same
  have first := each nested member
  rw [same,each other inside] at first
  cases nested
  cases other
  simp only [Option.some.injEq] at first
  simp only at same
  rw [same,first]

-- The check leaves the first text of each name in place.
theorem record_ok {declared next : Declared} {name source body renameHint : String}
    (done : recordTypeDeclaration declared name source body renameHint = .ok next) :
    (∃ first,next.lookup name = some (first,body)) ∧
      ∀ other entry,declared.lookup other = some entry → next.lookup other = some entry := by
  unfold recordTypeDeclaration at done
  split at done
  · rename_i prevSource prevBody known
    split at done
    · cases done
    · rename_i same
      cases done
      exact ⟨⟨prevSource,by rw [known,Decidable.not_not.mp same]⟩,fun other entry is => is⟩
  · rename_i unknown
    cases done
    refine ⟨⟨source,List.lookup_cons_self⟩,?_⟩
    intro other entry is
    have differ : (other == name) = false := by
      rw [beq_eq_false_iff_ne]
      intro same
      rw [same,unknown] at is
      cases is
    rw [List.lookup_cons,differ]
    exact is

section
variable [CaseMap] {Column Param : Type} {backend : CodegenBackend Column Param} {results : List QueryResult}

-- An enum that was recorded has the text that stands under its name.
def Recorded (backend : CodegenBackend Column Param) (results : List QueryResult) (info : EnumInfo)
    (declared : Declared) : Prop :=
  ∃ first body,enumDef backend results info = .ok body ∧
    declared.lookup (enumTypeName backend.naming info.sqlName) = some (first,body)

def Keeps (declared next : Declared) : Prop :=
  ∀ name entry,declared.lookup name = some entry → next.lookup name = some entry

theorem recorded_kept {info : EnumInfo} {declared next : Declared} (keeps : Keeps declared next)
    (recorded : Recorded backend results info declared) : Recorded backend results info next := by
  obtain ⟨first,body,rendered,found⟩ := recorded
  exact ⟨first,body,rendered,keeps _ _ found⟩

theorem recordEnum_ok {declared next : Declared} {info : EnumInfo}
    (done : recordEnum backend results declared info = .ok next) :
    Recorded backend results info next ∧ Keeps declared next := by
  unfold recordEnum at done
  split at done
  · cases done
  · rename_i body rendered
    obtain ⟨⟨first,found⟩,keeps⟩ := record_ok done
    exact ⟨⟨first,body,rendered,found⟩,keeps⟩

theorem recordStruct_keeps {declared next : Declared} {analyzed : AnalyzedQuery} {code : GeneratedCode}
    (done : recordStruct backend declared analyzed code = .ok next) : Keeps declared next := by
  unfold recordStruct at done
  split at done
  · exact (record_ok done).2
  · cases done
    exact fun _ _ is => is
  · exact (record_ok done).2
  · cases done
    exact fun _ _ is => is

theorem recordQuery_ok {maps next : Declared × Declared} {pair : AnalyzedQuery × QueryResult}
    (done : recordQuery backend results maps pair = .ok next) :
    (∀ info ∈ pair.2.enums,Recorded backend results info next.1) ∧ Keeps maps.1 next.1 := by
  unfold recordQuery at done
  obtain ⟨structs,first,rest⟩ := Register.bind_ok done
  obtain ⟨fns,-,rest⟩ := Register.bind_ok rest
  obtain ⟨declared,enums,last⟩ := Register.bind_ok rest
  cases last
  constructor
  · exact Register.run_each (Q := Recorded backend results) (fun _ _ _ step => (recordEnum_ok step).1)
      (fun _ _ _ _ holds step => recorded_kept (recordEnum_ok step).2 holds) enums
  · refine Register.run_invariant (P := Keeps maps.1) ?_ (recordStruct_keeps first) enums
    intro middle info _ after holds step name entry is
    exact (recordEnum_ok step).2 name entry (holds name entry is)

-- Accepted enums of one SQL name have one text.
theorem accepted_enums {analyzedQueries : List AnalyzedQuery} (aligned : results.length ≤ analyzedQueries.length)
    (accepted : checkFileLevelTypeNameCollisions backend analyzedQueries results = .ok ()) :
    ∀ info ∈ results.flatMap (·.enums),∀ other ∈ results.flatMap (·.enums),info.sqlName = other.sqlName →
      enumDefinition backend results info = enumDefinition backend results other := by
  unfold checkFileLevelTypeNameCollisions at accepted
  obtain ⟨maps,done,-⟩ := Register.bind_ok accepted
  have each := Register.run_each
    (Q := fun pair (maps : Declared × Declared) => ∀ info ∈ pair.2.enums,Recorded backend results info maps.1)
    (fun _ _ _ step => (recordQuery_ok step).1)
    (fun _ _ _ _ holds step info member => recorded_kept (recordQuery_ok step).2 (holds info member)) done
  have all : ∀ info ∈ results.flatMap (·.enums),Recorded backend results info maps.1 := by
    intro info member
    obtain ⟨result,among,inside⟩ := List.mem_flatMap.mp member
    rw [← List.map_snd_zip aligned] at among
    obtain ⟨pair,paired,rfl⟩ := List.mem_map.mp among
    exact each pair paired info inside
  intro info member other inside same
  obtain ⟨first,body,rendered,found⟩ := all info member
  obtain ⟨second,text,rendered',found'⟩ := all other inside
  rw [same,found'] at found
  cases found
  unfold enumDefinition
  rw [rendered,rendered',same]

-- A nested struct of a result is the one that the backend renders for its name.
omit [CaseMap] in
theorem renderNestedStructs_ok {nestedStructs : List NestedStructInfo} {defs : List NestedStructDef}
    (done : renderNestedStructs backend nestedStructs = .ok defs) : ∀ def' ∈ defs,∃ nested ∈ nestedStructs,
      def'.name = nested.name ∧ backend.generateNestedStructDef nested = .ok (some def'.code) := by
  unfold renderNestedStructs at done
  obtain ⟨rendered,each,last⟩ := Register.bind_ok done
  cases last
  intro def' member
  obtain ⟨item,inside,made⟩ := List.mem_filterMap.mp member
  obtain ⟨code,is,rfl⟩ := Option.map_eq_some_iff.mp made
  obtain ⟨nested,among,step⟩ := Register.mapM_mem each item inside
  obtain ⟨text,generated,last⟩ := Register.bind_ok step
  cases last
  refine ⟨nested,among,rfl,?_⟩
  rw [generated,show text = some code from is]

theorem generateCode_nested {overrides : List TypeOverride} {names : List String} {analyzed : AnalyzedQuery}
    {code : GeneratedCode} (done : generateCode backend overrides names analyzed = .ok code) :
    renderNestedStructs backend analyzed.nestedStructs = .ok code.nestedStructDefs := by
  unfold generateCode at done
  obtain ⟨defs,nested,rest⟩ := Register.bind_ok done
  obtain ⟨columns,-,rest⟩ := Register.bind_ok rest
  obtain ⟨params,-,rest⟩ := Register.bind_ok rest
  obtain ⟨enums,-,rest⟩ := Register.bind_ok rest
  obtain ⟨own,-,rest⟩ := Register.bind_ok rest
  obtain ⟨composites,-,rest⟩ := Register.bind_ok rest
  dsimp only at rest
  split at rest
  · obtain ⟨grouped,-,last⟩ := Register.bind_ok rest
    cases last
    exact nested
  · obtain ⟨queryFn,-,last⟩ := Register.bind_ok rest
    cases last
    exact nested

-- What an accepted file gives.
structure Accepted (backend : CodegenBackend Column Param) (overrides : List TypeOverride)
    (analyzedQueries : List AnalyzedQuery) (results : List QueryResult) : Prop where
  shapes : ∃ shapes,(analyzedQueries.flatMap (·.nestedStructs)).foldlM recordShape [] = .ok shapes
  aligned : results.length ≤ analyzedQueries.length
  checked : checkFileLevelTypeNameCollisions backend analyzedQueries results = .ok ()
  codes : ∃ names,∀ result ∈ results,∃ analyzed ∈ analyzedQueries,
    generateCode backend overrides names analyzed = .ok result.code

theorem accepted_of_generated {overrides : List TypeOverride} {analyzedQueries : List AnalyzedQuery}
    (generated : generateForBackend backend overrides analyzedQueries = .ok results) :
    Accepted backend overrides analyzedQueries results := by
  unfold generateForBackend at generated
  obtain ⟨shapes,shaped,rest⟩ := Register.bind_ok generated
  obtain ⟨initialCodes,initial,rest⟩ := Register.bind_ok rest
  obtain ⟨codes,coded,rest⟩ := Register.bind_ok rest
  obtain ⟨_,checked,last⟩ := Register.bind_ok rest
  cases last
  have made : ∃ names,analyzedQueries.mapM (generateCode backend overrides names) = .ok codes := by
    unfold promotedCodes at coded
    dsimp only at coded
    split at coded
    · cases coded
      exact ⟨_,initial⟩
    · exact ⟨_,coded⟩
  obtain ⟨names,each⟩ := made
  refine ⟨⟨shapes,shaped⟩,?_,checked,names,?_⟩
  · rw [List.length_map,List.length_zip]
    exact Nat.min_le_left _ _
  · intro result member
    obtain ⟨pair,paired,rfl⟩ := List.mem_map.mp member
    obtain ⟨analyzed,among,is⟩ := Register.mapM_mem each pair.2 (List.of_mem_zip paired).2
    exact ⟨analyzed,among,is⟩

theorem accepted_nested {overrides : List TypeOverride} {analyzedQueries : List AnalyzedQuery}
    (accepted : Accepted backend overrides analyzedQueries results) :
    ∀ def' ∈ results.flatMap (·.code.nestedStructDefs),∀ other ∈ results.flatMap (·.code.nestedStructDefs),
      def'.name = other.name → nestedDefinition def' = nestedDefinition other := by
  obtain ⟨shapes,shaped⟩ := accepted.shapes
  obtain ⟨names,codes⟩ := accepted.codes
  have source : ∀ def' ∈ results.flatMap (·.code.nestedStructDefs),
      ∃ nested ∈ analyzedQueries.flatMap (·.nestedStructs),def'.name = nested.name ∧
        backend.generateNestedStructDef nested = .ok (some def'.code) := by
    intro def' member
    obtain ⟨result,among,inside⟩ := List.mem_flatMap.mp member
    obtain ⟨analyzed,given,coded⟩ := codes result among
    obtain ⟨nested,held,named,rendered⟩ := renderNestedStructs_ok (generateCode_nested coded) def' inside
    exact ⟨nested,List.mem_flatMap.mpr ⟨analyzed,given,held⟩,named,rendered⟩
  intro def' member other inside same
  obtain ⟨nested,among,named,rendered⟩ := source def' member
  obtain ⟨nested',among',named',rendered'⟩ := source other inside
  have equal := accepted_shapes shaped nested among nested' among' (named.symm.trans (same.trans named'))
  rw [equal,rendered'] at rendered
  have code : def'.code = other.code := by
    simpa only [Except.ok.injEq,Option.some.injEq,eq_comm] using rendered
  unfold nestedDefinition
  rw [same,code]

-- Every identity of an accepted file is kept, with its text.
theorem definitions_taken {overrides : List TypeOverride} {analyzedQueries : List AnalyzedQuery}
    (accepted : Accepted backend overrides analyzedQueries results) (language : TargetLanguage) :
    Merge.Taken (pieces language (definitions backend results)) (pieces language (keptDefinitions backend results)) := by
  have same : ∀ definition,definition ∈ keptDefinitions backend results ↔ definition ∈ definitions backend results := by
    intro definition
    unfold keptDefinitions definitions
    simp only [List.mem_append]
    refine or_congr (or_congr (or_congr ?_ ?_) ?_) Iff.rfl
    · rw [List.mem_filterMap,List.mem_filterMap]
      exact firstOfEach_images (accepted_enums accepted.aligned accepted.checked) (some definition)
    · rw [List.mem_map,List.mem_map]
      exact firstOfEach_images (accepted_nested accepted) definition
    · rw [List.mem_map,List.mem_map]
      exact firstOfEach_images (fun _ _ _ _ same => congrArg modelDefinition same) definition
  constructor
  · unfold pieces
    rw [List.map_map]
    exact keptDefinitions_distinct results
  · intro piece
    unfold pieces
    simp only [List.mem_map,same]

omit [CaseMap] in
theorem structsAndFns_parts (withModels withFns : Bool) (results : List QueryResult) (seen : List String) :
    (structsAndFns withModels withFns seen results).Perm
      ((if withModels then firstOfEach id seen (results.filterMap (·.code.modelStruct)) else []) ++
        results.filterMap (·.code.rowStruct) ++ if withFns then results.filterMap (·.code.queryFn) else []) := by
  induction results generalizing seen with
  | nil => cases withModels <;> cases withFns <;> exact List.Perm.refl _
  | cons result results ih =>
    rw [List.perm_iff_count]
    intro part
    have rest := fun seen => List.perm_iff_count.mp (ih seen) part
    unfold structsAndFns
    dsimp only
    simp only [List.count_append] at rest ⊢
    rw [rest]
    have models : ∀ seen,(if withModels then firstOfEach id seen ((result :: results).filterMap (·.code.modelStruct)) else []) =
        (if withModels then result.code.modelStruct.toList.filter (· ∉ seen) else []) ++
          if withModels then firstOfEach id ((if withModels then result.code.modelStruct.toList.filter (· ∉ seen) else []) ++ seen)
            (results.filterMap (·.code.modelStruct)) else [] := by
      intro seen
      cases withModels with
      | false => rfl
      | true =>
        cases is : result.code.modelStruct with
        | none => simp [is]
        | some text => by_cases known : text ∈ seen <;> simp [is,known,firstOfEach]
    have rows : (result :: results).filterMap (·.code.rowStruct) =
        result.code.rowStruct.toList ++ results.filterMap (·.code.rowStruct) := by
      cases is : result.code.rowStruct <;> simp [is]
    have fns : (if withFns then (result :: results).filterMap (·.code.queryFn) else []) =
        (if withFns then result.code.queryFn.toList else []) ++
          if withFns then results.filterMap (·.code.queryFn) else [] := by
      cases withFns with
      | false => rfl
      | true => cases is : result.code.queryFn <;> simp [is]
    rw [models,rows,fns]
    simp only [List.count_append]
    omega

omit [CaseMap] in
theorem keptDefinitions_texts (results : List QueryResult) : (keptDefinitions backend results).map Prod.snd =
    uniqueEnumDefs backend results ++ uniqueNestedDefs results ++
      firstOfEach id [] (results.filterMap (·.code.modelStruct)) ++ results.filterMap (·.code.rowStruct) ++
        results.filterMap (·.code.queryFn) := by
  unfold keptDefinitions rowsAndFns uniqueEnumDefs uniqueNestedDefs
  simp only [List.map_append,List.map_map,numbered_snd,List.append_assoc]
  have enums : ∀ infos : List EnumInfo,(infos.filterMap (enumDefinition backend results)).map Prod.snd =
      infos.filterMap fun info => (enumDef backend results info).toOption := by
    intro infos
    rw [List.map_filterMap]
    congr 1
    funext info
    unfold enumDefinition
    rw [Option.map_map]
    exact Option.map_id'
  have models : ∀ texts : List String,texts.map (Prod.snd ∘ modelDefinition) = texts := fun texts => List.map_id texts
  rw [enums,models]
  rfl

omit [CaseMap] in
-- The parts of the file are the frame and the definitions that are kept.
theorem outputParts_perm (backend : CodegenBackend Column Param) (results : List QueryResult) :
    (outputParts backend results).Perm (frameParts backend results ++ (keptDefinitions backend results).map Prod.snd) := by
  rw [keptDefinitions_texts,List.perm_iff_count]
  intro part
  have loop := fun withFns => List.perm_iff_count.mp (structsAndFns_parts (!pythonModelsFirst backend) withFns results []) part
  unfold outputParts frameParts
  dsimp only
  by_cases plain : backend.queryClassHeader = ""
  · have whole := loop true
    rw [if_pos rfl] at whole
    rw [if_pos plain,plain]
    cases first : pythonModelsFirst backend <;> rw [first] at whole <;>
      simp only [List.count_append,Bool.not_true,Bool.not_false,if_true,if_false,Bool.false_eq_true,written,
        List.count_nil] at whole ⊢ <;> omega
  · have structs := loop false
    rw [if_neg Bool.false_ne_true] at structs
    rw [if_neg plain]
    cases first : pythonModelsFirst backend <;> rw [first] at structs <;>
      simp only [List.count_append,Bool.not_true,Bool.not_false,if_true,if_false,Bool.false_eq_true,written,plain,
        List.count_nil] at structs ⊢ <;> omega

omit [CaseMap] in
theorem whole_joined {language : TargetLanguage} {parts : List String} (nonempty : parts ≠ [])
    (whole : ∀ part ∈ parts,language.Whole part) : language.Whole (join "\n\n" parts) ∧
      language.declares (join "\n\n" parts) = parts.flatMap language.declares := by
  induction parts with
  | nil => exact absurd rfl nonempty
  | cons part parts ih =>
    cases parts with
    | nil => exact ⟨whole part List.mem_cons_self,(List.append_nil _).symm⟩
    | cons next parts =>
      obtain ⟨rest,declared⟩ := ih (List.cons_ne_nil _ _) fun part member => whole part (List.mem_cons_of_mem _ member)
      have first := whole part List.mem_cons_self
      rw [List.flatMap_cons,← declared]
      exact ⟨language.whole_separated _ _ first rest,language.declares_separated _ _ first rest⟩

omit [CaseMap] in
-- What the file declares is what its frame and its kept definitions declare.
theorem assembleBody_count {language : TargetLanguage} (whole : ∀ part ∈ outputParts backend results,language.Whole part)
    (some' : outputParts backend results ≠ []) (declaration : Declaration) :
    (language.declares (assembleBody backend results)).count declaration =
      (Merge.names ((frameParts backend results).flatMap language.declares)
        (pieces language (keptDefinitions backend results))).count declaration := by
  obtain ⟨joined,declared⟩ := whole_joined some' whole
  unfold assembleBody Merge.names pieces
  dsimp only
  rw [if_neg some',language.declares_ended _ joined,declared]
  have parts := (outputParts_perm backend results).flatMap_right language.declares
  rw [parts.count_eq,List.flatMap_append,List.flatMap_map,List.flatMap_map]

theorem outputParts_nonempty {overrides : List TypeOverride} {analyzedQueries : List AnalyzedQuery}
    (accepted : Accepted backend overrides analyzedQueries results) (language : TargetLanguage)
    {definition : Identity × String} (member : definition ∈ definitions backend results) :
    outputParts backend results ≠ [] := by
  intro none
  have taken := definitions_taken accepted language
  have kept := (taken.same _).mpr (List.mem_map.mpr ⟨definition,member,rfl⟩)
  obtain ⟨same,inside,-⟩ := List.mem_map.mp kept
  have part := (outputParts_perm backend results).mem_iff.mpr (List.mem_append_right _ (List.mem_map_of_mem inside))
  rw [none] at part
  cases part

-- The names of the file are those of its frame and of the pieces that are kept.
theorem declaredOnce_names {language : TargetLanguage} {overrides : List TypeOverride}
    {analyzedQueries : List AnalyzedQuery} (accepted : Accepted backend overrides analyzedQueries results)
    (whole : ∀ part ∈ outputParts backend results,language.Whole part) :
    DeclaredOnce backend language results ↔ ∀ piece ∈ pieces language (definitions backend results),
      ∀ declaration ∈ piece.2,(Merge.names ((frameParts backend results).flatMap language.declares)
        (pieces language (keptDefinitions backend results))).count declaration = 1 := by
  unfold DeclaredOnce
  have counts : ∀ definition ∈ definitions backend results,∀ declaration,
      (language.declares (assembleBody backend results)).count declaration =
        (Merge.names ((frameParts backend results).flatMap language.declares)
          (pieces language (keptDefinitions backend results))).count declaration :=
    fun definition member => assembleBody_count whole (outputParts_nonempty accepted language member)
  constructor
  · intro once piece member declaration named
    obtain ⟨definition,among,rfl⟩ := List.mem_map.mp member
    rw [← counts definition among]
    exact once definition among declaration named
  · intro once definition among declaration named
    rw [counts definition among]
    exact once _ (List.mem_map.mpr ⟨definition,among,rfl⟩) declaration named

-- In an accepted file each name stands once exactly when the definitions that the
-- assembly keeps apart have no name in common.
theorem assembled_once_iff {language : TargetLanguage} {overrides : List TypeOverride}
    {analyzedQueries : List AnalyzedQuery}
    (generated : generateForBackend backend overrides analyzedQueries = .ok results)
    (whole : ∀ part ∈ outputParts backend results,language.Whole part) :
    DeclaredOnce backend language results ↔ NamesApart backend language results := by
  have accepted := accepted_of_generated generated
  have taken := definitions_taken accepted language
  exact (declaredOnce_names accepted whole).trans (Merge.declared_once_iff taken)

-- Model texts that differ in anything are both kept, with the names that they share.
theorem shared_name_doubled {language : TargetLanguage} {overrides : List TypeOverride}
    {analyzedQueries : List AnalyzedQuery}
    (generated : generateForBackend backend overrides analyzedQueries = .ok results)
    (whole : ∀ part ∈ outputParts backend results,language.Whole part) {text other : String}
    (first : text ∈ results.filterMap (·.code.modelStruct)) (second : other ∈ results.filterMap (·.code.modelStruct))
    (differ : text ≠ other) {declaration : Declaration} (declared : declaration ∈ language.declares text)
    (again : declaration ∈ language.declares other) : ¬DeclaredOnce backend language results := by
  have accepted := accepted_of_generated generated
  intro once
  have counted := (declaredOnce_names accepted whole).mp once
  have separate := (Merge.declared_once_iff (definitions_taken accepted language)).mp counted
  have piece : ∀ {text},text ∈ results.filterMap (·.code.modelStruct) →
      (Identity.model text,language.declares text) ∈ pieces language (definitions backend results) := by
    intro text member
    refine List.mem_map.mpr ⟨modelDefinition text,?_,rfl⟩
    unfold definitions
    exact List.mem_append_left _ (List.mem_append_right _ (List.mem_map_of_mem member))
  exact separate.apart _ (piece first) _ (piece second) (fun same => differ (Identity.model.inj same)) declaration
    declared again

omit [CaseMap] in
theorem pushSeparated_declares {language : TargetLanguage} {out text : String} (left : language.Whole out)
    (right : language.Whole text) : language.Whole (pushSeparated "\n\n" out text) ∧
      language.declares (pushSeparated "\n\n" out text) = language.declares out ++ language.declares text := by
  unfold pushSeparated
  split
  · rename_i empty
    rw [empty,language.declares_empty,String.empty_append]
    exact ⟨right,rfl⟩
  · exact ⟨language.whole_separated _ _ left right,language.declares_separated _ _ left right⟩

omit [CaseMap] in
theorem extraDefs_declares {language : TargetLanguage} {composites : List String}
    (whole : ∀ text ∈ composites,language.Whole text) : ∀ {out : String},language.Whole out →
      language.Whole (composites.foldl (pushSeparated "\n\n") out) ∧
        language.declares (composites.foldl (pushSeparated "\n\n") out) =
          language.declares out ++ composites.flatMap language.declares := by
  induction composites with
  | nil => exact fun holds => ⟨holds,(List.append_nil _).symm⟩
  | cons text composites ih =>
    intro out holds
    obtain ⟨next,declared⟩ := pushSeparated_declares holds (whole text List.mem_cons_self)
    obtain ⟨rest,all⟩ := ih (fun text member => whole text (List.mem_cons_of_mem _ member)) next
    rw [List.foldl_cons,all,declared,List.flatMap_cons,List.append_assoc]
    exact ⟨rest,rfl⟩

omit [CaseMap] in
theorem modelText_declares {language : TargetLanguage} {model : Option String} {composites : List String}
    (wholeModel : ∀ text ∈ model,language.Whole text) (whole : ∀ text ∈ composites,language.Whole text) {text : String}
    (is : modelText model composites = some text) :
    language.declares text = model.toList.flatMap language.declares ++ composites.flatMap language.declares := by
  obtain ⟨extra,declared⟩ := extraDefs_declares whole language.whole_empty
  rw [language.declares_empty,List.nil_append] at declared
  unfold modelText at is
  dsimp only at is
  split at is
  · rename_i empty
    rw [empty,language.declares_empty] at declared
    rw [is,← declared]
    simp
  · cases model with
    | none =>
      cases is
      exact declared
    | some existing =>
      cases is
      rw [language.declares_separated _ _ (wholeModel existing rfl) extra,declared]
      simp

-- A backend whose models and composites are whole texts.
structure Lexed (language : TargetLanguage) (backend : CodegenBackend Column Param) : Prop where
  model : ∀ {name columns text},backend.generateModelStruct name columns = .ok text → language.Whole text
  composite : ∀ {comp text},backend.generateCompositeDef comp = .ok text → language.Whole text
  nestedComposite : ∀ {comp text},backend.generateCompositeDefForNested comp = .ok text → language.Whole text

omit [CaseMap] in
theorem compositeDef_whole {language : TargetLanguage} (lexed : Lexed language backend) {analyzed : AnalyzedQuery}
    {names : List String} {comp : CompositeInfo} {text : String}
    (rendered : compositeDef backend analyzed names comp = .ok text) : language.Whole text := by
  unfold compositeDef at rendered
  dsimp only at rendered
  split at rendered
  · exact lexed.nestedComposite rendered
  · exact lexed.composite rendered

omit [CaseMap] in
theorem generateOwnStruct_whole {language : TargetLanguage} (lexed : Lexed language backend) {analyzed : AnalyzedQuery}
    {columns : List Column} {own : OwnStructs} (done : generateOwnStruct backend analyzed columns = .ok own) :
    ∀ text ∈ own.model,language.Whole text := by
  have rowOrModel : (if analyzed.columns = [] then .ok ⟨none,none⟩ else
      match analyzed.sourceTable with
      | some tableName => do pure ⟨some (← backend.generateModelStruct tableName columns),none⟩
      | none => do pure ⟨none,some (← backend.generateRowStruct analyzed.name columns)⟩ : Except String OwnStructs) =
        .ok own → ∀ text ∈ own.model,language.Whole text := by
    intro made text member
    split at made
    · cases made
      cases member
    · split at made
      · obtain ⟨model,rendered,last⟩ := Register.bind_ok made
        cases last
        cases member
        exact lexed.model rendered
      · obtain ⟨row,-,last⟩ := Register.bind_ok made
        cases last
        cases member
  unfold generateOwnStruct at done
  split at done
  · exact rowOrModel done
  · exact rowOrModel done
  · exact rowOrModel done
  · cases done
    intro text member
    cases member

-- The model text of a query declares what each of its composites declares.
theorem composite_in_model {language : TargetLanguage} (lexed : Lexed language backend) {overrides : List TypeOverride}
    {names : List String} {analyzed : AnalyzedQuery} {code : GeneratedCode}
    (done : generateCode backend overrides names analyzed = .ok code) {comp : CompositeInfo}
    (emitted : comp ∈ emittedComposites backend.nested analyzed) {definition : String}
    (rendered : compositeDef backend analyzed names comp = .ok definition) {declaration : Declaration}
    (declared : declaration ∈ language.declares definition) {text : String} (is : code.modelStruct = some text) :
    declaration ∈ language.declares text := by
  unfold generateCode at done
  obtain ⟨defs,-,rest⟩ := Register.bind_ok done
  obtain ⟨columns,-,rest⟩ := Register.bind_ok rest
  obtain ⟨params,-,rest⟩ := Register.bind_ok rest
  obtain ⟨enums,-,rest⟩ := Register.bind_ok rest
  obtain ⟨own,made,rest⟩ := Register.bind_ok rest
  obtain ⟨composites,each,rest⟩ := Register.bind_ok rest
  have model : modelText own.model composites = some text := by
    dsimp only at rest
    split at rest
    · obtain ⟨grouped,-,last⟩ := Register.bind_ok rest
      cases last
      exact is
    · obtain ⟨queryFn,-,last⟩ := Register.bind_ok rest
      cases last
      exact is
  have whole : ∀ text ∈ composites,language.Whole text := by
    intro text member
    obtain ⟨comp,-,source⟩ := Register.mapM_mem each text member
    exact compositeDef_whole lexed source
  rw [modelText_declares (generateOwnStruct_whole lexed made) whole model]
  obtain ⟨among,member,same⟩ := Register.mapM_image each emitted
  rw [rendered] at same
  cases same
  exact List.mem_append_right _ (List.mem_flatMap.mpr ⟨definition,member,declared⟩)

-- Queries that use one composite, and not the same composites, declare it twice.
theorem shared_composite_doubled {language : TargetLanguage} (lexed : Lexed language backend)
    {overrides : List TypeOverride} {analyzedQueries : List AnalyzedQuery}
    (generated : generateForBackend backend overrides analyzedQueries = .ok results)
    (whole : ∀ part ∈ outputParts backend results,language.Whole part) {names : List String}
    {analyzed other : AnalyzedQuery} {first second : QueryResult} (member : first ∈ results) (among : second ∈ results)
    (code : generateCode backend overrides names analyzed = .ok first.code)
    (otherCode : generateCode backend overrides names other = .ok second.code) {comp : CompositeInfo}
    (emitted : comp ∈ emittedComposites backend.nested analyzed)
    (again : comp ∈ emittedComposites backend.nested other) {definition otherDefinition : String}
    (rendered : compositeDef backend analyzed names comp = .ok definition)
    (otherRendered : compositeDef backend other names comp = .ok otherDefinition) {declaration : Declaration}
    (declared : declaration ∈ language.declares definition)
    (otherDeclared : declaration ∈ language.declares otherDefinition) {text otherText : String}
    (is : first.code.modelStruct = some text) (otherIs : second.code.modelStruct = some otherText)
    (differ : text ≠ otherText) : ¬DeclaredOnce backend language results :=
  shared_name_doubled generated whole (List.mem_filterMap.mpr ⟨first,member,is⟩)
    (List.mem_filterMap.mpr ⟨second,among,otherIs⟩) differ
    (composite_in_model lexed code emitted rendered declared is)
    (composite_in_model lexed otherCode again otherRendered otherDeclared otherIs)

end

section SharedComposite
local instance assembledCase : CaseMap := ascii

def rustWord (c : Char) : Bool := CaseMap.isAlphanumeric c || c = '_'

def declaredIn (line : List Char) (item : List Char × (String → Declaration)) : Option Declaration :=
  (item.1.isPrefixOf? line).map fun rest => item.2 (String.ofList (rest.takeWhile rustWord))

-- The items that stand at the start of a line.
def rustItems : List (List Char × (String → Declaration)) :=
  [("pub struct ".toList,.type),("pub enum ".toList,.type),("pub async fn ".toList,.function)]

def lineDeclares (line : List Char) : List Declaration := rustItems.filterMap (declaredIn line)

def rust : TargetLanguage where
  declares text := (splitChars '\n' text.toList).flatMap lineDeclares
  Whole _ := True
  whole_empty := trivial
  declares_empty := by decide
  whole_separated _ _ _ _ := trivial
  declares_separated a b _ _ := by
    have two : (a ++ "\n\n" ++ b).toList = a.toList ++ '\n' :: ([] ++ '\n' :: b.toList) := by
      simp only [String.toList_append,List.append_assoc]
      rfl
    rw [two,splitChars_append,splitChars_append,List.flatMap_append,List.flatMap_append]
    rfl
  declares_ended a _ := by
    have one : (a ++ "\n").toList = a.toList ++ '\n' :: [] := by
      rw [String.toList_append]
      rfl
    rw [one,splitChars_append,List.flatMap_append]
    exact List.append_nil _

def rustField (field : CompositeFieldInfo) : Except String String :=
  if field.neutralType = "int32" ∧ !field.nullable then .ok ("    pub " ++ toSnakeCase field.name ++ ": i32,\n")
  else .error "no type"

-- The backend for sqlx that writes no functions. Its manifest is read for columns
-- of 32-bit integers.
def sqlx : CodegenBackend AnalyzedColumn AnalyzedParam where
  naming := ⟨"PascalCase","snake_case","PascalCase","Row","snake_case",[],true⟩
  language := "rust"
  jsonArray := false
  columnName := AnalyzedColumn.name
  columnFieldName col := toSnakeCase col.name
  resolveColumns columns _ := .ok columns
  resolveParams params _ _ := .ok params
  generateRowStruct _ _ := .error "no rows"
  generateModelStruct _ _ := .error "no models"
  generateQueryFn _ _ _ _ := .ok ""
  generateGroupedStructs _ _ _ _ _ := .error "no groups"
  generateGroupedQueryFn _ := .error "no groups"
  generateEnumDef _ := .error "no enums"
  generateEnumDefForNested _ := .error "no enums"
  generateCompositeDef composite := do
    let fields ← composite.fields.mapM rustField
    let name := compositeTypeName ⟨"PascalCase","snake_case","PascalCase","Row","snake_case",[],true⟩ composite.sqlName
    pure ("#[derive(Debug, Clone, sqlx::Type)]\n#[sqlx(type_name = \"" ++ composite.sqlName ++ "\")]\npub struct " ++
      name ++ " \x7b\n" ++ join "" fields ++ "\x7d")
  generateCompositeDefForNested _ := .error "no nested structs"
  generateNestedStructDef _ := .ok none
  fileHeaderForResults _ :=
    "#![allow(dead_code, unused_imports, clippy::needless_question_mark, clippy::redundant_closure)]"
  queryClassHeader := ""
  fileFooter := ""
  postFooter := ""

def place : CompositeInfo := ⟨"place",[⟨"x","int32",false⟩]⟩
def extent : CompositeInfo := ⟨"extent",[⟨"width","int32",false⟩]⟩

def update (name sql : String) (composites : List CompositeInfo) : AnalyzedQuery :=
  { name := name,command := .exec,sql := sql,columns := []
    params := composites.mapIdx fun i comp => ⟨comp.sqlName,"composite::" ++ comp.sqlName,false,i + 1,some "shapes"⟩
    deprecated := none,sourceTable := none,composites := composites,enums := [],optionalParams := [],groupBy := none
    custom := [],nestedStructs := [] }

-- One query uses a composite of the other.
def updates : List AnalyzedQuery :=
  [update "MoveAndResize" "UPDATE shapes SET place = $1, extent = $2" [place,extent],
    update "Move" "UPDATE shapes SET place = $1" [place]]

def updateResults : List QueryResult := (generateForBackend sqlx [] updates).toOption.getD []

theorem updates_generated : generateForBackend sqlx [] updates = .ok updateResults := rfl

-- The check accepts both queries, and the file has the shared composite twice.
theorem sharedPlace_doubled : generateForBackend sqlx [] updates = .ok updateResults ∧
    ¬DeclaredOnce sqlx rust updateResults := by
  refine ⟨updates_generated,?_⟩
  have texts : ∃ text other,updateResults.filterMap (·.code.modelStruct) = [text,other] ∧ text ≠ other ∧
      .type "Place" ∈ rust.declares text ∧ .type "Place" ∈ rust.declares other := by
    refine ⟨_,_,rfl,?_,?_,?_⟩ <;> decide +kernel
  obtain ⟨text,other,are,differ,first,second⟩ := texts
  refine shared_name_doubled updates_generated (fun _ _ => trivial) ?_ ?_ differ first second
  · rw [are]
    exact List.mem_cons_self
  · rw [are]
    exact List.mem_cons_of_mem _ List.mem_cons_self

theorem updates_once_iff : DeclaredOnce sqlx rust updateResults ↔ NamesApart sqlx rust updateResults :=
  assembled_once_iff updates_generated fun _ _ => trivial

end SharedComposite

end Scythe.AssembledFile
