import Scythe.AssembledFile
import Scythe.Fixtures
import Mathlib.Logic.Relation

-- The columns whose nested struct a backend does not build, and what is said of them.
namespace Scythe.Degradation
open Text Identifiers AssembledFile

structure NestedStructDegradation where
  column : String
  structName : String
  fallbackType : String
  backend : String
  deriving DecidableEq,Repr

structure DegradedNestedStructs where
  columns : List AnalyzedColumn
  defs : List NestedStructDef
  degradations : List NestedStructDegradation

-- The columns that are resolved for a query, and what is kept beside their code.
structure NestedCode where
  allColumns : List AnalyzedColumn
  parentColumns : List AnalyzedColumn
  childColumns : List AnalyzedColumn
  nestedStructDefs : List NestedStructDef
  degradedNestedStructs : List NestedStructDegradation

section
variable [CaseMap] {Column Param : Type} (backendName : String) (backend : CodegenBackend Column Param)

def fallbackType (shape : NestedColumnShape) : String :=
  if shape.isArray && backend.jsonArray then "json_array" else "json"

def degradeColumn (unsupported : List String) (col : AnalyzedColumn) :
    AnalyzedColumn × Option NestedStructDegradation :=
  match nestedStructShape col.neutralType with
  | some shape =>
    if shape.name ∈ unsupported then
      ({col with neutralType:=fallbackType backend shape},
        some ⟨col.name,shape.name,fallbackType backend shape,backendName⟩)
    else (col,none)
  | none => (col,none)

def unsupportedNames (answers : List (NestedStructInfo × Option String)) : List String :=
  (answers.filter (·.2.isNone)).map fun answer => Identifiers.toPascalCase answer.1.name

def degradeUnsupportedNestedStructs (columns : List AnalyzedColumn) (nestedStructs : List NestedStructInfo) :
    Except String DegradedNestedStructs := do
  if nestedStructs = [] then return ⟨columns,[],[]⟩
  let answers ← nestedStructs.mapM fun nested => do
    let answer ← backend.generateNestedStructDef nested
    pure (nested,answer)
  let defs := answers.filterMap fun answer => answer.2.map fun code => ⟨answer.1.name,code⟩
  let unsupported := unsupportedNames answers
  if unsupported = [] then return ⟨columns,defs,[]⟩
  let degraded := columns.map (degradeColumn backendName backend unsupported)
  return ⟨degraded.map Prod.fst,defs,degraded.filterMap Prod.snd⟩

-- A grouped query splits its columns, and both parts are gone through again.
def generateNested (analyzed : AnalyzedQuery) : Except String NestedCode := do
  let flat ← degradeUnsupportedNestedStructs backendName backend analyzed.columns analyzed.nestedStructs
  if analyzed.command = .grouped then
    let groupBy ← match analyzed.groupBy with
      | some groupBy => pure groupBy
      | none => .error (internalError s!"query '{analyzed.name}' is :grouped but is missing @group_by annotation")
    let parent ← degradeUnsupportedNestedStructs backendName backend groupBy.parentColumns analyzed.nestedStructs
    let child ← degradeUnsupportedNestedStructs backendName backend groupBy.childColumns analyzed.nestedStructs
    return ⟨flat.columns,parent.columns,child.columns,flat.defs,
      flat.degradations ++ parent.degradations ++ child.degradations⟩
  else return ⟨flat.columns,[],[],flat.defs,flat.degradations⟩

end

-- The nested struct that a type names, inside its containers.
def nestedRef (neutralType : String) : Option String :=
  match typeRef neutralType with
  | some (.nested name) => some name
  | _ => none

def groupedColumns (analyzed : AnalyzedQuery) : List AnalyzedColumn :=
  if analyzed.command = .grouped then
    analyzed.groupBy.toList.flatMap fun group => group.parentColumns ++ group.childColumns
  else []

def passedColumns (analyzed : AnalyzedQuery) : List AnalyzedColumn := analyzed.columns ++ groupedColumns analyzed

-- The columns that the rows of the query's types have.
def outputColumns (analyzed : AnalyzedQuery) : List AnalyzedColumn :=
  if analyzed.command = .grouped then groupedColumns analyzed else analyzed.columns

namespace NestedCode

def columns (code : NestedCode) : List AnalyzedColumn := code.allColumns ++ (code.parentColumns ++ code.childColumns)

def outputColumns (code : NestedCode) (analyzed : AnalyzedQuery) : List AnalyzedColumn :=
  if analyzed.command = .grouped then code.parentColumns ++ code.childColumns else code.allColumns

def emittedNames [CaseMap] (code : NestedCode) : List String :=
  code.nestedStructDefs.map fun def' => Identifiers.toPascalCase def'.name

end NestedCode

-- What is to be said of a column that has lost its struct.
def recordOf (backendName : String) (before after : AnalyzedColumn) : NestedStructDegradation :=
  ⟨before.name,((nestedStructShape before.neutralType).map (·.name)).getD "",after.neutralType,backendName⟩

def rewrittenRecords (backendName : String) (before after : List AnalyzedColumn) : List NestedStructDegradation :=
  ((before.zip after).filter fun pair => pair.1 ≠ pair.2).map fun pair => recordOf backendName pair.1 pair.2

section
variable [CaseMap] {Column Param : Type} (backendName : String) (backend : CodegenBackend Column Param)

def supported (structs : List NestedStructInfo) : List String :=
  (structs.filter backend.nested.builds).map fun nested => Identifiers.toPascalCase nested.name

def unsupported (structs : List NestedStructInfo) : List String :=
  (structs.filter fun nested => !backend.nested.builds nested).map fun nested => Identifiers.toPascalCase nested.name

-- A struct that is built has a field of the other one.
def Mentions (structs : List NestedStructInfo) (name other : String) : Prop :=
  ∃ nested ∈ structs,backend.nested.builds nested = true ∧ Identifiers.toPascalCase nested.name = name ∧
    ∃ field ∈ nested.fields,nestedRef field.neutralType = some other

def ReachesUnsupported (structs : List NestedStructInfo) (col : AnalyzedColumn) : Prop :=
  ∃ name other,nestedRef col.neutralType = some name ∧ Relation.ReflTransGen (Mentions backend structs) name other ∧
    other ∈ unsupported backend structs

structure ClosedAndLocal (analyzed : AnalyzedQuery) (code : NestedCode) : Prop where
  closed : ∀ col ∈ code.columns,∀ name ∈ nestedRef col.neutralType,name ∈ code.emittedNames
  reached : ∀ name ∈ code.emittedNames,∀ other,
    Relation.ReflTransGen (Mentions backend analyzed.nestedStructs) name other → other ∈ code.emittedNames
  unchanged : List.Forall₂
    (fun before after => ¬ReachesUnsupported backend analyzed.nestedStructs before → after = before)
    (passedColumns analyzed) code.columns
  records : code.degradedNestedStructs.Perm
    (rewrittenRecords backendName (outputColumns analyzed) (code.outputColumns analyzed))

def Degradable (structs : List NestedStructInfo) (col : AnalyzedColumn) : Prop :=
  ∃ shape ∈ nestedStructShape col.neutralType,shape.name ∈ unsupported backend structs

structure WithinReach (analyzed : AnalyzedQuery) : Prop where
  columns : ∀ col ∈ passedColumns analyzed,∀ name ∈ nestedRef col.neutralType,
    name ∈ supported backend analyzed.nestedStructs ∨ Degradable backend analyzed.nestedStructs col
  fields : ∀ nested ∈ analyzed.nestedStructs,backend.nested.builds nested = true →
    ∀ field ∈ nested.fields,∀ name ∈ nestedRef field.neutralType,name ∈ supported backend analyzed.nestedStructs
  ungrouped : analyzed.command = .grouped → ∀ col ∈ analyzed.columns,¬Degradable backend analyzed.nestedStructs col

end

theorem nestedRef_shape {neutralType : String} {shape : NestedColumnShape}
    (is : nestedStructShape neutralType = some shape) : nestedRef neutralType = some shape.name := by
  obtain ⟨inner,cut,-⟩ := Option.map_eq_some_iff.mp is
  obtain ⟨rest,opened,-⟩ := Option.bind_eq_some_iff.mp cut
  obtain ⟨chars,front,-⟩ := Option.map_eq_some_iff.mp opened
  have text : "json_nested<".toList ++ chars = neutralType.toList := List.isPrefixOf?_eq_some_iff_append_eq.mp front
  have apart : ∀ (c : Char) (cs : List Char),c ≠ 'j' → (c :: cs).isPrefixOf? neutralType.toList = none := by
    intro c cs other
    rw [←text]
    change (if c == 'j' then _ else none) = none
    rw [if_neg (by simp [other])]
  have absent : ∀ word ∈ ["array<","nullable<","enum::","composite::"],stripPrefix neutralType word = none := by
    simp [stripPrefix,apart]
  have bare : ∀ rounds,unwrapContainers.go rounds neutralType = neutralType := by
    intro rounds
    cases rounds with
    | zero => rfl
    | succ rounds =>
      rw [unwrapContainers.go,unwrapContainer,absent "array<" (by decide),absent "nullable<" (by decide)]
      rfl
  rw [nestedRef,typeRef,unwrapContainers,bare,absent "enum::" (by decide),absent "composite::" (by decide),is]
  rfl

section
variable [CaseMap] {Column Param : Type} {backendName : String} {backend : CodegenBackend Column Param}
  {structs : List NestedStructInfo}

def answer (backend : CodegenBackend Column Param) (nested : NestedStructInfo) : Option String :=
  match backend.generateNestedStructDef nested with
  | .ok answer => answer
  | .error _ => none

def builtDefs (backend : CodegenBackend Column Param) (structs : List NestedStructInfo) : List NestedStructDef :=
  structs.filterMap fun nested => (answer backend nested).map fun code => ⟨nested.name,code⟩

omit [CaseMap] in
theorem builds_answer (nested : NestedStructInfo) : backend.nested.builds nested = (answer backend nested).isSome := by
  unfold CodegenBackend.nested answer
  dsimp only
  cases backend.generateNestedStructDef nested with
  | error => rfl
  | ok answer => cases answer <;> rfl

theorem builtDefs_names :
    (builtDefs backend structs).map (fun def' => Identifiers.toPascalCase def'.name) = supported backend structs := by
  unfold builtDefs supported
  induction structs with
  | nil => rfl
  | cons nested structs ih =>
    rw [List.filterMap_cons,List.filter_cons,builds_answer]
    cases answer backend nested with
    | none => exact ih
    | some code => exact congrArg _ ih

theorem unsupportedNames_answers :
    unsupportedNames (structs.map fun nested => (nested,answer backend nested)) = unsupported backend structs := by
  unfold unsupportedNames unsupported
  rw [List.filter_map,List.map_map]
  congr 2
  funext nested
  rw [builds_answer,Option.not_isSome]
  rfl

-- What the pass does to one column, whatever the others are.
variable (backendName) in
def degraded (backend : CodegenBackend Column Param) (structs : List NestedStructInfo) (col : AnalyzedColumn) :
    AnalyzedColumn × Option NestedStructDegradation :=
  degradeColumn backendName backend (unsupported backend structs) col

theorem degrade_ok {columns : List AnalyzedColumn} {result : DegradedNestedStructs}
    (done : degradeUnsupportedNestedStructs backendName backend columns structs = .ok result) :
    result.columns = columns.map (fun col => (degraded backendName backend structs col).1) ∧
      result.defs = builtDefs backend structs ∧
        result.degradations = columns.filterMap fun col => (degraded backendName backend structs col).2 := by
  have kept : unsupported backend structs = [] → ∀ col,degraded backendName backend structs col = (col,none) := by
    intro none col
    rw [degraded,none,degradeColumn]
    cases nestedStructShape col.neutralType <;> rfl
  have whole : unsupported backend structs = [] →
      columns = columns.map (fun col => (degraded backendName backend structs col).1) ∧
        [] = columns.filterMap fun col => (degraded backendName backend structs col).2 := by
    intro none
    simp [kept none]
  unfold degradeUnsupportedNestedStructs at done
  split at done
  · rename_i empty
    cases done
    subst empty
    exact ⟨(whole rfl).1,rfl,(whole rfl).2⟩
  · obtain ⟨answers,asked,rest⟩ := Register.bind_ok done
    have each := Register.mapM_ok (g := fun nested => (nested,answer backend nested)) (fun nested pair is => by
      obtain ⟨code,answered,last⟩ := Register.bind_ok is
      cases last
      rw [answer,answered]) asked
    subst each
    dsimp only at rest
    rw [unsupportedNames_answers] at rest
    have defs : (structs.map fun nested => (nested,answer backend nested)).filterMap
        (fun answer => answer.2.map fun code => (⟨answer.1.name,code⟩ : NestedStructDef)) = builtDefs backend structs :=
      List.filterMap_map ..
    split at rest
    · rename_i none
      cases rest
      exact ⟨(whole none).1,defs,(whole none).2⟩
    · cases rest
      refine ⟨?_,defs,?_⟩
      · exact List.map_map ..
      · exact List.filterMap_map ..

theorem degraded_column (columns : List AnalyzedColumn) :
    (Scythe.degradeUnsupportedNestedStructs backend.nested columns structs).1 =
      columns.map fun col => (degraded backendName backend structs col).1 := by
  unfold Scythe.degradeUnsupportedNestedStructs degraded degradeColumn unsupported
  dsimp only
  refine List.map_congr_left fun col _ => ?_
  cases nestedStructShape col.neutralType with
  | none => rfl
  | some shape =>
    dsimp only
    split
    · rfl
    · rfl

variable (backendName) in
theorem rendered_degrades {defs : List NestedStructDef} (rendered : renderNestedStructs backend structs = .ok defs)
    (columns : List AnalyzedColumn) :
    ∃ result,degradeUnsupportedNestedStructs backendName backend columns structs = .ok result ∧ result.defs = defs ∧
      result.columns = (Scythe.degradeUnsupportedNestedStructs backend.nested columns structs).1 := by
  unfold renderNestedStructs at rendered
  obtain ⟨items,each,last⟩ := Register.bind_ok rendered
  have given : ∀ nested ∈ structs,(do pure (nested,← backend.generateNestedStructDef nested)) =
      (.ok (nested,answer backend nested) : Except String (NestedStructInfo × Option String)) := by
    intro nested member
    obtain ⟨item,-,step⟩ := Register.mapM_image each member
    obtain ⟨text,made,-⟩ := Register.bind_ok step
    rw [answer,made]
    rfl
  have answered := Register.mapM_total given
  have total : ∃ result,degradeUnsupportedNestedStructs backendName backend columns structs = .ok result := by
    unfold degradeUnsupportedNestedStructs
    split
    · exact ⟨_,rfl⟩
    · rw [answered]
      dsimp only [bind,Except.bind]
      split
      · exact ⟨_,rfl⟩
      · exact ⟨_,rfl⟩
  obtain ⟨result,done⟩ := total
  obtain ⟨resultColumns,resultDefs,-⟩ := degrade_ok done
  refine ⟨result,done,?_,?_⟩
  · cases last
    have named := Register.mapM_ok (g := fun nested => (nested.name,answer backend nested)) (fun nested item step => by
      obtain ⟨text,made,last⟩ := Register.bind_ok step
      cases last
      rw [answer,made]) each
    rw [resultDefs,named,List.filterMap_map]
    rfl
  · rw [resultColumns,degraded_column]

-- A grouped query that has code has a split of its columns.
theorem grouped_given {overrides : List TypeOverride} {names : List String} {analyzed : AnalyzedQuery}
    {code : AssembledFile.GeneratedCode} (done : generateCode backend overrides names analyzed = .ok code)
    (grouped : analyzed.command = .grouped) : ∃ group,analyzed.groupBy = some group := by
  unfold generateCode at done
  obtain ⟨defs,-,rest⟩ := Register.bind_ok done
  obtain ⟨columns,-,rest⟩ := Register.bind_ok rest
  obtain ⟨params,-,rest⟩ := Register.bind_ok rest
  obtain ⟨enums,-,rest⟩ := Register.bind_ok rest
  obtain ⟨own,-,rest⟩ := Register.bind_ok rest
  obtain ⟨composites,-,rest⟩ := Register.bind_ok rest
  dsimp only at rest
  rw [if_pos grouped] at rest
  obtain ⟨texts,generated,-⟩ := Register.bind_ok rest
  unfold generateGrouped at generated
  cases given : analyzed.groupBy with
  | none =>
    rw [given] at generated
    cases generated
  | some group => exact ⟨group,rfl⟩

structure NestedPass (backendName : String) (backend : CodegenBackend Column Param) (analyzed : AnalyzedQuery)
    (code : NestedCode) : Prop where
  columns : code.columns =
    (passedColumns analyzed).map fun col => (degraded backendName backend analyzed.nestedStructs col).1
  output : code.outputColumns analyzed =
    (outputColumns analyzed).map fun col => (degraded backendName backend analyzed.nestedStructs col).1
  defs : code.nestedStructDefs = builtDefs backend analyzed.nestedStructs
  degradations : code.degradedNestedStructs =
    (passedColumns analyzed).filterMap fun col => (degraded backendName backend analyzed.nestedStructs col).2

theorem generateNested_ok {analyzed : AnalyzedQuery} {code : NestedCode}
    (done : generateNested backendName backend analyzed = .ok code) : NestedPass backendName backend analyzed code := by
  unfold generateNested at done
  obtain ⟨flat,flatDone,rest⟩ := Register.bind_ok done
  obtain ⟨flatColumns,flatDefs,flatRecords⟩ := degrade_ok flatDone
  split at rest
  · rename_i grouped
    cases given : analyzed.groupBy with
    | none =>
      rw [given] at rest
      cases rest
    | some group =>
      rw [given] at rest
      obtain ⟨groupBy,is,rest⟩ := Register.bind_ok rest
      cases is
      obtain ⟨parent,parentDone,rest⟩ := Register.bind_ok rest
      obtain ⟨parentColumns,-,parentRecords⟩ := degrade_ok parentDone
      obtain ⟨child,childDone,last⟩ := Register.bind_ok rest
      obtain ⟨childColumns,-,childRecords⟩ := degrade_ok childDone
      cases last
      have members : groupedColumns analyzed = group.parentColumns ++ group.childColumns := by
        rw [groupedColumns,if_pos grouped,given]
        exact List.append_nil _
      constructor
      · rw [NestedCode.columns,passedColumns,members,List.map_append,List.map_append,flatColumns,parentColumns,
          childColumns]
      · rw [NestedCode.outputColumns,if_pos grouped,outputColumns,if_pos grouped,members,List.map_append,parentColumns,
          childColumns]
      · exact flatDefs
      · rw [passedColumns,members,List.filterMap_append,List.filterMap_append,flatRecords,parentRecords,childRecords,
          List.append_assoc]
  · rename_i plain
    cases rest
    have members : groupedColumns analyzed = [] := by rw [groupedColumns,if_neg plain]
    constructor
    · rw [NestedCode.columns,passedColumns,members,flatColumns,List.append_nil,List.append_nil,List.append_nil]
    · rw [NestedCode.outputColumns,if_neg plain,outputColumns,if_neg plain,flatColumns]
    · exact flatDefs
    · rw [passedColumns,members,List.append_nil,flatRecords]

theorem degraded_unsupported {col : AnalyzedColumn} {shape : NestedColumnShape}
    (is : nestedStructShape col.neutralType = some shape) (lost : shape.name ∈ unsupported backend structs) :
    degraded backendName backend structs col = ({col with neutralType:=fallbackType backend shape},
      some ⟨col.name,shape.name,fallbackType backend shape,backendName⟩) := by
  rw [degraded,degradeColumn,is]
  exact if_pos lost

theorem degraded_kept {col : AnalyzedColumn} (kept : ¬Degradable backend structs col) :
    degraded backendName backend structs col = (col,none) := by
  rw [degraded,degradeColumn]
  cases is : nestedStructShape col.neutralType with
  | none => rfl
  | some shape => exact if_neg fun lost => kept ⟨shape,is,lost⟩

omit [CaseMap] in
theorem fallback_free (shape : NestedColumnShape) : nestedRef (fallbackType backend shape) = none := by
  unfold fallbackType
  split
  · rfl
  · rfl

theorem degradable_reaches {col : AnalyzedColumn} (degradable : Degradable backend structs col) :
    ReachesUnsupported backend structs col := by
  obtain ⟨shape,is,lost⟩ := degradable
  exact ⟨shape.name,shape.name,nestedRef_shape is,.refl,lost⟩

-- A column that is rewritten is another one afterwards, so comparing finds it.
theorem rewritten_records (columns : List AnalyzedColumn) :
    rewrittenRecords backendName columns (columns.map fun col => (degraded backendName backend structs col).1) =
      columns.filterMap fun col => (degraded backendName backend structs col).2 := by
  unfold rewrittenRecords
  induction columns with
  | nil => rfl
  | cons col columns ih =>
    rw [List.map_cons,List.zip_cons_cons,List.filterMap_cons]
    by_cases degradable : Degradable backend structs col
    · obtain ⟨shape,is,lost⟩ := degradable
      have differs : col ≠ {col with neutralType:=fallbackType backend shape} := by
        intro same
        have types : col.neutralType = fallbackType backend shape := congrArg AnalyzedColumn.neutralType same
        have named := nestedRef_shape is
        rw [types,fallback_free] at named
        exact Option.some_ne_none _ named.symm
      rw [degraded_unsupported is lost,List.filter_cons_of_pos (by simpa using differs),List.map_cons,ih,recordOf,is]
      rfl
    · rw [degraded_kept degradable,List.filter_cons_of_neg (by simp),ih]

theorem degraded_record (col : AnalyzedColumn) :
    (degraded backendName backend structs col).2 = none ↔ ¬Degradable backend structs col := by
  constructor
  · intro silent degradable
    obtain ⟨shape,is,lost⟩ := degradable
    rw [degraded_unsupported is lost] at silent
    exact Option.some_ne_none _ silent
  · intro kept
    rw [degraded_kept kept]

section
variable {analyzed : AnalyzedQuery} {code : NestedCode} (pass : NestedPass backendName backend analyzed code)
include pass

theorem emitted_supported : code.emittedNames = supported backend analyzed.nestedStructs := by
  rw [NestedCode.emittedNames,pass.defs,builtDefs_names]

theorem closed_iff : (∀ col ∈ code.columns,∀ name ∈ nestedRef col.neutralType,name ∈ code.emittedNames) ↔
    ∀ col ∈ passedColumns analyzed,∀ name ∈ nestedRef col.neutralType,
      name ∈ supported backend analyzed.nestedStructs ∨ Degradable backend analyzed.nestedStructs col := by
  rw [emitted_supported pass,pass.columns,List.forall_mem_map]
  refine forall₂_congr fun col _ => ?_
  by_cases degradable : Degradable backend analyzed.nestedStructs col
  · refine iff_of_true ?_ fun _ _ => .inr degradable
    obtain ⟨shape,is,lost⟩ := degradable
    rw [degraded_unsupported is lost]
    intro name named
    rw [fallback_free] at named
    cases named
  · rw [degraded_kept degradable]
    exact forall₂_congr fun name _ => (or_iff_left degradable).symm

theorem reached_iff : (∀ name ∈ code.emittedNames,∀ other,
    Relation.ReflTransGen (Mentions backend analyzed.nestedStructs) name other → other ∈ code.emittedNames) ↔
      ∀ nested ∈ analyzed.nestedStructs,backend.nested.builds nested = true →
        ∀ field ∈ nested.fields,∀ name ∈ nestedRef field.neutralType,
          name ∈ supported backend analyzed.nestedStructs := by
  rw [emitted_supported pass]
  constructor
  · intro reached nested given builds field member name named
    refine reached (Identifiers.toPascalCase nested.name) ?_ name (.single ⟨nested,given,builds,rfl,field,member,named⟩)
    exact List.mem_map.mpr ⟨nested,List.mem_filter.mpr ⟨given,builds⟩,rfl⟩
  · intro fields name emitted other path
    -- Each step of the path is a field of a struct that is built.
    induction path with
    | refl => exact emitted
    | tail _ step =>
      obtain ⟨nested,given,builds,-,field,member,named⟩ := step
      exact fields nested given builds field member _ named

theorem unchanged_kept :
    List.Forall₂ (fun before after => ¬ReachesUnsupported backend analyzed.nestedStructs before → after = before)
      (passedColumns analyzed) code.columns := by
  rw [pass.columns,List.forall₂_map_right_iff,List.forall₂_same]
  intro col _ apart
  rw [degraded_kept fun degradable => apart (degradable_reaches degradable)]

theorem records_iff : code.degradedNestedStructs.Perm
    (rewrittenRecords backendName (outputColumns analyzed) (code.outputColumns analyzed)) ↔
      (analyzed.command = .grouped → ∀ col ∈ analyzed.columns,¬Degradable backend analyzed.nestedStructs col) := by
  rw [pass.degradations,pass.output,rewritten_records,passedColumns,List.filterMap_append,outputColumns]
  by_cases grouped : analyzed.command = .grouped
  · rw [if_pos grouped,imp_iff_right grouped]
    calc _ ↔ analyzed.columns.filterMap (fun col => (degraded backendName backend analyzed.nestedStructs col).2) = [] :=
          (@List.perm_append_right_iff _ _ [] _).trans List.perm_nil
      _ ↔ _ := by
        rw [List.filterMap_eq_nil_iff]
        exact forall₂_congr fun col _ => degraded_record col
  · rw [if_neg grouped,groupedColumns,if_neg grouped,List.filterMap_nil,List.append_nil]
    exact iff_of_true (.refl _) fun is => absurd is grouped

end

-- The code of a query has these definitions, and its columns are resolved from these.
theorem generateCode_degrades {overrides : List TypeOverride} {names : List String} {analyzed : AnalyzedQuery}
    {code : AssembledFile.GeneratedCode} (done : generateCode backend overrides names analyzed = .ok code) :
    ∃ nested,generateNested backendName backend analyzed = .ok nested ∧
      nested.nestedStructDefs = code.nestedStructDefs ∧
        nested.allColumns = degradeColumns backend analyzed analyzed.columns ∧
          (analyzed.command = .grouped → ∀ group ∈ analyzed.groupBy,
            nested.parentColumns = degradeColumns backend analyzed group.parentColumns ∧
              nested.childColumns = degradeColumns backend analyzed group.childColumns) := by
  have degrades := rendered_degrades backendName (generateCode_nested done)
  obtain ⟨flat,flatDone,flatDefs,flatColumns⟩ := degrades analyzed.columns
  unfold generateNested
  rw [flatDone]
  by_cases grouped : analyzed.command = .grouped
  · obtain ⟨group,given⟩ := grouped_given done grouped
    obtain ⟨parent,parentDone,-,parentColumns⟩ := degrades group.parentColumns
    obtain ⟨child,childDone,-,childColumns⟩ := degrades group.childColumns
    rw [given]
    dsimp only [bind,Except.bind,pure,Except.pure]
    rw [if_pos grouped,parentDone]
    dsimp only
    rw [childDone]
    refine ⟨_,rfl,flatDefs,flatColumns,fun _ other is => ?_⟩
    cases is
    exact ⟨parentColumns,childColumns⟩
  · dsimp only [bind,Except.bind]
    rw [if_neg grouped]
    exact ⟨_,rfl,flatDefs,flatColumns,fun is => absurd is grouped⟩

end

section UserDocs
local instance degradedCase : CaseMap := ascii
local instance degradedPrinter : Printer := Fixtures.printer

open Fixtures

def docsOf (projection : List SelectItem) : Statement :=
  .query (ofBody (.select ⟨projection,[source (aliased "users" "u")],none,.expressions [],none,[]⟩))

def rowToJson : Expr := call "row_to_json" [column "u"]

-- A parent of its columns with a child of one document.
def userDocs : ParsedQuery :=
  { parsed "SELECT id, name, row_to_json(u) AS doc FROM users u"
      (docsOf [.unnamedExpr (column "id"),.unnamedExpr (column "name"),.exprWithAlias rowToJson (ident "doc")]) with
    command := .grouped,annotations := {Annotations.empty with groupBy:=some "users.id"} }

def docsArray : ParsedQuery :=
  parsed "SELECT array_agg(row_to_json(u)) AS docs FROM users u"
    (docsOf [.exprWithAlias (call "array_agg" [rowToJson]) (ident "docs")])

-- A backend that builds no nested struct and has no marker for arrays.
def npgsql : CodegenBackend AnalyzedColumn AnalyzedParam := {sqlx with language:="csharp"}

end UserDocs

end Scythe.Degradation
