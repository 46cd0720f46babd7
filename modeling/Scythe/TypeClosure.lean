import Scythe.Lib.Worklist
import Scythe.Identifiers
import Scythe.Overrides

-- The type declarations of one output file and the types that it names.
namespace Scythe
open Text

-- One container around a type.
def unwrapContainer (neutral : String) : Option String :=
  match (stripPrefix neutral "array<").bind fun rest => stripSuffix rest ">" with
  | some inner => some (trim inner)
  | none => ((stripPrefix neutral "nullable<").bind fun rest => stripSuffix rest ">").map trim

-- No type has more containers than characters.
def unwrapContainers (neutral : String) : String := go neutral.toList.length neutral
where
  go : Nat → String → String
    | 0,neutral => neutral
    | rounds + 1,neutral =>
      match unwrapContainer neutral with
      | some inner => go rounds inner
      | none => neutral

structure NestedColumnShape where
  isArray : Bool
  elementNullable : Bool
  name : String
  deriving DecidableEq,Repr

def nestedStructShape (neutralType : String) : Option NestedColumnShape :=
  ((stripPrefix neutralType "json_nested<").bind fun rest => stripSuffix rest ">").map fun inner =>
    match (stripPrefix inner "array<").bind fun rest => stripSuffix rest ">" with
    | none => ⟨false,false,inner⟩
    | some element =>
      match (stripPrefix element "nullable<").bind fun rest => stripSuffix rest ">" with
      | some name => ⟨true,true,name⟩
      | none => ⟨true,false,element⟩

inductive TypeRef where
  | enum (sqlName : String)
  | composite (sqlName : String)
  | nested (name : String)
  deriving DecidableEq,Repr

-- The generated type that a neutral type names, if it names one.
def typeRef (neutral : String) : Option TypeRef :=
  let inner := unwrapContainers neutral
  match stripPrefix inner "enum::" with
  | some sqlName => some (.enum sqlName)
  | none =>
    match stripPrefix inner "composite::" with
    | some sqlName => some (.composite sqlName)
    | none => (nestedStructShape inner).map fun shape => .nested shape.name

def enumRef (neutral : String) : Option String := stripPrefix (unwrapContainers neutral) "enum::"
def compositeRef (neutral : String) : Option String := stripPrefix (unwrapContainers neutral) "composite::"

-- What a backend decides: the nested structs that it builds, and whether its types
-- have a marker for a document that is an array.
structure NestedBackend where
  builds : NestedStructInfo → Bool
  jsonArray : Bool

section
variable [CaseMap] (backend : NestedBackend)

def degradeUnsupportedNestedStructs (columns : List AnalyzedColumn) (nestedStructs : List NestedStructInfo) :
    List AnalyzedColumn × List NestedStructInfo :=
  let unsupported := (nestedStructs.filter fun nested => !backend.builds nested).map fun nested =>
    Identifiers.toPascalCase nested.name
  let degraded := columns.map fun col =>
    match nestedStructShape col.neutralType with
    | some shape =>
      if shape.name ∈ unsupported then
        { col with neutralType := if shape.isArray && backend.jsonArray then "json_array" else "json" }
      else col
    | none => col
  (degraded,nestedStructs.filter backend.builds)

-- The fields of the nested structs that have a definition.
def emittedNestedFields (analyzed : AnalyzedQuery) : List NestedFieldInfo :=
  let supported := analyzed.nestedStructs.filter backend.builds
  (analyzed.nestedStructs.filter fun nested => supported.any fun def' => def'.name = nested.name).flatMap (·.fields)

def typeReferencedByColumns (analyzed : AnalyzedQuery) (pre sqlName : String) : Bool :=
  let neutral := pre ++ sqlName
  analyzed.columns.any (fun col => unwrapContainers col.neutralType = neutral) ||
    analyzed.params.any fun param => unwrapContainers param.neutralType = neutral

def nestedTypeIsEmitted (analyzed : AnalyzedQuery) (pre sqlName : String) : Bool :=
  (emittedNestedFields backend analyzed).any fun field => unwrapContainers field.neutralType = pre ++ sqlName

-- The composites that the fields of a composite lead to.
def compositeFields (composites : List CompositeInfo) (name : String) : List String :=
  match composites.find? fun comp => comp.sqlName = name with
  | some comp => comp.fields.filterMap fun field => compositeRef field.neutralType
  | none => []

def compositeRoots (analyzed : AnalyzedQuery) : List String :=
  let nestedRefs := (emittedNestedFields backend analyzed).filterMap fun field => compositeRef field.neutralType
  (analyzed.composites.filter fun comp =>
    comp.sqlName ∈ nestedRefs || typeReferencedByColumns analyzed "composite::" comp.sqlName).map (·.sqlName)

-- The loop takes the last of the waiting names; each name brings its fields once,
-- so it ends within these rounds.
def reachableCompositeNames (analyzed : AnalyzedQuery) : Option (List String) :=
  let next := compositeFields analyzed.composites
  let worklist := (compositeRoots backend analyzed).reverse
  let rounds := worklist.length + Worklist.pending next (analyzed.composites.map (·.sqlName)) []
  Worklist.explore next rounds worklist []

end

structure DependencyWalk where
  emitted : List String
  visiting : List String
  ordered : List CompositeInfo

-- A composite comes after the ones that its fields name, and a cycle is cut where
-- it closes.
def visitComposite (byName : String → Option CompositeInfo) : Nat → CompositeInfo → DependencyWalk → DependencyWalk
  | 0,_,walk => walk
  | depth + 1,comp,walk =>
    if comp.sqlName ∈ walk.emitted ∨ comp.sqlName ∈ walk.visiting then walk else
    let entered := { walk with visiting := comp.sqlName :: walk.visiting }
    let deps := comp.fields.filterMap fun field => (compositeRef field.neutralType).bind byName
    let left := deps.foldl (fun walk dep => visitComposite byName depth dep walk) entered
    let closed : DependencyWalk := { left with visiting := left.visiting.erase comp.sqlName }
    if comp.sqlName ∈ closed.emitted then closed else
    { closed with emitted := comp.sqlName :: closed.emitted,ordered := closed.ordered ++ [comp] }

-- Names that are being visited differ, so no path is longer than the list.
def compositesInDependencyOrder (composites : List CompositeInfo) : List CompositeInfo :=
  let byName name := composites.reverse.find? fun comp => comp.sqlName = name
  (composites.foldl (fun walk comp => visitComposite byName (composites.length + 1) comp walk) ⟨[],[],[]⟩).ordered

-- The declarations in the code of one query, by the types that their members have.
structure GeneratedCode where
  structTypes : List String
  paramTypes : List String
  composites : List CompositeInfo
  nestedStructDefs : List NestedStructInfo

structure QueryResult where
  code : GeneratedCode
  enums : List EnumInfo

section
variable [CaseMap] (backend : NestedBackend) (overrides : List TypeOverride)

def structColumns (analyzed : AnalyzedQuery) : List AnalyzedColumn :=
  match analyzed.command with
  | .one | .opt | .many => analyzed.columns
  | .grouped => analyzed.groupBy.toList.flatMap fun group => group.parentColumns ++ group.childColumns
  | _ => []

def emittedComposites (analyzed : AnalyzedQuery) : List CompositeInfo :=
  let reachable := (reachableCompositeNames backend analyzed).getD []
  (compositesInDependencyOrder analyzed.composites).filter fun comp => comp.sqlName ∈ reachable

def generateWithBackendAndOverrides (analyzed : AnalyzedQuery) : GeneratedCode :=
  let columns := (degradeUnsupportedNestedStructs backend (structColumns analyzed) analyzed.nestedStructs).1
  { structTypes := columns.map (·.effectiveNeutralType overrides)
    paramTypes := analyzed.params.map (·.effectiveNeutralType overrides (analyzed.sourceTable.getD ""))
    composites := emittedComposites backend analyzed
    nestedStructDefs := analyzed.nestedStructs.filter backend.builds }

-- The enums that are declared for a query. Columns and parameters count with their
-- whole type.
def declaredEnums (analyzed : AnalyzedQuery) : List EnumInfo :=
  analyzed.enums.filter fun info =>
    nestedTypeIsEmitted backend analyzed "enum::" info.sqlName ||
      analyzed.columns.any (fun col => stripPrefix col.neutralType "enum::" = some info.sqlName) ||
        analyzed.params.any fun param => stripPrefix param.neutralType "enum::" = some info.sqlName

def generateForBackend (analyzedQueries : List AnalyzedQuery) : List QueryResult :=
  analyzedQueries.map fun analyzed =>
    ⟨generateWithBackendAndOverrides backend overrides analyzed,declaredEnums backend analyzed⟩

end

-- The first of each key.
def firstOfEach (key : α → String) (seen : List String) : List α → List α
  | [] => []
  | x :: xs => if key x ∈ seen then firstOfEach key seen xs else x :: firstOfEach key (key x :: seen) xs

section
variable [CaseMap]

-- Model structs are put together by their text, so each composite is in the file.
def assembledTypes (results : List QueryResult) : List TypeRef :=
  let uniqueEnumDefs := firstOfEach EnumInfo.sqlName [] (results.flatMap (·.enums))
  let uniqueNestedDefs := firstOfEach NestedStructInfo.name [] (results.flatMap (·.code.nestedStructDefs))
  uniqueEnumDefs.map (fun info => .enum info.sqlName) ++
    uniqueNestedDefs.map (fun nested => .nested (Identifiers.toPascalCase nested.name)) ++
      results.flatMap fun result => result.code.composites.map fun comp => .composite comp.sqlName

end

def GeneratedCode.memberTypes (code : GeneratedCode) : List String :=
  code.structTypes ++ code.paramTypes ++ code.composites.flatMap (fun comp => comp.fields.map (·.neutralType)) ++
    code.nestedStructDefs.flatMap fun nested => nested.fields.map (·.neutralType)

def usedTypes (results : List QueryResult) : List TypeRef :=
  results.flatMap fun result => result.code.memberTypes.filterMap typeRef

-- What the walk over the composites keeps: the names that it has emitted are those
-- of the ordered composites, which are some of the given ones.
structure Walked (composites : List CompositeInfo) (walk : DependencyWalk) : Prop where
  names : ∀ name,name ∈ walk.emitted ↔ ∃ comp ∈ walk.ordered,comp.sqlName = name
  given : ∀ comp ∈ walk.ordered,comp ∈ composites

section
variable {composites : List CompositeInfo} {byName : String → Option CompositeInfo}
  (found : ∀ name,∀ comp ∈ byName name,comp ∈ composites)
include found

theorem visit_walked (depth : Nat) : ∀ {comp : CompositeInfo} {walk : DependencyWalk},comp ∈ composites →
    Walked composites walk → Walked composites (visitComposite byName depth comp walk) := by
  induction depth with
  | zero => exact fun _ walked => walked
  | succ depth ih =>
    intro comp walk given walked
    unfold visitComposite
    split
    · exact walked
    · dsimp only
      have inner : Walked composites ((comp.fields.filterMap fun field =>
          (compositeRef field.neutralType).bind byName).foldl (fun walk dep => visitComposite byName depth dep walk)
            { walk with visiting := comp.sqlName :: walk.visiting }) := by
        refine List.foldlRecOn (motive := Walked composites) _ _ ⟨walked.names,walked.given⟩ ?_
        intro next holds dep member
        obtain ⟨field,_,is⟩ := List.mem_filterMap.mp member
        obtain ⟨name,_,dependency⟩ := Option.bind_eq_some_iff.mp is
        exact ih (found name dep dependency) holds
      split
      · exact ⟨inner.names,inner.given⟩
      · constructor
        · intro name
          simp only [List.mem_cons,List.mem_append,List.not_mem_nil,or_false]
          rw [inner.names]
          constructor
          · intro known
            rcases known with rfl | ⟨other,among,is⟩
            · exact ⟨comp,.inr rfl,rfl⟩
            · exact ⟨other,.inl among,is⟩
          · intro known
            obtain ⟨other,among | rfl,is⟩ := known
            · exact .inr ⟨other,among,is⟩
            · exact .inl is.symm
        · intro other member
          rcases List.mem_append.mp member with old | new
          · exact inner.given other old
          · rw [List.mem_singleton.mp new]
            exact given

end

section
variable (byName : String → Option CompositeInfo)

theorem visit_visiting (depth : Nat) : ∀ (comp : CompositeInfo) (walk : DependencyWalk),
    (visitComposite byName depth comp walk).visiting = walk.visiting := by
  induction depth with
  | zero => exact fun _ _ => rfl
  | succ depth ih =>
    intro comp walk
    unfold visitComposite
    split
    · rfl
    · dsimp only
      have inner : ((comp.fields.filterMap fun field =>
          (compositeRef field.neutralType).bind byName).foldl (fun walk dep => visitComposite byName depth dep walk)
            { walk with visiting := comp.sqlName :: walk.visiting }).visiting = comp.sqlName :: walk.visiting := by
        refine List.foldlRecOn (motive := fun next : DependencyWalk => next.visiting = comp.sqlName :: walk.visiting) _ _ rfl ?_
        intro next holds dep _
        rw [ih,holds]
      split
      · rw [inner,List.erase_cons_head]
      · rw [inner,List.erase_cons_head]

theorem visit_keeps (depth : Nat) {name : String} : ∀ {comp : CompositeInfo} {walk : DependencyWalk},
    name ∈ walk.emitted → name ∈ (visitComposite byName depth comp walk).emitted := by
  induction depth with
  | zero => exact fun known => known
  | succ depth ih =>
    intro comp walk known
    unfold visitComposite
    split
    · exact known
    · dsimp only
      have inner : name ∈ ((comp.fields.filterMap fun field =>
          (compositeRef field.neutralType).bind byName).foldl (fun walk dep => visitComposite byName depth dep walk)
            { walk with visiting := comp.sqlName :: walk.visiting }).emitted := by
        refine List.foldlRecOn (motive := fun next : DependencyWalk => name ∈ next.emitted) _ _ known ?_
        intro next holds dep _
        exact ih holds
      split
      · exact inner
      · exact List.mem_cons_of_mem _ inner

-- Where nothing is being visited, a visit emits its composite.
theorem visit_emits (depth : Nat) (comp : CompositeInfo) {walk : DependencyWalk} (idle : walk.visiting = []) :
    comp.sqlName ∈ (visitComposite byName (depth + 1) comp walk).emitted := by
  unfold visitComposite
  split
  · rename_i known
    rw [idle] at known
    exact known.resolve_right List.not_mem_nil
  · dsimp only
    split
    · rename_i known
      exact known
    · exact List.mem_cons_self

end

theorem dependencyOrder_walked (composites : List CompositeInfo) : ∃ emitted : List String,
    (∀ comp ∈ composites,comp.sqlName ∈ emitted) ∧
      (∀ name,name ∈ emitted ↔ ∃ comp ∈ compositesInDependencyOrder composites,comp.sqlName = name) ∧
        ∀ comp ∈ compositesInDependencyOrder composites,comp ∈ composites := by
  have emits : ∀ (byName : String → Option CompositeInfo) (depth : Nat) (rest : List CompositeInfo)
      (walk : DependencyWalk),walk.visiting = [] → ∀ comp ∈ rest,
        comp.sqlName ∈ (rest.foldl (fun walk comp => visitComposite byName (depth + 1) comp walk) walk).emitted := by
    intro byName depth rest
    induction rest with
    | nil =>
      intro walk idle comp member
      cases member
    | cons first rest ih =>
      intro walk idle comp member
      rw [List.foldl_cons]
      have idleAfter : (visitComposite byName (depth + 1) first walk).visiting = [] := by
        rw [visit_visiting,idle]
      rcases List.mem_cons.mp member with rfl | later
      · refine List.foldlRecOn (motive := fun next : DependencyWalk => comp.sqlName ∈ next.emitted) _ _
          (visit_emits byName depth comp idle) ?_
        intro next holds other _
        exact visit_keeps byName _ holds
      · exact ih _ idleAfter comp later
  let byName name := composites.reverse.find? fun comp => comp.sqlName = name
  have found : ∀ name,∀ comp ∈ byName name,comp ∈ composites :=
    fun name comp is => List.mem_reverse.mp (List.mem_of_find?_eq_some is)
  have walked : Walked composites (composites.foldl
      (fun walk comp => visitComposite byName (composites.length + 1) comp walk) ⟨[],[],[]⟩) := by
    refine List.foldlRecOn (motive := Walked composites) _ _ ?_ ?_
    · exact ⟨fun name => by simp,fun other none => absurd none List.not_mem_nil⟩
    · intro walk holds comp given
      exact visit_walked found _ given holds
  exact ⟨_,emits byName composites.length composites ⟨[],[],[]⟩ rfl,walked.names,walked.given⟩

theorem dependencyOrder_names {composites : List CompositeInfo} {comp : CompositeInfo} (member : comp ∈ composites) :
    ∃ ordered ∈ compositesInDependencyOrder composites,ordered.sqlName = comp.sqlName := by
  obtain ⟨emitted,all,names,-⟩ := dependencyOrder_walked composites
  exact (names _).mp (all comp member)

theorem dependencyOrder_given {composites : List CompositeInfo} {comp : CompositeInfo}
    (member : comp ∈ compositesInDependencyOrder composites) : comp ∈ composites := by
  obtain ⟨emitted,-,-,given⟩ := dependencyOrder_walked composites
  exact given comp member

section
variable [CaseMap] {backend : NestedBackend} {overrides : List TypeOverride} {analyzedQueries : List AnalyzedQuery}

omit [CaseMap] in
theorem reachable_found (analyzed : AnalyzedQuery) : (reachableCompositeNames backend analyzed).isSome := by
  apply Worklist.explore_isSome ?_ (Nat.le_refl _)
  intro name some'
  unfold compositeFields at some'
  split at some'
  · rename_i comp is
    have same := List.find?_some is
    rw [decide_eq_true_eq] at same
    exact List.mem_map.mpr ⟨comp,List.mem_of_find?_eq_some is,same⟩
  · exact absurd rfl some'

-- A composite is reached from a column, a parameter or a nested struct.
def Reaches (backend : NestedBackend) (analyzed : AnalyzedQuery) (sqlName : String) : Prop :=
  ∃ root ∈ compositeRoots backend analyzed,
    Relation.ReflTransGen (fun x y => y ∈ compositeFields analyzed.composites x) root sqlName

omit [CaseMap] in
theorem mem_reachable (analyzed : AnalyzedQuery) (sqlName : String) :
    sqlName ∈ (reachableCompositeNames backend analyzed).getD [] ↔ Reaches backend analyzed sqlName := by
  obtain ⟨reachable,is⟩ := Option.isSome_iff_exists.mp (reachable_found analyzed)
  rw [is,Option.getD_some]
  unfold reachableCompositeNames at is
  rw [Worklist.explore_iff is]
  unfold Reaches
  simp only [List.mem_reverse]

-- What a query makes the file declare.
def Declares (backend : NestedBackend) (analyzed : AnalyzedQuery) : TypeRef → Prop
  | .enum sqlName => (∃ info ∈ analyzed.enums,info.sqlName = sqlName) ∧
      (nestedTypeIsEmitted backend analyzed "enum::" sqlName ∨
        (∃ col ∈ analyzed.columns,stripPrefix col.neutralType "enum::" = some sqlName) ∨
          ∃ param ∈ analyzed.params,stripPrefix param.neutralType "enum::" = some sqlName)
  | .composite sqlName => (∃ comp ∈ analyzed.composites,comp.sqlName = sqlName) ∧ Reaches backend analyzed sqlName
  | .nested name => ∃ nested ∈ analyzed.nestedStructs,backend.builds nested ∧
      Identifiers.toPascalCase nested.name = name

omit [CaseMap] in
theorem firstOfEach_keys {α : Type} {key : α → String} {xs : List α} {seen : List String} (name : String) :
    (∃ x ∈ firstOfEach key seen xs,key x = name) ↔ (∃ x ∈ xs,key x = name) ∧ name ∉ seen := by
  induction xs generalizing seen with
  | nil => simp [firstOfEach]
  | cons x xs ih =>
    unfold firstOfEach
    split
    · rename_i known
      rw [ih]
      constructor
      · intro left
        obtain ⟨⟨y,member,is⟩,fresh⟩ := left
        exact ⟨⟨y,List.mem_cons_of_mem x member,is⟩,fresh⟩
      · intro right
        obtain ⟨⟨y,member,is⟩,fresh⟩ := right
        rcases List.mem_cons.mp member with rfl | later
        · exact absurd (is ▸ known) fresh
        · exact ⟨⟨y,later,is⟩,fresh⟩
    · rename_i unknown
      have others := @ih (key x :: seen)
      constructor
      · intro left
        obtain ⟨y,member,is⟩ := left
        rcases List.mem_cons.mp member with rfl | later
        · exact ⟨⟨y,List.mem_cons_self,is⟩,is ▸ unknown⟩
        · obtain ⟨⟨z,inside,same⟩,fresh⟩ := others.mp ⟨y,later,is⟩
          exact ⟨⟨z,List.mem_cons_of_mem x inside,same⟩,fun known => fresh (List.mem_cons_of_mem _ known)⟩
      · intro right
        obtain ⟨⟨y,member,is⟩,fresh⟩ := right
        by_cases same : key x = name
        · exact ⟨x,List.mem_cons_self,same⟩
        · rcases List.mem_cons.mp member with rfl | later
          · exact absurd is same
          · have new : name ∉ key x :: seen := by
              intro known
              rcases List.mem_cons.mp known with first | old
              · exact same first.symm
              · exact fresh old
            obtain ⟨z,inside,equal⟩ := others.mpr ⟨⟨y,later,is⟩,new⟩
            exact ⟨z,List.mem_cons_of_mem x inside,equal⟩

theorem enum_declared (analyzed : AnalyzedQuery) (sqlName : String) :
    (∃ info ∈ declaredEnums backend analyzed,info.sqlName = sqlName) ↔ Declares backend analyzed (.enum sqlName) := by
  unfold Declares declaredEnums
  simp only [List.mem_filter,Bool.or_eq_true,List.any_eq_true,decide_eq_true_eq]
  constructor
  · intro left
    obtain ⟨info,⟨member,used⟩,rfl⟩ := left
    exact ⟨⟨info,member,rfl⟩,or_assoc.mp used⟩
  · intro right
    obtain ⟨⟨info,member,rfl⟩,used⟩ := right
    exact ⟨info,⟨member,or_assoc.mpr used⟩,rfl⟩

theorem composite_declared (analyzed : AnalyzedQuery) (sqlName : String) :
    (∃ comp ∈ emittedComposites backend analyzed,comp.sqlName = sqlName) ↔
      Declares backend analyzed (.composite sqlName) := by
  unfold Declares emittedComposites
  simp only [List.mem_filter,decide_eq_true_eq,mem_reachable]
  constructor
  · intro left
    obtain ⟨comp,⟨member,reached⟩,rfl⟩ := left
    exact ⟨⟨comp,dependencyOrder_given member,rfl⟩,reached⟩
  · intro right
    obtain ⟨⟨comp,member,rfl⟩,reached⟩ := right
    obtain ⟨ordered,inside,same⟩ := dependencyOrder_names member
    rw [← same] at reached ⊢
    exact ⟨ordered,⟨inside,reached⟩,rfl⟩

theorem mem_assembled (t : TypeRef) : t ∈ assembledTypes (generateForBackend backend overrides analyzedQueries) ↔
    ∃ analyzed ∈ analyzedQueries,Declares backend analyzed t := by
  unfold assembledTypes generateForBackend
  simp only [List.mem_append,List.mem_map,List.flatMap_map,List.mem_flatMap]
  cases t with
  | enum sqlName =>
    simp only [TypeRef.enum.injEq,reduceCtorEq,and_false,exists_false,or_false,firstOfEach_keys,List.mem_flatMap,
      List.not_mem_nil,not_false_eq_true,and_true,← enum_declared]
    constructor
    · intro left
      obtain ⟨info,⟨analyzed,among,member⟩,is⟩ := left
      exact ⟨analyzed,among,info,member,is⟩
    · intro right
      obtain ⟨analyzed,among,info,member,is⟩ := right
      exact ⟨info,⟨analyzed,among,member⟩,is⟩
  | composite sqlName =>
    simp only [TypeRef.composite.injEq,reduceCtorEq,and_false,exists_false,false_or,← composite_declared]
    rfl
  | nested name =>
    simp only [TypeRef.nested.injEq,reduceCtorEq,and_false,exists_false,false_or,or_false]
    constructor
    · intro left
      obtain ⟨nested,member,is⟩ := left
      obtain ⟨⟨other,inside,same⟩,-⟩ := firstOfEach_keys nested.name |>.mp ⟨nested,member,rfl⟩
      obtain ⟨analyzed,among,built⟩ := List.mem_flatMap.mp inside
      obtain ⟨given,builds⟩ := List.mem_filter.mp built
      exact ⟨analyzed,among,other,given,builds,by rw [same,is]⟩
    · intro right
      obtain ⟨analyzed,among,nested,given,builds,is⟩ := right
      have inside : nested ∈ analyzedQueries.flatMap fun analyzed =>
          (generateWithBackendAndOverrides backend overrides analyzed).nestedStructDefs :=
        List.mem_flatMap.mpr ⟨analyzed,among,List.mem_filter.mpr ⟨given,builds⟩⟩
      obtain ⟨first,member,same⟩ := (firstOfEach_keys nested.name).mpr ⟨⟨nested,inside,rfl⟩,List.not_mem_nil⟩
      exact ⟨first,member,by rw [same,is]⟩

-- The names that the file gives to its types.
structure TypeNames where
  enumTypeName : String → String
  compositeTypeName : String → String

def TypeRef.typeName (names : TypeNames) : TypeRef → String
  | .enum sqlName => names.enumTypeName sqlName
  | .composite sqlName => names.compositeTypeName sqlName
  | .nested name => name

def TypesClosed (names : TypeNames) (results : List QueryResult) : Prop :=
  ∀ used ∈ usedTypes results,∃ declared ∈ assembledTypes results,declared.typeName names = used.typeName names

theorem type_closure_iff (backend : NestedBackend) (overrides : List TypeOverride) (names : TypeNames)
    (analyzedQueries : List AnalyzedQuery) :
    TypesClosed names (generateForBackend backend overrides analyzedQueries) ↔
      ∀ user ∈ analyzedQueries,
        ∀ used ∈ (generateWithBackendAndOverrides backend overrides user).memberTypes.filterMap typeRef,
          ∃ analyzed ∈ analyzedQueries,∃ declared,Declares backend analyzed declared ∧
            declared.typeName names = used.typeName names := by
  unfold TypesClosed usedTypes
  simp only [mem_assembled]
  unfold generateForBackend
  simp only [List.flatMap_map,List.mem_flatMap]
  constructor
  · intro closed user among used member
    obtain ⟨declared,⟨analyzed,inside,declares⟩,same⟩ := closed used ⟨user,among,member⟩
    exact ⟨analyzed,inside,declared,declares,same⟩
  · intro covered used user
    obtain ⟨user,among,member⟩ := user
    obtain ⟨analyzed,inside,declared,declares,same⟩ := covered user among used member
    exact ⟨declared,⟨analyzed,inside,declares⟩,same⟩

end

section ArrayedEnum
local instance closureCase : CaseMap := ascii

-- An array of an enum, and no column of the enum itself.
def arrayedEnum : AnalyzedQuery :=
  { name := "ListStatuses",command := .many,sql := "SELECT statuses FROM orders"
    columns := [⟨"statuses","array<enum::status>",false,none,false,"status[]",some "orders",false⟩]
    params := [],deprecated := none,sourceTable := none,composites := [],enums := [⟨"status",["open","closed"]⟩]
    optionalParams := [],groupBy := none,custom := [],nestedStructs := [] }

theorem arrayedEnum_undeclared :
    ¬TypesClosed ⟨toPascalCase,toPascalCase⟩ (generateForBackend ⟨fun _ => false,false⟩ [] [arrayedEnum]) := by
  have assembled : assembledTypes (generateForBackend ⟨fun _ => false,false⟩ [] [arrayedEnum]) = [] := rfl
  have used : .enum "status" ∈ usedTypes (generateForBackend ⟨fun _ => false,false⟩ [] [arrayedEnum]) := by
    decide +kernel
  intro closed
  obtain ⟨declared,member,-⟩ := closed _ used
  rw [assembled] at member
  cases member

end ArrayedEnum

end Scythe
