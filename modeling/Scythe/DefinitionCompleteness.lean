import Scythe.Fixtures
import Scythe.BackendCode
import Scythe.TypeClosure

-- Which composites and enums that a query names have a definition.
namespace Scythe
open Text Identifiers AssembledFile

-- The two copies of the container rule strip the same wrappers.
theorem unwrapWithin_eq (fuel : Nat) (neutral : String) : unwrapWithin fuel neutral = unwrapContainers.go fuel neutral := by
  induction fuel generalizing neutral with
  | zero => rfl
  | succ fuel ih =>
    unfold unwrapWithin unwrapContainers.go unwrapContainer
    cases (stripPrefix neutral "array<").bind fun rest => stripSuffix rest ">" with
    | some inner => exact ih (trim inner)
    | none =>
      cases (stripPrefix neutral "nullable<").bind fun rest => stripSuffix rest ">" with
      | some inner => exact ih (trim inner)
      | none => rfl

theorem unwrapNeutralContainers_eq (neutral : String) : unwrapNeutralContainers neutral = unwrapContainers neutral :=
  unwrapWithin_eq _ neutral

section
variable [CaseMap]

theorem mem_collectEnums {catalog : Catalog} {types : List String} {name : String} :
    name ∈ (collectEnums catalog types).map (·.sqlName) ↔
      (catalog.getEnum name).isSome ∧ ∃ neutral ∈ types,enumRef neutral = some name := by
  have sought : name ∈ Worklist.fresh [] (types.filterMap fun t => stripPrefix (unwrapNeutralContainers t) "enum::") ↔
      ∃ neutral ∈ types,enumRef neutral = some name := by
    rw [Worklist.mem_fresh,List.mem_filterMap]
    simp only [unwrapNeutralContainers_eq,List.not_mem_nil,not_false_eq_true,and_true]
    rfl
  rw [← sought,collectEnums,List.mem_map]
  constructor
  · intro collected
    obtain ⟨info,member,rfl⟩ := collected
    obtain ⟨found,queued,is⟩ := List.mem_filterMap.mp member
    obtain ⟨enum,registered,rfl⟩ := Option.map_eq_some_iff.mp is
    exact ⟨Option.isSome_of_eq_some registered,queued⟩
  · intro queued
    obtain ⟨registered,among⟩ := queued
    obtain ⟨enum,is⟩ := Option.isSome_iff_exists.mp registered
    exact ⟨⟨name,enum.values⟩,List.mem_filterMap.mpr ⟨name,among,by rw [enumInfo,is]; rfl⟩,rfl⟩

theorem collectEnums_nodup (catalog : Catalog) (types : List String) :
    ((collectEnums catalog types).map (·.sqlName)).Nodup := by
  rw [collectEnums,List.map_filterMap]
  refine (Worklist.fresh_nodup _ _).filterMap ?_
  intro name other found is isOther
  obtain ⟨info,of,rfl⟩ := Option.map_eq_some_iff.mp is
  obtain ⟨infoOther,ofOther,same⟩ := Option.map_eq_some_iff.mp isOther
  obtain ⟨enum,-,rfl⟩ := Option.map_eq_some_iff.mp of
  obtain ⟨enumOther,-,rfl⟩ := Option.map_eq_some_iff.mp ofOther
  exact same.symm

-- The names under which enums are rendered. Those of the nested structs come out of a
-- set; their order is that of the fields here.
def enumSources (backend : NestedBackend) (analyzed : AnalyzedQuery) : List String :=
  analyzed.columns.filterMap (fun col => enumRef col.neutralType) ++
    analyzed.params.filterMap (fun param => enumRef param.neutralType) ++
      (emittedNestedFields backend analyzed).filterMap fun field => enumRef field.neutralType

def renderedEnums (backend : NestedBackend) (analyzed : AnalyzedQuery) : List String :=
  firstOfEach id [] (enumSources backend analyzed)

def AnalyzedQuery.namedTypes (analyzed : AnalyzedQuery) : List String :=
  reachedTypes analyzed.columns analyzed.params analyzed.nestedStructs

-- The types of a query, and those of the fields of each composite that one of them
-- is, whatever containers are around it.
inductive Mentions (catalog : Catalog) (analyzed : AnalyzedQuery) : String → Prop where
  | own {neutral : String} (member : neutral ∈ analyzed.namedTypes) : Mentions catalog analyzed neutral
  | field {neutral name : String} {info : CompositeInfo} {field : CompositeFieldInfo}
      (outer : Mentions catalog analyzed neutral) (names : compositeRef neutral = some name)
      (registered : compositeInfo catalog name = some info) (member : field ∈ info.fields) :
      Mentions catalog analyzed field.neutralType

-- Each composite and each enum that is mentioned has one definition, and each such
-- enum is rendered.
structure DefinesMentioned (backend : NestedBackend) (catalog : Catalog) (analyzed : AnalyzedQuery) : Prop where
  composites : ∀ neutral name,Mentions catalog analyzed neutral → compositeRef neutral = some name →
    (analyzed.composites.map (·.sqlName)).count name = 1
  enums : ∀ neutral name,Mentions catalog analyzed neutral → enumRef neutral = some name →
    (analyzed.enums.map (·.sqlName)).count name = 1
  rendered : ∀ neutral name,Mentions catalog analyzed neutral → enumRef neutral = some name →
    (renderedEnums backend analyzed).count name = 1

-- A composite that is led to without any container around it.
def NamedOutright (catalog : Catalog) (types : List String) (name : String) : Prop :=
  ∃ root ∈ detectedNames types,Relation.ReflTransGen (fun a b => b ∈ fieldComposites catalog a) root name

-- What is mentioned is in the catalog, the composites are also named outright, and
-- the enums are also named by more than a composite's field.
structure MentionedPlainly (backend : NestedBackend) (catalog : Catalog) (analyzed : AnalyzedQuery) : Prop where
  composites : ∀ neutral name,Mentions catalog analyzed neutral → compositeRef neutral = some name →
    (catalog.getComposite name).isSome ∧ NamedOutright catalog analyzed.namedTypes name
  enums : ∀ neutral name,Mentions catalog analyzed neutral → enumRef neutral = some name →
    (catalog.getEnum name).isSome ∧ name ∈ enumSources backend analyzed

omit [CaseMap] in
theorem firstOfEach_fresh (seen names : List String) : firstOfEach id seen names = Worklist.fresh seen names := by
  induction names generalizing seen with
  | nil => rfl
  | cons name names ih =>
    rw [firstOfEach,Worklist.fresh,ih,ih]
    rfl

-- An enum that analysis has not collected is rendered without values.
def renderedInfo (analyzed : AnalyzedQuery) (name : String) : EnumInfo :=
  (analyzed.enums.find? fun info => info.sqlName = name).getD ⟨name,[]⟩

-- What is written is one definition for each rendered name, one under the other.
theorem enumDefs_rendered {Column Param : Type} {backend : CodegenBackend Column Param} {analyzed : AnalyzedQuery}
    {declared : Option String} {text : String}
    (done : generateEnumDefsViaBackend backend analyzed declared = .ok text) :
    ∃ definitions : List String,text = definitions.foldl (pushSeparated "\n") "" ∧
      List.Forall₂ (fun name definition =>
        generateSingleEnumDef backend (renderedInfo analyzed name) (name ∈ nestedEnumRefs backend analyzed) =
          .ok definition)
        (renderedEnums backend.nested analyzed) definitions := by
  have written (names : List String) (out : String) :
      names.foldlM (fun out sqlName => do
        let info := renderedInfo analyzed sqlName
        checkEnumVariantCollisions (info.values.map fun value => (value,enumVariantName backend.naming value)) sqlName
        let definition ← generateSingleEnumDef backend info (sqlName ∈ nestedEnumRefs backend analyzed)
        pure (pushSeparated "\n" out definition)) out = .ok text →
      ∃ definitions : List String,text = definitions.foldl (pushSeparated "\n") out ∧
        List.Forall₂ (fun name definition =>
          generateSingleEnumDef backend (renderedInfo analyzed name) (name ∈ nestedEnumRefs backend analyzed) =
            .ok definition) names definitions := by
    induction names generalizing out with
    | nil =>
      intro ended
      exact ⟨[],(Except.ok.inj ended).symm,.nil⟩
    | cons name names ih =>
      intro run
      rw [List.foldlM_cons] at run
      obtain ⟨next,first,rest⟩ := Register.bind_ok run
      obtain ⟨-,-,defined⟩ := Register.bind_ok first
      obtain ⟨definition,rendered,is⟩ := Register.bind_ok defined
      cases is
      obtain ⟨definitions,joined,each⟩ := ih _ rest
      exact ⟨definition :: definitions,joined,.cons rendered each⟩
  unfold generateEnumDefsViaBackend at done
  obtain ⟨-,-,run⟩ := Register.bind_ok done
  exact written _ "" run

theorem mem_collected {catalog : Catalog} {types : List String} {name : String} :
    name ∈ (collectComposites catalog types).map (·.sqlName) ↔
      (catalog.getComposite name).isSome ∧ NamedOutright catalog types name := by
  rw [List.mem_map]
  constructor
  · intro collected
    obtain ⟨info,member,rfl⟩ := collected
    obtain ⟨registered,outright⟩ := mem_collectComposites.mp member
    obtain ⟨comp,is,-⟩ := Option.map_eq_some_iff.mp registered
    exact ⟨Option.isSome_of_eq_some is,outright⟩
  · intro named
    obtain ⟨registered,outright⟩ := named
    obtain ⟨comp,is⟩ := Option.isSome_iff_exists.mp registered
    refine ⟨⟨name,comp.fields.map (compositeFieldInfo catalog)⟩,mem_collectComposites.mpr ⟨?_,outright⟩,rfl⟩
    rw [compositeInfo,is]
    rfl

omit [CaseMap] in
theorem enumSources_named {backend : NestedBackend} {analyzed : AnalyzedQuery} {name : String}
    (source : name ∈ enumSources backend analyzed) : ∃ neutral ∈ analyzed.namedTypes,enumRef neutral = some name := by
  unfold AnalyzedQuery.namedTypes reachedTypes
  simp only [List.mem_append,List.mem_map]
  rcases List.mem_append.mp source with outer | nested
  · rcases List.mem_append.mp outer with column | param
    · obtain ⟨col,member,is⟩ := List.mem_filterMap.mp column
      exact ⟨col.neutralType,.inl (.inl ⟨col,member,rfl⟩),is⟩
    · obtain ⟨param,member,is⟩ := List.mem_filterMap.mp param
      exact ⟨param.neutralType,.inl (.inr ⟨param,member,rfl⟩),is⟩
  · obtain ⟨field,member,is⟩ := List.mem_filterMap.mp nested
    obtain ⟨nestedStruct,built,inside⟩ := List.mem_flatMap.mp member
    refine ⟨field.neutralType,.inr ?_,is⟩
    exact List.mem_flatMap.mpr ⟨nestedStruct,(List.mem_filter.mp built).1,List.mem_map.mpr ⟨field,inside,rfl⟩⟩

theorem finish_collected {catalog : Catalog} {query : ParsedQuery} {columns : List AnalyzedColumn} {self : Analyzer}
    {analyzed : AnalyzedQuery} (finished : finish catalog query columns self = .ok analyzed) :
    analyzed.composites = collectComposites catalog analyzed.namedTypes ∧
      analyzed.enums = collectEnums catalog (analyzed.namedTypes ++ compositeFieldTypes analyzed.composites) := by
  unfold finish at finished
  split at finished
  · cases finished
  · simp only [bind,Except.bind] at finished
    split at finished
    · cases finished
    · split at finished
      · cases finished
      · split at finished
        · cases finished
        · cases finished
          exact ⟨rfl,rfl⟩

theorem definitions_complete_iff [Printer] (backend : NestedBackend) {catalog : Catalog} {query : ParsedQuery}
    {analyzed : AnalyzedQuery} (is : analyze catalog query = some (.ok analyzed)) :
    DefinesMentioned backend catalog analyzed ↔ MentionedPlainly backend catalog analyzed := by
  obtain ⟨columns,self,-,finished⟩ := analyze_finished is
  obtain ⟨composites,enums⟩ := finish_collected finished
  constructor
  · intro defines
    constructor
    · intro neutral name mentions names
      have once := defines.composites neutral name mentions names
      rw [composites] at once
      exact mem_collected.mp (List.count_pos_iff.mp (Nat.lt_of_lt_of_eq Nat.one_pos once.symm))
    · intro neutral name mentions names
      have once := defines.enums neutral name mentions names
      have rendered := defines.rendered neutral name mentions names
      rw [enums] at once
      have collected := mem_collectEnums.mp (List.count_pos_iff.mp (Nat.lt_of_lt_of_eq Nat.one_pos once.symm))
      rw [renderedEnums,firstOfEach_fresh] at rendered
      have source := Worklist.mem_fresh.mp (List.count_pos_iff.mp (Nat.lt_of_lt_of_eq Nat.one_pos rendered.symm))
      exact ⟨collected.1,source.1⟩
  · intro plain
    constructor
    · intro neutral name mentions names
      rw [composites]
      exact List.count_eq_one_of_mem (collectComposites_nodup _ _)
        (mem_collected.mpr (plain.composites neutral name mentions names))
    · intro neutral name mentions names
      obtain ⟨registered,source⟩ := plain.enums neutral name mentions names
      obtain ⟨named,member,same⟩ := enumSources_named source
      rw [enums]
      exact List.count_eq_one_of_mem (collectEnums_nodup _ _)
        (mem_collectEnums.mpr ⟨registered,named,List.mem_append_left _ member,same⟩)
    · intro neutral name mentions names
      obtain ⟨-,source⟩ := plain.enums neutral name mentions names
      rw [renderedEnums,firstOfEach_fresh]
      exact List.count_eq_one_of_mem (Worklist.fresh_nodup _ _) (Worklist.mem_fresh.mpr ⟨source,List.not_mem_nil⟩)

end

section ArrayedComposite
open Fixtures
local instance definitionsCase : CaseMap := ascii
local instance definitionsPrinter : Printer := printer

-- A table whose one column is an array of a composite.
def arrayedCatalog : Catalog :=
  {Catalog.new .postgreSQL with
    tables:=(∅ : AHashMap Table).insert "routes" ⟨[⟨"stops","stop[]",true,none,false⟩],"routes"⟩
    composites:=(∅ : AHashMap CompositeType).insert "stop" ⟨[⟨"town","text",true⟩]⟩}

def arrayedQuery : ParsedQuery := parsed "SELECT stops FROM routes" <| .query <| ofBody <|
  select [column "stops"] [source (table "routes")] none

def buildsNothing : NestedBackend := ⟨fun _ => false,false⟩

theorem arrayed_run : (analyze arrayedCatalog arrayedQuery).bind (fun outcome => outcome.toOption.map fun analyzed =>
    (analyzed.columns.map (·.neutralType),analyzed.composites)) = some (["array<composite::stop>"],[]) := rfl

theorem arrayed_analyzed : ∃ analyzed,analyze arrayedCatalog arrayedQuery = some (.ok analyzed) ∧
    analyzed.columns.map (·.neutralType) = ["array<composite::stop>"] ∧ analyzed.composites = [] := by
  obtain ⟨outcome,is,ended⟩ := Option.bind_eq_some_iff.mp arrayed_run
  cases outcome with
  | error failure => cases ended
  | ok analyzed => exact ⟨analyzed,is,Prod.mk.inj (Option.some.inj ended)⟩

theorem arrayed_undefined : ∃ analyzed,analyze arrayedCatalog arrayedQuery = some (.ok analyzed) ∧
    ¬DefinesMentioned buildsNothing arrayedCatalog analyzed := by
  obtain ⟨analyzed,is,columns,composites⟩ := arrayed_analyzed
  refine ⟨analyzed,is,fun defines => ?_⟩
  have mentioned : "array<composite::stop>" ∈ analyzed.namedTypes := by
    unfold AnalyzedQuery.namedTypes reachedTypes
    rw [columns]
    exact List.mem_cons_self
  have once := defines.composites _ "stop" (.own mentioned) (by decide)
  rw [composites] at once
  cases once

theorem arrayed_defined_iff : ∃ analyzed,DefinesMentioned buildsNothing arrayedCatalog analyzed ↔
    MentionedPlainly buildsNothing arrayedCatalog analyzed := by
  obtain ⟨analyzed,is,-⟩ := arrayed_analyzed
  exact ⟨analyzed,definitions_complete_iff buildsNothing is⟩

end ArrayedComposite

end Scythe
