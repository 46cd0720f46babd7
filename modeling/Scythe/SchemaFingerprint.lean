import Scythe.Fingerprint
import Scythe.Lib.Delimited

-- What a schema is, apart from the text that its fingerprint is taken of.
namespace Scythe.SchemaFingerprint
open Text Delimited

abbrev ColumnShape := String × String × Bool × Bool

-- What an inspected database reports besides.
inductive ObjectKind where
  | relation
  | enum
  | composite
  | domain
  deriving DecidableEq,Repr

def ObjectKind.tag : ObjectKind → String
  | .relation => "relation"
  | .enum => "enum"
  | .composite => "composite"
  | .domain => "domain"

inductive Report where
  | rawColumn (relation column rawType : String)
  | generated (relation column : String) (kind : GeneratedColumnKind)
  | objectName (kind : ObjectKind) (key : String) (schema : Option String) (name : String)
  | rawDomain (key rawType : String)
  deriving DecidableEq,Repr

-- Entries stand in the order of their names, so that the order in which they were
-- added is not part of it. One leading qualifier is dropped from the names of a
-- kind, unless two of them would then be the same.
structure Described where
  dialect : SqlDialect
  tables : List (String × List ColumnShape)
  enums : List (String × List String)
  composites : List (String × List CompositeField)
  domains : List (String × DomainDef)
  functions : Multiset (String × CatalogFunction)
  views : List String
  reports : List Report

def functionsOf (entries : List (String × List CatalogFunction)) : List (String × CatalogFunction) :=
  entries.flatMap fun entry => entry.2.map fun function => (entry.1,function)

def viewsOf (kinds : AHashMap RelationKind) : List String :=
  (sortedEntries kinds).filterMap fun (key,kind) => if kind = .view then some key else none

section
variable [CaseMap]

def rawColumnReports (catalog : Catalog) : List Report :=
  (sortedEntries catalog.rawColumnTypes).flatMap fun (relationKey,rawTypes) =>
    (sortedEntries rawTypes).filterMap fun (columnKey,rawType) =>
      (rawColumnTypeLine catalog relationKey columnKey rawType).map fun _ => .rawColumn relationKey columnKey rawType

def generatedReports (kinds : AHashMap (AHashMap GeneratedColumnKind)) : List Report :=
  (sortedEntries kinds).flatMap fun (relationKey,generatedKinds) =>
    (sortedEntries generatedKinds).map fun (columnKey,kind) => .generated relationKey columnKey kind

def nameReports (objectKind : ObjectKind) (names : AHashMap CatalogObjectName) : List Report :=
  (sortedEntries names).filterMap fun (key,name) =>
    if name.schema = none ∧ name.name = key then none else some (.objectName objectKind key name.schema name.name)

def rawDomainReports (catalog : InspectedCatalog) : List Report :=
  (sortedEntries catalog.rawDomainTypes).filterMap fun (key,rawType) =>
    let normalizedType := (catalog.domains.lookup key).map (·.baseType)
    if normalizedType.all fun resolved => !equivalentSqlType rawType resolved then some (.rawDomain key rawType)
    else none

def reports (catalog : InspectedCatalog) : List Report :=
  rawColumnReports catalog.toCatalog ++ generatedReports catalog.generatedColumnKinds ++
    nameReports .relation catalog.relationNames ++ nameReports .enum catalog.enumNames ++
    nameReports .composite catalog.compositeNames ++ nameReports .domain catalog.domainNames ++
    rawDomainReports catalog

def described (catalog : InspectedCatalog) : Described where
  dialect := catalog.dialect
  tables := canonicalEntries ((entriesOf catalog.tables).map (Prod.map id fun table => table.columns.map columnShape))
  enums := canonicalEntries ((entriesOf catalog.enums).map (Prod.map id (·.values)))
  composites := canonicalEntries ((entriesOf catalog.composites).map (Prod.map id (·.fields)))
  domains := canonicalEntries (entriesOf catalog.domains)
  functions := functionsOf (canonicalEntries (entriesOf catalog.functions))
  views := viewsOf catalog.relationKinds
  reports := reports catalog

def viewFields (key : String) : List String := ["relation-kind",escapeComponent key,"view"]

def Report.fields : Report → List String
  | .rawColumn relation column rawType =>
    ["raw-column-type",escapeComponent relation,escapeComponent column,escapeComponent rawType]
  | .generated relation column kind =>
    ["generated-column",escapeComponent relation,escapeComponent column,generatedColumnKindTag kind]
  | .objectName kind key schema name =>
    ["object-name",kind.tag,escapeComponent key,escapeComponent (schema.getD ""),escapeComponent name]
  | .rawDomain key rawType => ["raw-domain-type",escapeComponent key,escapeComponent rawType]

theorem inspection_lines (catalog : InspectedCatalog) :
    appendInspectionMetadata catalog =
      (viewsOf catalog.relationKinds).map (fun key => record (viewFields key)) ++
        (reports catalog).map fun report => record report.fields := by
  have views : relationKindLines catalog.relationKinds =
      (viewsOf catalog.relationKinds).map fun key => record (viewFields key) := by
    unfold relationKindLines viewsOf
    rw [List.map_filterMap]
    congr 1
    funext entry
    dsimp only
    split <;> rfl
  have rawColumns : rawColumnTypeLines catalog.toCatalog =
      (rawColumnReports catalog.toCatalog).map fun report => record report.fields := by
    unfold rawColumnTypeLines rawColumnReports
    rw [List.map_flatMap]
    congr 1
    funext entry
    obtain ⟨relationKey,rawTypes⟩ := entry
    change List.filterMap _ (sortedEntries rawTypes) = List.map _ (List.filterMap _ (sortedEntries rawTypes))
    rw [List.map_filterMap]
    congr 1
    funext column
    dsimp only
    unfold rawColumnTypeLine
    dsimp only
    split <;> rfl
  have generated : generatedColumnLines catalog.generatedColumnKinds =
      (generatedReports catalog.generatedColumnKinds).map fun report => record report.fields := by
    unfold generatedColumnLines generatedReports
    rw [List.map_flatMap]
    congr 1
    funext entry
    rw [List.map_map]
    rfl
  have names : ∀ objectKind names,appendPreservedNames (ObjectKind.tag objectKind) names =
      (nameReports objectKind names).map fun report => record report.fields := by
    intro objectKind names
    unfold appendPreservedNames nameReports
    rw [List.map_filterMap]
    congr 1
    funext entry
    dsimp only
    split <;> rfl
  have rawDomains : appendRawDomainTypes catalog =
      (rawDomainReports catalog).map fun report => record report.fields := by
    unfold appendRawDomainTypes rawDomainReports
    rw [List.map_filterMap]
    congr 1
    funext entry
    dsimp only
    split <;> rfl
  unfold appendInspectionMetadata appendRelationMetadata reports
  rw [views,rawColumns,generated,rawDomains]
  simp only [List.map_append,List.append_assoc,← names]
  rfl

end

-- What the text does not tell apart: an enum without labels from one with an empty
-- label, and a name that is absent from an empty one.
def blurLabels : List String → List String
  | [] => [""]
  | labels => labels

def blurName (name : Option String) : Option String := some (name.getD "")

def blurFunction (function : CatalogFunction) : CatalogFunction :=
  { function with arguments := function.arguments.map fun argument => { argument with name := blurName argument.name } }

def Report.blur : Report → Report
  | .objectName kind key schema name => .objectName kind key (blurName schema) name
  | report => report

def Described.blur (schema : Described) : Described :=
  { schema with
    enums := schema.enums.map (Prod.map id blurLabels)
    functions := schema.functions.map (Prod.map id blurFunction)
    reports := schema.reports.map Report.blur }

-- Components stand between four separators, and are escaped with letters of their
-- own.
def separators : List Char := ['|',':','\t','\n']

def componentLetter (c : Char) : Option Char :=
  if c = '\\' then some '\\' else
  if c = '|' then some '|' else
  if c = ':' then some ':' else
  if c = '\t' then some 't' else
  if c = '\n' then some 'n' else none

def componentEscape : Escape where
  letter := componentLetter
  slash := by decide
  apart := by
    intro c d same special
    unfold componentLetter at same special
    split_ifs at same special <;> simp_all

theorem escapeComponent_eq (value : String) :
    escapeComponent value = String.ofList (componentEscape.chars value.toList) := by
  have each : ∀ c,(componentEscape.token c).spelled = escapeChar c := by
    intro c
    have slash : c.toNat = 0x5c ↔ c = '\\' := by
      constructor
      · intro code
        exact Char.toNat_inj.mp code
      · intro is
        rw [is]
        rfl
    unfold escapeChar Escape.token
    simp only [slash,show componentEscape.letter c = componentLetter c from rfl]
    unfold componentLetter
    split_ifs <;> rfl
  unfold escapeComponent Escape.chars
  simp only [each]

theorem escapeComponent_inj {value other : String} : escapeComponent value = escapeComponent other ↔ value = other := by
  constructor
  · intro equal
    rw [escapeComponent_eq,escapeComponent_eq,String.ofList_inj] at equal
    exact String.toList_inj.mp (componentEscape.chars_inj equal)
  · intro same
    rw [same]

theorem part_component (value : String) : Part separators (escapeComponent value) := by
  rw [escapeComponent_eq]
  apply componentEscape.part_chars
  intro c member
  simp only [separators,List.mem_cons,List.not_mem_nil,or_false] at member
  rcases member with rfl | rfl | rfl | rfl <;> decide

theorem part_flag (value : Bool) : Part separators (flag value) := by
  cases value <;> exact part_checked (by decide)

theorem flag_inj {value other : Bool} : flag value = flag other ↔ value = other := by
  cases value <;> cases other <;> decide

theorem part_mode (mode : FunctionArgumentMode) : Part separators (modeTag mode) := by
  cases mode <;> exact part_checked (by decide)

theorem mode_inj {mode other : FunctionArgumentMode} : modeTag mode = modeTag other ↔ mode = other := by
  cases mode <;> cases other <;> decide

theorem dialect_inj {dialect other : SqlDialect} : dialectTag dialect = dialectTag other ↔ dialect = other := by
  cases dialect <;> cases other <;> decide

theorem kind_inj {kind other : GeneratedColumnKind} :
    generatedColumnKindTag kind = generatedColumnKindTag other ↔ kind = other := by
  cases kind <;> cases other <;> decide

theorem objectKind_inj {kind other : ObjectKind} : kind.tag = other.tag ↔ kind = other := by
  cases kind <;> cases other <;> decide

-- What stands between the tabs of a line.
def Fields (fields : List String) : Prop := ∀ field ∈ fields,Part ['\t','\n'] field

theorem fields_nil : Fields [] := List.forall_mem_nil _

theorem fields_cons {field : String} {fields : List String} :
    Fields (field :: fields) ↔ Part ['\t','\n'] field ∧ Fields fields :=
  List.forall_mem_cons

theorem field_component (value : String) : Part ['\t','\n'] (escapeComponent value) :=
  (part_component value).of_subset (by simp [separators])

theorem field_flag (value : Bool) : Part ['\t','\n'] (flag value) := (part_flag value).of_subset (by simp [separators])

theorem field_number (n : Nat) : Part ['\t','\n'] (toString n) := part_nat (by decide) n

def tags : List String := ["dialect","table","column","enum","composite","domain","function","relation-kind",
  "raw-column-type","generated-column","object-name","raw-domain-type"]

theorem field_tag {tag : String} (among : tags.contains tag = true) : Part ['\t','\n'] tag := by
  have all : ∀ tag ∈ tags,tag.toList.all (fun c => c != '\\' && !(['\t','\n'].contains c)) = true := by decide
  exact part_checked (all tag (List.contains_iff_mem.mp among))

theorem record_inj {xs ys : List String} {x y : String} (left : Fields (x :: xs)) (right : Fields (y :: ys)) :
    record (x :: xs) = record (y :: ys) ↔ x :: xs = y :: ys := by
  constructor
  · intro equal
    exact join_inj (by decide) (fun field member => (left field member).of_subset (by simp))
      (fun field member => (right field member).of_subset (by simp)) (List.cons_ne_nil _ _) (List.cons_ne_nil _ _) equal
  · intro same
    rw [same]

theorem part_record {fields : List String} (each : Fields fields) : Part ['\n'] (record fields) := by
  apply Part.join (part_checked (by decide))
  intro field member
  exact (each field member).of_subset (by simp)

def tagged (line : String) : String := tagOf '\t' line

theorem tagged_record {tag : String} (among : tags.contains tag = true) (next : String) (fields : List String) :
    tagged (record (tag :: next :: fields)) = tag := by
  apply tagOf_join
  have all : ∀ tag ∈ tags,'\t' ∉ tag.toList := by decide
  exact all tag (List.contains_iff_mem.mp among)

-- Names, types and a flag stand between colons, and lists of them between bars.
theorem part_typedName (name sqlType : String) (nullable : Bool) :
    Part ['|','\t','\n'] (typedName name sqlType nullable) := by
  apply Part.join (part_checked (by decide))
  have among : ['|','\t','\n'] ⊆ separators := by simp [separators]
  intro part member
  simp only [List.mem_cons,List.not_mem_nil,or_false] at member
  rcases member with rfl | rfl | rfl
  · exact (part_component name).of_subset among
  · exact (part_component sqlType).of_subset among
  · exact (part_flag nullable).of_subset among

theorem typedName_written (name sqlType : String) (nullable : Bool) : typedName name sqlType nullable ≠ "" := by
  intro empty
  have chars := congrArg String.toList empty
  rw [typedName,join_cons] at chars
  simp at chars

theorem typedName_inj {n t m u : String} {b c : Bool} :
    typedName n t b = typedName m u c ↔ n = m ∧ t = u ∧ b = c := by
  constructor
  · intro equal
    have each : ∀ (n t : String) (b : Bool),∀ part ∈ [escapeComponent n,escapeComponent t,flag b],Part [':'] part := by
      have among : [':'] ⊆ separators := by simp [separators]
      intro n t b part member
      simp only [List.mem_cons,List.not_mem_nil,or_false] at member
      rcases member with rfl | rfl | rfl
      · exact (part_component n).of_subset among
      · exact (part_component t).of_subset among
      · exact (part_flag b).of_subset among
    have parts := join_inj (by decide) (each n t b) (each m u c) (List.cons_ne_nil _ _) (List.cons_ne_nil _ _) equal
    simp only [List.cons.injEq,and_true] at parts
    exact ⟨escapeComponent_inj.mp parts.1,escapeComponent_inj.mp parts.2.1,flag_inj.mp parts.2.2⟩
  · rintro ⟨rfl,rfl,rfl⟩
    rfl

-- Typed names are never empty, so a list of none of them is told apart.
theorem typedNames_inj {α : Type} {written : α → String × String × Bool} (apart : written.Injective) {xs ys : List α} :
    join "|" (xs.map fun x => typedName (written x).1 (written x).2.1 (written x).2.2) =
      join "|" (ys.map fun y => typedName (written y).1 (written y).2.1 (written y).2.2) ↔ xs = ys := by
  constructor
  · intro equal
    have parts := join_written_inj (by decide) (by
      intro part member
      obtain ⟨x,_,rfl⟩ := List.mem_map.mp member
      exact ⟨(part_typedName _ _ _).of_subset (by simp),typedName_written _ _ _⟩) (by
      intro part member
      obtain ⟨y,_,rfl⟩ := List.mem_map.mp member
      exact ⟨(part_typedName _ _ _).of_subset (by simp),typedName_written _ _ _⟩) equal
    apply List.map_injective_iff.mpr ?_ parts
    intro x y same
    obtain ⟨names,types,flags⟩ := typedName_inj.mp same
    exact apart (Prod.ext names (Prod.ext types flags))
  · intro same
    rw [same]

theorem part_typedNames {α : Type} (written : α → String × String × Bool) (xs : List α) :
    Part ['\t','\n'] (join "|" (xs.map fun x => typedName (written x).1 (written x).2.1 (written x).2.2)) := by
  apply Part.join (part_checked (by decide))
  intro part member
  obtain ⟨x,_,rfl⟩ := List.mem_map.mp member
  exact (part_typedName _ _ _).of_subset (by simp)

theorem labels_inj {labels others : List String} :
    join "|" (labels.map escapeComponent) = join "|" (others.map escapeComponent) ↔
      blurLabels labels = blurLabels others := by
  have blurred : ∀ labels,join "|" (labels.map escapeComponent) = join "|" ((blurLabels labels).map escapeComponent) := by
    intro labels
    cases labels with
    | nil => decide
    | cons label labels => rfl
  have some' : ∀ labels,(blurLabels labels).map escapeComponent ≠ [] := by
    intro labels
    cases labels <;> exact List.cons_ne_nil _ _
  have part : ∀ labels : List String,∀ part ∈ labels.map escapeComponent,Part ['|'] part := by
    intro labels part member
    obtain ⟨label,_,rfl⟩ := List.mem_map.mp member
    exact (part_component label).of_subset (by simp [separators])
  rw [blurred,blurred others]
  constructor
  · intro equal
    have same := join_inj (by decide) (part _) (part _) (some' labels) (some' others) equal
    exact List.map_injective_iff.mpr (fun _ _ => escapeComponent_inj.mp) same
  · intro same
    rw [same]

theorem field_labels (labels : List String) : Part ['\t','\n'] (join "|" (labels.map escapeComponent)) := by
  apply Part.join (part_checked (by decide))
  intro part member
  obtain ⟨label,_,rfl⟩ := List.mem_map.mp member
  exact field_component label

def argumentParts (argument : FunctionArgument) : List String :=
  [escapeComponent (argument.name.getD ""),escapeComponent argument.sqlType,modeTag argument.mode,
    flag argument.hasDefault]

def blurArgument (argument : FunctionArgument) : FunctionArgument := { argument with name := blurName argument.name }

theorem part_argument (argument : FunctionArgument) : ∀ part ∈ argumentParts argument,Part separators part := by
  intro part member
  simp only [argumentParts,List.mem_cons,List.not_mem_nil,or_false] at member
  rcases member with rfl | rfl | rfl | rfl
  · exact part_component _
  · exact part_component _
  · exact part_mode _
  · exact part_flag _

theorem argumentParts_inj {a b : FunctionArgument} : argumentParts a = argumentParts b ↔ blurArgument a = blurArgument b := by
  obtain ⟨name,sqlType,mode,hasDefault⟩ := a
  obtain ⟨other,sqlType',mode',hasDefault'⟩ := b
  simp only [argumentParts,blurArgument,blurName,List.cons.injEq,and_true,escapeComponent_inj,mode_inj,flag_inj,
    FunctionArgument.mk.injEq,Option.some.injEq]

theorem part_canonicalArgument (argument : FunctionArgument) : Part ['|','\t','\n'] (canonicalArgument argument) := by
  apply Part.join (part_checked (by decide))
  intro part member
  exact (part_argument argument part member).of_subset (by simp [separators])

theorem part_arguments (arguments : List FunctionArgument) :
    Part ['\t','\n'] (join "|" (arguments.map canonicalArgument)) := by
  apply Part.join (part_checked (by decide))
  intro part member
  obtain ⟨argument,_,rfl⟩ := List.mem_map.mp member
  exact (part_canonicalArgument argument).of_subset (by simp)

-- One argument and the sign behind it.
theorem argument_followed {follow : Char} (among : follow ∈ separators) {a b : FunctionArgument}
    {rest others : List Token}
    (equal : tokens (canonicalArgument a).toList ++ .bare follow :: rest =
      tokens (canonicalArgument b).toList ++ .bare follow :: others) : blurArgument a = blurArgument b ∧ rest = others := by
  have inside : [':',follow] ⊆ separators := by
    apply List.cons_subset.mpr ⟨by simp [separators],List.cons_subset.mpr ⟨among,List.nil_subset _⟩⟩
  obtain ⟨parts,rests⟩ := join_followed (by decide) (fun part member => (part_argument a part member).of_subset inside)
    (fun part member => (part_argument b part member).of_subset inside) (List.cons_ne_nil _ _) rfl equal
  exact ⟨argumentParts_inj.mp parts,rests⟩

theorem arguments_followed {xs ys : List FunctionArgument} (counts : xs.length = ys.length) {rest others : List Token}
    (equal : tokens (join "|" (xs.map canonicalArgument)).toList ++ .bare ':' :: rest =
      tokens (join "|" (ys.map canonicalArgument)).toList ++ .bare ':' :: others) :
    xs.map blurArgument = ys.map blurArgument ∧ rest = others := by
  induction xs generalizing ys with
  | nil =>
    cases ys with
    | nil => exact ⟨rfl,(List.cons.inj (List.append_cancel_left equal)).2⟩
    | cons y ys => cases counts
  | cons x xs ih =>
    cases ys with
    | nil => cases counts
    | cons y ys =>
      cases xs with
      | nil =>
        cases ys with
        | nil =>
          obtain ⟨heads,rests⟩ := argument_followed (by simp [separators]) equal
          exact ⟨congrArg (fun argument => [argument]) heads,rests⟩
        | cons next ys => simp at counts
      | cons next xs =>
        cases ys with
        | nil => simp at counts
        | cons nextOther ys =>
          have cut : ∀ (a b : FunctionArgument) (cs : List FunctionArgument),
              tokens (join "|" ((a :: b :: cs).map canonicalArgument)).toList =
                tokens (canonicalArgument a).toList ++
                  .bare '|' :: tokens (join "|" ((b :: cs).map canonicalArgument)).toList := by
            intro a b cs
            exact tokens_join (by decide) (part_canonicalArgument a).closed (cs.map canonicalArgument)
          rw [cut,cut,List.append_assoc,List.append_assoc,List.cons_append,List.cons_append] at equal
          obtain ⟨heads,tails⟩ := argument_followed (by simp [separators]) equal
          obtain ⟨more,rests⟩ := ih (by simpa using counts) tails
          exact ⟨List.cons_eq_cons.mpr ⟨heads,more⟩,rests⟩

theorem return_inj {r t : FunctionReturn} : canonicalReturn r = canonicalReturn t ↔ r = t := by
  have typed : ∀ {tag name : String},tag.toList.all (fun c => c != '\\' && !([':'].contains c)) = true →
      name.toList.all (fun c => c != '\\' && !([':'].contains c)) = true → ∀ {text content : String},
      join ":" [tag,text] = join ":" [name,content] → tag = name ∧ text = content := by
    intro tag name plain plainOther text content equal
    exact pair_inj (by decide) (part_checked plain) (part_checked plainOther) equal
  have columns : Function.Injective fun column : FunctionResultColumn => (column.name,column.sqlType,column.nullable) := by
    intro a b same
    cases a
    cases b
    cases same
    rfl
  constructor
  · intro equal
    cases r with
    | scalar sqlType =>
      cases t with
      | scalar other =>
        rw [escapeComponent_inj.mp (typed (by decide) (by decide) equal).2]
      | setOf other => exact absurd (typed (by decide) (by decide) equal).1 (by decide)
      | table others => exact absurd (typed (by decide) (by decide) equal).1 (by decide)
    | setOf sqlType =>
      cases t with
      | scalar other => exact absurd (typed (by decide) (by decide) equal).1 (by decide)
      | setOf other =>
        rw [escapeComponent_inj.mp (typed (by decide) (by decide) equal).2]
      | table others => exact absurd (typed (by decide) (by decide) equal).1 (by decide)
    | table result =>
      cases t with
      | scalar other => exact absurd (typed (by decide) (by decide) equal).1 (by decide)
      | setOf other => exact absurd (typed (by decide) (by decide) equal).1 (by decide)
      | table others =>
        rw [(typedNames_inj columns).mp (typed (by decide) (by decide) equal).2]
  · intro same
    rw [same]

theorem part_return (result : FunctionReturn) : Part ['\t','\n'] (canonicalReturn result) := by
  have tag : ∀ tag text : String,tag.toList.all (fun c => c != '\\' && !(['\t','\n'].contains c)) = true →
      Part ['\t','\n'] text → Part ['\t','\n'] (join ":" [tag,text]) := by
    intro tag text plain part
    apply Part.join (part_checked (by decide))
    intro field member
    rcases List.mem_cons.mp member with rfl | member
    · exact part_checked plain
    · rw [List.mem_singleton.mp member]
      exact part
  cases result with
  | scalar sqlType => exact tag "scalar" _ (by decide) (field_component sqlType)
  | setOf sqlType => exact tag "setof" _ (by decide) (field_component sqlType)
  | table columns =>
    apply tag "table" _ (by decide)
    exact part_typedNames (fun column : FunctionResultColumn => (column.name,column.sqlType,column.nullable)) columns

theorem field_function (function : CatalogFunction) : Part ['\t','\n'] (canonicalFunction function) := by
  apply Part.join (part_checked (by decide))
  intro part member
  simp only [List.mem_cons,List.not_mem_nil,or_false] at member
  rcases member with rfl | rfl | rfl
  · exact field_number _
  · exact part_arguments _
  · exact part_return _

theorem function_inj {f g : CatalogFunction} : canonicalFunction f = canonicalFunction g ↔ blurFunction f = blurFunction g := by
  obtain ⟨arguments,returnType⟩ := f
  obtain ⟨otherArguments,otherReturn⟩ := g
  have blurred : blurFunction ⟨arguments,returnType⟩ = blurFunction ⟨otherArguments,otherReturn⟩ ↔
      arguments.map blurArgument = otherArguments.map blurArgument ∧ returnType = otherReturn := by
    simp only [blurFunction,CatalogFunction.mk.injEq]
    rfl
  rw [blurred]
  constructor
  · intro equal
    have number : ∀ n : Nat,Part [':'] (toString n) := fun n => part_nat (by decide) n
    have equalTokens := congrArg (fun text => tokens text.toList) equal
    simp only [canonicalFunction] at equalTokens
    rw [tokens_join (by decide) (number _).closed,tokens_join (by decide) (number _).closed] at equalTokens
    have apart : ∀ n : Nat,.bare ':' ∉ tokens (toString n : String).toList := by
      intro n
      exact (number n).apart ':' (List.mem_singleton_self ':')
    obtain ⟨counts,tails⟩ := cut_unique (apart arguments.length) (apart otherArguments.length) equalTokens
    rw [tokens_join (by decide) (part_arguments _).closed,tokens_join (by decide) (part_arguments _).closed] at tails
    obtain ⟨same,rests⟩ := arguments_followed (nat_inj (String.toList_inj.mp (tokens_inj counts))) tails
    exact ⟨same,return_inj.mp (String.toList_inj.mp (tokens_inj rests))⟩
  · intro same
    have texts := congrArg (List.map canonicalArgument) same.1
    rw [List.map_map,List.map_map] at texts
    have counts := congrArg List.length same.1
    rw [List.length_map,List.length_map] at counts
    unfold canonicalFunction
    dsimp only
    rw [counts,show arguments.map canonicalArgument = otherArguments.map canonicalArgument from texts,same.2]

-- The fields of every line, so that what a line holds is known by them.
theorem line_iff {α : Type} {fields : α → List String} (each : ∀ a,Fields (fields a)) (some' : ∀ a,fields a ≠ [])
    (a b : α) : record (fields a) = record (fields b) ↔ fields a = fields b := by
  have left := each a
  have right := each b
  have someLeft := some' a
  have someRight := some' b
  cases first : fields a with
  | nil => exact absurd first someLeft
  | cons x xs =>
    cases second : fields b with
    | nil => exact absurd second someRight
    | cons y ys =>
      rw [first] at left
      rw [second] at right
      exact record_inj left right

def labelsFields (entry : String × List String) : List String :=
  ["enum",escapeComponent entry.1,join "|" (entry.2.map escapeComponent)]

def membersFields (entry : String × List CompositeField) : List String :=
  ["composite",escapeComponent entry.1,
    join "|" (entry.2.map fun field => typedName field.name field.sqlType field.nullable)]

def domainFields (entry : String × DomainDef) : List String :=
  ["domain",escapeComponent entry.1,escapeComponent entry.2.baseType,flag entry.2.notNull]

def functionFields (entry : String × CatalogFunction) : List String :=
  ["function",escapeComponent entry.1,canonicalFunction entry.2]

theorem labelsFields_solid (entry : String × List String) : Fields (labelsFields entry) := by
  simp only [labelsFields,fields_cons,field_component,field_labels,fields_nil,and_self,and_true]
  exact field_tag (by decide)

theorem membersFields_solid (entry : String × List CompositeField) : Fields (membersFields entry) := by
  have members := part_typedNames (fun field : CompositeField => (field.name,field.sqlType,field.nullable)) entry.2
  simp only [membersFields,fields_cons,field_component,members,fields_nil,and_self,and_true]
  exact field_tag (by decide)

theorem domainFields_solid (entry : String × DomainDef) : Fields (domainFields entry) := by
  simp only [domainFields,fields_cons,field_component,field_flag,fields_nil,and_self,and_true]
  exact field_tag (by decide)

theorem functionFields_solid (entry : String × CatalogFunction) : Fields (functionFields entry) := by
  simp only [functionFields,fields_cons,field_component,field_function,fields_nil,and_self,and_true]
  exact field_tag (by decide)

theorem viewFields_solid (key : String) : Fields (viewFields key) := by
  simp only [viewFields,fields_cons,field_component,fields_nil,and_true,true_and]
  exact ⟨field_tag (by decide),part_checked (by decide)⟩

theorem reportFields_solid (report : Report) : Fields report.fields := by
  have kinds : ∀ kind : GeneratedColumnKind,Part ['\t','\n'] (generatedColumnKindTag kind) := by
    intro kind
    cases kind <;> exact part_checked (by decide)
  have objects : ∀ kind : ObjectKind,Part ['\t','\n'] kind.tag := by
    intro kind
    cases kind <;> exact part_checked (by decide)
  cases report <;>
    simp only [Report.fields,fields_cons,field_component,kinds,objects,fields_nil,and_self,and_true] <;>
    exact field_tag (by decide)

theorem labelsFields_inj (a b : String × List String) :
    labelsFields a = labelsFields b ↔ Prod.map id blurLabels a = Prod.map id blurLabels b := by
  simp only [labelsFields,List.cons.injEq,true_and,and_true,escapeComponent_inj,labels_inj,Prod.map,id_eq,Prod.mk.injEq]

theorem membersFields_inj (a b : String × List CompositeField) : membersFields a = membersFields b ↔ a = b := by
  have members : Function.Injective fun field : CompositeField => (field.name,field.sqlType,field.nullable) := by
    intro x y same
    cases x
    cases y
    cases same
    rfl
  simp only [membersFields,List.cons.injEq,true_and,and_true,escapeComponent_inj,Prod.ext_iff]
  exact and_congr_right fun _ => typedNames_inj members

theorem domainFields_inj (a b : String × DomainDef) : domainFields a = domainFields b ↔ a = b := by
  obtain ⟨key,baseType,notNull⟩ := a
  obtain ⟨otherKey,otherType,otherNull⟩ := b
  simp only [domainFields,List.cons.injEq,true_and,and_true,escapeComponent_inj,flag_inj,Prod.mk.injEq,DomainDef.mk.injEq]

theorem functionFields_inj (a b : String × CatalogFunction) :
    functionFields a = functionFields b ↔ Prod.map id blurFunction a = Prod.map id blurFunction b := by
  simp only [functionFields,List.cons.injEq,true_and,and_true,escapeComponent_inj,function_inj,Prod.map,id_eq,
    Prod.mk.injEq]

theorem viewFields_inj (a b : String) : viewFields a = viewFields b ↔ a = b := by
  simp only [viewFields,List.cons.injEq,true_and,and_true,escapeComponent_inj]

theorem reportFields_inj (a b : Report) : a.fields = b.fields ↔ a.blur = b.blur := by
  cases a <;> cases b <;>
    simp only [Report.fields,Report.blur,blurName,List.cons.injEq,true_and,and_true,escapeComponent_inj,kind_inj,
      objectKind_inj,Report.rawColumn.injEq,Report.generated.injEq,Report.objectName.injEq,Report.rawDomain.injEq,
      Option.some.injEq,reduceCtorEq,String.reduceEq,false_and,and_false]

def headingFields (entry : String × List ColumnShape) : List String :=
  ["table",escapeComponent entry.1,toString entry.2.length]

def shapeFields (key : String) (idx : Nat) (shape : ColumnShape) : List String :=
  ["column",key,toString idx,escapeComponent shape.1,escapeComponent shape.2.1,flag shape.2.2.1,flag shape.2.2.2]

theorem headingFields_solid (entry : String × List ColumnShape) : Fields (headingFields entry) := by
  simp only [headingFields,fields_cons,field_component,field_number,fields_nil,and_self,and_true]
  exact field_tag (by decide)

theorem shapeFields_solid (key : String) (idx : Nat) (shape : ColumnShape) :
    Fields (shapeFields (escapeComponent key) idx shape) := by
  simp only [shapeFields,fields_cons,field_component,field_number,field_flag,fields_nil,and_self,and_true]
  exact field_tag (by decide)

theorem shapeFields_inj (key : String) (idx : Nat) (a b : ColumnShape)
    (equal : shapeLine (escapeComponent key) idx a = shapeLine (escapeComponent key) idx b) : a = b := by
  have fields := (line_iff (shapeFields_solid key idx) (fun _ => List.cons_ne_nil _ _) a b).mp equal
  simp only [shapeFields,List.cons.injEq,true_and,and_true,escapeComponent_inj,flag_inj] at fields
  obtain ⟨name,sqlType,nullable,primaryKey⟩ := fields
  exact Prod.ext name (Prod.ext sqlType (Prod.ext nullable primaryKey))

theorem tables_inj {xs ys : List (String × List ColumnShape)} :
    xs.flatMap tableShapeLines = ys.flatMap tableShapeLines ↔ xs = ys := by
  constructor
  · intro equal
    refine @blocks_eq _ _ (fun line => tagged line = "table") _ _ ?_ ?_ ?_ xs ys equal
    · intro entry
      exact decide_eq_true (tagged_record (by decide) _ _)
    · intro entry row member
      obtain ⟨idx,inside,rfl⟩ := List.mem_mapIdx.mp member
      apply decide_eq_false
      rw [shapeLine,tagged_record (by decide)]
      decide
    · intro entry other heading rows
      have fields := (line_iff headingFields_solid (fun _ => List.cons_ne_nil _ _) entry other).mp heading
      simp only [headingFields,List.cons.injEq,true_and,and_true,escapeComponent_inj] at fields
      obtain ⟨key,shapes⟩ := entry
      obtain ⟨otherKey,others⟩ := other
      dsimp only at fields rows
      rw [← fields.1] at rows ⊢
      rw [mapIdx_eq (shapeFields_inj key) rows]
  · intro same
    rw [same]

-- Overloads of one name are sorted by their text.
def orderedFunctions (entries : List (String × List CatalogFunction)) : List (String × CatalogFunction) :=
  entries.flatMap fun entry => (sortBy canonicalFunction entry.2).map fun function => (entry.1,function)

theorem functions_lines (entries : List (String × List CatalogFunction)) :
    entries.flatMap functionLines = (orderedFunctions entries).map fun entry => record (functionFields entry) := by
  unfold orderedFunctions
  rw [List.map_flatMap]
  congr 1
  funext entry
  have sorted : (entry.2.map canonicalFunction).mergeSort (fun a b => a ≤ b) =
      (sortBy canonicalFunction entry.2).map canonicalFunction := by
    exact @sortBy_map _ _ canonicalFunction canonicalFunction id (fun _ => rfl) entry.2
  unfold functionLines
  dsimp only
  rw [sorted,List.map_map,List.map_map]
  rfl

theorem orderedFunctions_perm (entries : List (String × List CatalogFunction)) :
    (orderedFunctions entries).Perm (functionsOf entries) := by
  unfold orderedFunctions functionsOf
  induction entries with
  | nil => exact .nil
  | cons entry entries ih =>
    rw [List.flatMap_cons,List.flatMap_cons]
    exact ((sortBy_perm canonicalFunction entry.2).map _).append ih

def spelledFunction (entry : String × CatalogFunction) : String × String := (entry.1,canonicalFunction entry.2)

def Before (a b : String × String) : Prop := a.1 < b.1 ∨ a.1 = b.1 ∧ a.2 ≤ b.2

theorem before_antisymm {a b : String × String} (first : Before a b) (second : Before b a) : a = b := by
  rcases first with less | ⟨same,least⟩
  · rcases second with more | ⟨same,_⟩
    · exact absurd more (String.lt_asymm less)
    · exact absurd (same ▸ less) (String.lt_irrefl _)
  · rcases second with more | ⟨_,most⟩
    · exact absurd (same ▸ more) (String.lt_irrefl _)
    · exact Prod.ext same (String.le_antisymm least most)

theorem orderedFunctions_sorted {entries : List (String × List CatalogFunction)}
    (increasing : (entries.map Prod.fst).Pairwise (· < ·)) :
    ((orderedFunctions entries).map spelledFunction).Pairwise Before := by
  induction entries with
  | nil => exact .nil
  | cons entry entries ih =>
    obtain ⟨before,rest⟩ := List.pairwise_cons.mp increasing
    unfold orderedFunctions at ih ⊢
    rw [List.flatMap_cons,List.map_append,List.pairwise_append]
    refine ⟨?_,ih rest,?_⟩
    · rw [List.map_map,List.pairwise_map]
      exact (sortBy_sorted canonicalFunction entry.2).imp fun least => .inr ⟨rfl,least⟩
    · intro a left b right
      obtain ⟨x,inside,rfl⟩ := List.mem_map.mp left
      obtain ⟨function,_,rfl⟩ := List.mem_map.mp inside
      obtain ⟨y,among,rfl⟩ := List.mem_map.mp right
      obtain ⟨other,member,among⟩ := List.mem_flatMap.mp among
      obtain ⟨function',_,rfl⟩ := List.mem_map.mp among
      exact .inl (before other.1 (List.mem_map_of_mem member))

theorem canonicalEntries_increasing {α : Type} {entries : List (String × α)} (distinct : (entries.map Prod.fst).Nodup) :
    ((canonicalEntries entries).map Prod.fst).Pairwise (· < ·) := by
  have sorted : ∀ {entries : List (String × α)},(entries.map Prod.fst).Nodup →
      ((sortByKey entries).map Prod.fst).Pairwise (· < ·) := by
    intro entries distinct
    have nodup : ((sortByKey entries).map Prod.fst).Nodup :=
      ((sortBy_perm Prod.fst entries).map Prod.fst).nodup_iff.mpr distinct
    have least : ((sortByKey entries).map Prod.fst).Pairwise (· ≤ ·) :=
      List.pairwise_map.mpr (sortBy_sorted Prod.fst entries)
    apply (least.and nodup).imp
    intro a b both
    exact String.not_le.mp fun most => both.2 (String.le_antisymm both.1 most)
  unfold canonicalEntries
  dsimp only
  split
  · rename_i apart
    exact sorted apart
  · exact sorted distinct

theorem entriesOf_distinct {α : Type} (map : AHashMap α) : ((entriesOf map).map Prod.fst).Nodup := by
  have keys := map.keys_nodup
  unfold entriesOf
  rw [List.map_map]
  exact keys

theorem functions_iff {xs ys : List (String × List CatalogFunction)} (left : (xs.map Prod.fst).Pairwise (· < ·))
    (right : (ys.map Prod.fst).Pairwise (· < ·)) :
    xs.flatMap functionLines = ys.flatMap functionLines ↔
      (functionsOf xs : Multiset (String × CatalogFunction)).map (Prod.map id blurFunction) =
        (functionsOf ys : Multiset (String × CatalogFunction)).map (Prod.map id blurFunction) := by
  have fields := fun a b => (line_iff functionFields_solid (fun _ => List.cons_ne_nil _ _) a b).trans
    (functionFields_inj a b)
  have spelled : ∀ a b : String × CatalogFunction,spelledFunction a = spelledFunction b ↔
      Prod.map id blurFunction a = Prod.map id blurFunction b := by
    intro a b
    simp only [spelledFunction,Prod.map,id_eq,Prod.mk.injEq,function_inj]
  rw [functions_lines,functions_lines,map_iff fields,← map_iff spelled,
    ← Multiset.coe_eq_coe.mpr (orderedFunctions_perm xs),← Multiset.coe_eq_coe.mpr (orderedFunctions_perm ys)]
  constructor
  · intro equal
    rw [Multiset.map_coe,Multiset.map_coe,(map_iff spelled _ _).mp equal]
  · intro equal
    have same := multiset_map_eq (fun a b => (spelled a b).mpr) equal
    rw [Multiset.map_coe,Multiset.map_coe,Multiset.coe_eq_coe] at same
    apply List.Perm.eq_of_pairwise ?_ (orderedFunctions_sorted left) (orderedFunctions_sorted right) same
    intro a b _ _ first second
    exact before_antisymm first second

def kindOf (line : String) : String :=
  if tagged line = "column" then "table" else
  if ["raw-column-type","generated-column","object-name","raw-domain-type"].contains (tagged line) then "report"
  else tagged line

def kinds : List String := ["dialect","table","enum","composite","domain","function","relation-kind","report"]

-- A line of its kind, and one line only.
def Line (kind row : String) : Prop := kindOf row = kind ∧ Part ['\n'] row

theorem line_record {tag kind next : String} {fields : List String} (among : tags.contains tag = true)
    (is : (if tag = "column" then "table" else
      if ["raw-column-type","generated-column","object-name","raw-domain-type"].contains tag then "report"
      else tag) = kind) (each : Fields (tag :: next :: fields)) : Line kind (record (tag :: next :: fields)) := by
  refine ⟨?_,part_record each⟩
  unfold kindOf
  rw [tagged_record among]
  exact is

def dialectFields (dialect : SqlDialect) : List String := ["dialect",dialectTag dialect]

theorem dialectFields_solid (dialect : SqlDialect) : Fields (dialectFields dialect) := by
  have tag : Part ['\t','\n'] (dialectTag dialect) := by
    cases dialect <;> exact part_checked (by decide)
  exact fields_cons.mpr ⟨field_tag (by decide),fields_cons.mpr ⟨tag,fields_nil⟩⟩

section
variable [CaseMap]

def sectionsOf (catalog : InspectedCatalog) : List (List String) :=
  let schema := described catalog
  [[record (dialectFields schema.dialect)],
    schema.tables.flatMap tableShapeLines,
    schema.enums.map fun entry => record (labelsFields entry),
    schema.composites.map fun entry => record (membersFields entry),
    schema.domains.map fun entry => record (domainFields entry),
    (canonicalEntries (entriesOf catalog.functions)).flatMap functionLines,
    schema.views.map fun key => record (viewFields key),
    schema.reports.map fun report => record report.fields]

theorem sections_flatten (catalog : InspectedCatalog) :
    (sectionsOf catalog).flatten = shapeLines catalog.toCatalog ++ appendInspectionMetadata catalog := by
  have enums : (canonicalEntries ((entriesOf catalog.enums).map (Prod.map id (·.values)))).map
      (fun entry => record (labelsFields entry)) = (canonicalEntries (entriesOf catalog.enums)).map enumLine := by
    rw [canonicalEntries_map,List.map_map]
    rfl
  have composites : (canonicalEntries ((entriesOf catalog.composites).map (Prod.map id (·.fields)))).map
      (fun entry => record (membersFields entry)) =
        (canonicalEntries (entriesOf catalog.composites)).map compositeLine := by
    rw [canonicalEntries_map,List.map_map]
    rfl
  have domains : (canonicalEntries (entriesOf catalog.domains)).map (fun entry => record (domainFields entry)) =
      (canonicalEntries (entriesOf catalog.domains)).map domainLine := rfl
  unfold sectionsOf shapeLines
  rw [inspection_lines,tables_lines]
  simp only [described,List.flatten_cons,List.flatten_nil,List.append_nil,List.append_assoc]
  rw [enums,composites,domains]
  rfl

theorem sections_lines (catalog : InspectedCatalog) :
    List.Forall₂ (fun kind rows => ∀ row ∈ rows,Line kind row) kinds (sectionsOf catalog) := by
  refine .cons ?_ (.cons ?_ (.cons ?_ (.cons ?_ (.cons ?_ (.cons ?_ (.cons ?_ (.cons ?_ .nil)))))))
  · intro row member
    rw [List.mem_singleton.mp member]
    exact line_record (by decide) (by decide) (dialectFields_solid _)
  · intro row member
    obtain ⟨entry,_,inside⟩ := List.mem_flatMap.mp member
    rcases List.mem_cons.mp inside with rfl | column
    · exact line_record (by decide) (by decide) (headingFields_solid entry)
    · obtain ⟨idx,among,rfl⟩ := List.mem_mapIdx.mp column
      exact line_record (by decide) (by decide) (shapeFields_solid _ _ _)
  · intro row member
    obtain ⟨entry,_,rfl⟩ := List.mem_map.mp member
    exact line_record (by decide) (by decide) (labelsFields_solid entry)
  · intro row member
    obtain ⟨entry,_,rfl⟩ := List.mem_map.mp member
    exact line_record (by decide) (by decide) (membersFields_solid entry)
  · intro row member
    obtain ⟨entry,_,rfl⟩ := List.mem_map.mp member
    exact line_record (by decide) (by decide) (domainFields_solid entry)
  · intro row member
    rw [functions_lines] at member
    obtain ⟨entry,_,rfl⟩ := List.mem_map.mp member
    exact line_record (by decide) (by decide) (functionFields_solid entry)
  · intro row member
    obtain ⟨key,_,rfl⟩ := List.mem_map.mp member
    exact line_record (by decide) (by decide) (viewFields_solid key)
  · intro row member
    obtain ⟨report,_,rfl⟩ := List.mem_map.mp member
    have solid := reportFields_solid report
    cases report <;> exact line_record (by decide) (by decide) solid

theorem form_sections {a b : InspectedCatalog} : canonicalForm a = canonicalForm b ↔ sectionsOf a = sectionsOf b := by
  have each : ∀ catalog,∀ row ∈ (sectionsOf catalog).flatten,Part ['\n'] row := by
    intro catalog row member
    obtain ⟨rows,among,inside⟩ := List.mem_flatten.mp member
    obtain ⟨kind,_,lines⟩ := Register.forall₂_mem (sections_lines catalog).flip among
    exact (lines row inside).2
  have some' : ∀ catalog,(sectionsOf catalog).flatten ≠ [] := fun _ => List.cons_ne_nil _ _
  have byKind : ∀ catalog,List.Forall₂ (fun kind rows => ∀ row ∈ rows,kindOf row = kind) kinds (sectionsOf catalog) := by
    intro catalog
    exact (sections_lines catalog).imp fun kind rows lines row member => (lines row member).1
  unfold canonicalForm
  rw [← sections_flatten,← sections_flatten]
  constructor
  · intro equal
    apply kinds_inj (by decide) (byKind a) (byKind b)
    exact join_inj (by decide) (each a) (each b) (some' a) (some' b) equal
  · intro same
    rw [same]

-- The canonical form tells what is described, up to the names and labels that are
-- absent or empty.
theorem form_iff {a b : InspectedCatalog} :
    canonicalForm a = canonicalForm b ↔ (described a).blur = (described b).blur := by
  have functions := functions_iff (canonicalEntries_increasing (entriesOf_distinct a.functions))
    (canonicalEntries_increasing (entriesOf_distinct b.functions))
  have enums := map_iff (fun x y => (line_iff labelsFields_solid (fun _ => List.cons_ne_nil _ _) x y).trans
    (labelsFields_inj x y)) (described a).enums (described b).enums
  have composites := map_iff (fun x y => (line_iff membersFields_solid (fun _ => List.cons_ne_nil _ _) x y).trans
    (membersFields_inj x y)) (g := id) (described a).composites (described b).composites
  have domains := map_iff (fun x y => (line_iff domainFields_solid (fun _ => List.cons_ne_nil _ _) x y).trans
    (domainFields_inj x y)) (g := id) (described a).domains (described b).domains
  have views := map_iff (fun x y => (line_iff viewFields_solid (fun _ => List.cons_ne_nil _ _) x y).trans
    (viewFields_inj x y)) (g := id) (described a).views (described b).views
  have reports := map_iff (fun x y => (line_iff reportFields_solid (fun r => by cases r <;> exact List.cons_ne_nil _ _)
    x y).trans (reportFields_inj x y)) (described a).reports (described b).reports
  have dialects : record (dialectFields (described a).dialect) = record (dialectFields (described b).dialect) ↔
      (described a).dialect = (described b).dialect := by
    rw [line_iff dialectFields_solid fun _ => List.cons_ne_nil _ _]
    simp only [dialectFields,List.cons.injEq,true_and,and_true,dialect_inj]
  rw [List.map_id,List.map_id] at composites domains views
  rw [form_sections]
  unfold sectionsOf Described.blur
  simp only [List.cons.injEq,and_true,Described.mk.injEq]
  rw [dialects,tables_inj,enums,composites,domains,functions,views,reports]
  rfl

-- Different schemas that one text stands for.
def Confused (schema other : Described) : Prop := schema ≠ other ∧ schema.blur = other.blur

theorem form_injective_iff (a b : InspectedCatalog) :
    (canonicalForm a = canonicalForm b → described a = described b) ↔ ¬Confused (described a) (described b) := by
  rw [form_iff]
  unfold Confused
  constructor
  · intro injective confused
    exact confused.1 (injective confused.2)
  · intro apart blurred
    by_contra differ
    exact apart ⟨differ,blurred⟩

end

section Unlabelled
local instance schemaCase : CaseMap := ascii

def labelled (labels : List String) : InspectedCatalog :=
  { Catalog.new .postgreSQL with enums := (∅ : AHashMap EnumType).insert "status" ⟨labels⟩ }.uninspected

-- An enum without labels and one with the empty label.
theorem unlabelled_collides : canonicalForm (labelled []) = canonicalForm (labelled [""]) ∧
    described (labelled []) ≠ described (labelled [""]) := by
  constructor
  · decide +kernel
  · intro same
    have enums := congrArg Described.enums same
    revert enums
    decide +kernel

end Unlabelled

end Scythe.SchemaFingerprint
